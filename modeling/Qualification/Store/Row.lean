import Qualification.QualityControl.Finding
import Qualification.Run.Codec
import Qualification.Store.Column
import Qualification.Store.Summary

/-! # Rows

What the tables of a store hold. Each kind of row is made from a part of a run and gives
that part back, unless a column has been tampered with.
-/

namespace Qualification

open Document

/-- A row of the table of runs. -/
structure RunRow where
  /-- The identity; no two rows share one. -/
  id : String
  protocolId : String
  protocolVersion : String
  specimenId : String
  operator : String
  parameters : String
  status : String
  result : String
  /-- Why the run ended before its time. -/
  reason : Option String
  createdAt : String
  startedAt : Option String
  completedAt : Option String
  acceptance : String
  deriving Repr, DecidableEq

/-- A row of the table of phases. -/
structure PhaseRow where
  runId : String
  /-- The phase; no two rows of a run share one. -/
  phaseId : String
  status : String
  startedAt : Option String
  completedAt : Option String
  deriving Repr, DecidableEq

/-- A row of the table of steps. -/
structure StepRow where
  runId : String
  /-- The step; no two rows of a run share one. -/
  stepId : String
  phaseId : String
  sequence : Nat
  action : String
  status : String
  verdict : Option Bool
  observations : Option String
  startedAt : Option String
  completedAt : Option String
  deriving Repr, DecidableEq

/-- A row of the table of measurements. -/
structure MeasurementRow where
  /-- The identity; no two rows share one, whatever their runs. -/
  id : String
  /-- The run that the row belongs to. -/
  runId : String
  parameter : String
  value : ValueColumns
  unit : Option String
  timestamp : String
  phaseId : Option String
  stepId : Option String
  /-- The word for when in the test it was taken. -/
  type : String
  /-- The word for how far it is trusted. -/
  flag : String
  notes : Option String
  /-- Whatever else the instrument tells, as text. -/
  metadata : String
  deriving Repr

/-- A row of the table of findings. -/
structure FindingRow where
  runId : String
  name : String
  /-- The word for what the check looks at. -/
  category : String
  passed : Bool
  /-- The word for how grave the outcome is. -/
  severity : String
  expected : String
  actual : String
  message : String
  deriving Repr, DecidableEq

namespace PhaseRow

def ofPhase (runId : String) (p : PhaseRecord) : PhaseRow where
  runId := runId
  phaseId := p.phaseId
  status := p.status.text
  startedAt := p.startedAt.map Instant.column
  completedAt := p.completedAt.map Instant.column

def toPhase? (r : PhaseRow) : Option PhaseRecord := do
  return ⟨r.phaseId, ← PhaseStatus.ofText? r.status, ← Instant.ofColumnOrNull? r.startedAt,
    ← Instant.ofColumnOrNull? r.completedAt⟩

end PhaseRow

namespace StepRow

def ofStep (runId : String) (s : StepRecord) : StepRow where
  runId := runId
  stepId := s.stepId
  phaseId := s.phaseId
  sequence := s.sequence
  action := s.action
  status := s.status.text
  verdict := s.verdict
  observations := s.observations
  startedAt := s.startedAt.map Instant.column
  completedAt := s.completedAt.map Instant.column

def toStep? (r : StepRow) : Option StepRecord := do
  return ⟨r.stepId, r.phaseId, r.sequence, r.action, ← StepStatus.ofText? r.status, r.verdict,
    r.observations, ← Instant.ofColumnOrNull? r.startedAt,
    ← Instant.ofColumnOrNull? r.completedAt⟩

end StepRow

namespace MeasurementRow

/-- The row of an entry in the ledger of a run. -/
def ofMeasurement (runId : String) (m : Measurement) : MeasurementRow where
  id := m.id
  runId := runId
  parameter := m.parameter
  value := .ofValue m.value
  unit := m.unit
  timestamp := m.timestamp.column
  phaseId := m.phaseId
  stepId := m.stepId
  type := m.type.text
  flag := m.flag.text
  notes := m.notes
  metadata := (Json.object m.metadata).compact

def toMeasurement? (r : MeasurementRow) : Option Measurement := do
  return ⟨r.id, r.runId, r.parameter, ← r.value.toValue?, r.unit,
    ← Instant.ofColumn? r.timestamp, r.phaseId, r.stepId, ← MeasurementType.ofText? r.type,
    ← QualityFlag.ofText? r.flag, r.notes,
    ← Json.ofColumn? (Decoder.dictionary Decoder.json) r.metadata⟩

end MeasurementRow

namespace FindingRow

def ofFinding (runId : String) (f : QcFinding) : FindingRow where
  runId := runId
  name := f.name
  category := f.category.text
  passed := f.passed
  severity := f.severity.text
  expected := f.expected.compact
  actual := f.actual.compact
  message := f.message

def toFinding? (r : FindingRow) : Option QcFinding := do
  return ⟨r.name, ← QcCategory.words.find? r.category, r.passed,
    ← Severity.words.find? r.severity, ← Json.ofColumn? Decoder.json r.expected,
    ← Json.ofColumn? Decoder.json r.actual, r.message⟩

end FindingRow

namespace RunRow

def ofRun (run : TestRun) : RunRow where
  id := run.id
  protocolId := run.protocolId
  protocolVersion := run.protocolVersion
  specimenId := run.specimenId
  operator := run.operator
  parameters := (Json.object run.parameters).compact
  status := run.status.text
  result := run.result.text
  reason := run.reason
  createdAt := run.createdAt.column
  startedAt := run.startedAt.map Instant.column
  completedAt := run.completedAt.map Instant.column
  acceptance := (Json.ofList Evaluation.toJson run.acceptance).compact

/-- The run that a row holds, with its phases, steps and ledger still to come. -/
def toRun? (r : RunRow) : Option TestRun := do
  return {
    id := r.id
    protocolId := r.protocolId
    protocolVersion := r.protocolVersion
    specimenId := r.specimenId
    operator := r.operator
    parameters := ← Json.ofColumn? (Decoder.dictionary Decoder.json) r.parameters
    status := ← RunStatus.ofText? r.status
    result := ← TestResult.ofText? r.result
    reason := r.reason
    createdAt := ← Instant.ofColumn? r.createdAt
    startedAt := ← Instant.ofColumnOrNull? r.startedAt
    completedAt := ← Instant.ofColumnOrNull? r.completedAt
    phases := []
    steps := []
    ledger := .empty
    acceptance := ← Json.ofColumn? (Decoder.list Evaluation.decode) r.acceptance }

def toSummary? (r : RunRow) : Option RunSummary := do
  return ⟨r.id, r.protocolId, r.protocolVersion, r.specimenId, r.operator,
    ← RunStatus.ofText? r.status, ← TestResult.ofText? r.result,
    ← Instant.ofColumn? r.createdAt, ← Instant.ofColumnOrNull? r.completedAt⟩

/-- Does a row come before another in a list of runs? The newest comes first; rows of one
    time come in the order of their identities. -/
def precedes (a b : RunRow) : Bool :=
  b.createdAt < a.createdAt || (a.createdAt == b.createdAt && a.id ≤ b.id)

end RunRow

end Qualification
