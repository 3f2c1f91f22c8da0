import Qualification.Store.Row

/-! # The store

Runs and findings of quality control in tables. A write either happens as a whole or
leaves the store as it was: one that is refused is rolled back.
-/

namespace Qualification

/-- A part of a stored run. -/
inductive StoredPart where
  | run
  | phases
  | steps
  | measurements
  | findings
  deriving Repr, DecidableEq

def StoredPart.text : StoredPart → String
  | run => "run"
  | phases => "phases"
  | steps => "steps"
  | measurements => "measurements"
  | findings => "qc results"

/-- What the store could not do. -/
inductive StoreError where
  | saveRun
  | insertPhase (id : String)
  | insertStep (id : String)
  | insertMeasurement (id : String)
  | clearFindings
  | insertFinding (name : String)
  | load (part : StoredPart)
  | list
  | amend
  deriving Repr, DecidableEq

/-- The message, where the store has words of its own. -/
def StoreError.message? : StoreError → Option String
  | saveRun => some "upsert run"
  | insertPhase id => some ("insert phase '" ++ id ++ "'")
  | insertStep id => some ("insert step '" ++ id ++ "'")
  | insertMeasurement id => some ("insert measurement '" ++ id ++ "'")
  | clearFindings => some "clear qc results"
  | insertFinding name => some ("insert qc result '" ++ name ++ "'")
  | load part => some ("load " ++ part.text)
  | list | amend => none

/-- The tables of a store. The rows that belong to one run stand in their order. -/
structure Tables where
  runs : List RunRow
  phases : List PhaseRow
  steps : List StepRow
  measurements : List MeasurementRow
  findings : List FindingRow
  deriving Repr

/-- A store, and a connection to it. -/
structure Store where
  /-- The tables, once they are set up. -/
  tables : Option Tables
  /-- Does the connection check that findings belong to a run? -/
  checksRuns : Bool
  deriving Repr

namespace Tables

def empty : Tables :=
  ⟨[], [], [], [], []⟩

def run? (t : Tables) (runId : String) : Option RunRow :=
  t.runs.find? fun r => r.id = runId

/-- Put the row of a run, in place of the one it has if there is one. -/
def putRun (row : RunRow) : List RunRow → List RunRow
  | [] => [row]
  | r :: rest => if r.id = row.id then row :: rest else r :: putRun row rest

/-- The tables without the phases, steps and measurements of a run. -/
def withoutParts (t : Tables) (runId : String) : Tables :=
  { t with
    phases := t.phases.filter fun r => r.runId != runId
    steps := t.steps.filter fun r => r.runId != runId
    measurements := t.measurements.filter fun r => r.runId != runId }

/-- Add the row of a phase; a run has each phase once. -/
def addPhase (runId : String) (t : Tables) (p : PhaseRecord) : Except StoreError Tables :=
  if t.phases.any fun r => r.runId == runId && r.phaseId == p.phaseId then
    .error (.insertPhase p.phaseId)
  else .ok { t with phases := t.phases ++ [.ofPhase runId p] }

/-- Add the row of a step; a run has each step once. -/
def addStep (runId : String) (t : Tables) (s : StepRecord) : Except StoreError Tables :=
  if t.steps.any fun r => r.runId == runId && r.stepId == s.stepId then
    .error (.insertStep s.stepId)
  else .ok { t with steps := t.steps ++ [.ofStep runId s] }

/-- Add the row of a measurement; its identity must be new to the whole table, and its
    value one that can be kept. -/
def addMeasurement (runId : String) (t : Tables) (m : Measurement) :
    Except StoreError Tables :=
  let row := MeasurementRow.ofMeasurement runId m
  if !row.value.isValid || t.measurements.any fun r => r.id == m.id then
    .error (.insertMeasurement m.id)
  else .ok { t with measurements := t.measurements ++ [row] }

/-- The tables with a run in place of what they held under its identity. -/
def saveRun (t : Tables) (run : TestRun) : Except StoreError Tables := do
  let t := { t with runs := putRun (.ofRun run) t.runs }.withoutParts run.id
  let t ← run.phases.foldlM (addPhase run.id) t
  let t ← run.steps.foldlM (addStep run.id) t
  run.ledger.entries.foldlM (addMeasurement run.id) t

/-- The tables with findings in place of those that a run had. -/
def saveFindings (t : Tables) (checksRuns : Bool) (runId : String)
    (findings : List QcFinding) : Except StoreError Tables :=
  let rest := t.findings.filter fun r => r.runId != runId
  match findings with
  | [] => .ok { t with findings := rest }
  | f :: _ =>
      if checksRuns && (t.run? runId).isNone then .error (.insertFinding f.name)
      else .ok { t with findings := rest ++ findings.map (.ofFinding runId) }

/-- The values that rows hold, if they all hold one. -/
def readAll {ρ α : Type} (part : StoredPart) (read : ρ → Option α) (rows : List ρ) :
    Except StoreError (List α) :=
  match rows.mapM read with
  | some values => .ok values
  | none => .error (.load part)

def loadPhases (t : Tables) (runId : String) : Except StoreError (List PhaseRecord) :=
  readAll .phases PhaseRow.toPhase? (t.phases.filter fun r => r.runId == runId)

def loadSteps (t : Tables) (runId : String) : Except StoreError (List StepRecord) :=
  readAll .steps StepRow.toStep? (t.steps.filter fun r => r.runId == runId)

def loadLedger (t : Tables) (runId : String) : Except StoreError Ledger :=
  (readAll .measurements MeasurementRow.toMeasurement?
    (t.measurements.filter fun r => r.runId == runId)).map Ledger.mk

/-- The run under an identity, if there is one. -/
def loadRun (t : Tables) (runId : String) : Except StoreError (Option TestRun) :=
  match t.run? runId with
  | none => .ok none
  | some row =>
      match row.toRun? with
      | none => .error (.load .run)
      | some run => do
          let phases ← t.loadPhases runId
          let steps ← t.loadSteps runId
          let ledger ← t.loadLedger runId
          return some { run with phases, steps, ledger }

def loadFindings (t : Tables) (runId : String) : Except StoreError (List QcFinding) :=
  readAll .findings FindingRow.toFinding? (t.findings.filter fun r => r.runId == runId)

def listRuns (t : Tables) : Except StoreError (List RunSummary) :=
  match (t.runs.mergeSort RunRow.precedes).mapM RunRow.toSummary? with
  | some summaries => .ok summaries
  | none => .error .list

end Tables

namespace Store

/-- A store with nothing in it, not even tables. -/
def blank : Store :=
  ⟨none, false⟩

def init (s : Store) : Store :=
  ⟨some (s.tables.getD .empty), true⟩

def reconnect (s : Store) : Store :=
  { s with checksRuns := false }

/-- The tables; without them an operation fails in its own way. -/
def requireTables (s : Store) (e : StoreError) : Except StoreError Tables :=
  match s.tables with
  | some t => .ok t
  | none => .error e

/-- Save a run in place of what the store holds under its identity. -/
def saveRun (s : Store) (run : TestRun) : Except StoreError Store := do
  let t ← s.requireTables .saveRun
  return { s with tables := some (← t.saveRun run) }

/-- Save findings in place of those that a run had. -/
def saveFindings (s : Store) (runId : String) (findings : List QcFinding) :
    Except StoreError Store := do
  let t ← s.requireTables .clearFindings
  return { s with tables := some (← t.saveFindings s.checksRuns runId findings) }

/-- The run under an identity, if there is one. -/
def loadRun (s : Store) (runId : String) : Except StoreError (Option TestRun) := do
  (← s.requireTables (.load .run)).loadRun runId

def loadFindings (s : Store) (runId : String) : Except StoreError (List QcFinding) := do
  (← s.requireTables (.load .findings)).loadFindings runId

def listRuns (s : Store) : Except StoreError (List RunSummary) := do
  (← s.requireTables .list).listRuns

/-- A write to a store. -/
inductive Write where
  | run (run : TestRun)
  | findings (runId : String) (findings : List QcFinding)

/-- The run that a write is about. -/
def Write.runId : Write → String
  | .run r => r.id
  | .findings id _ => id

def write (s : Store) : Write → Except StoreError Store
  | .run run => s.saveRun run
  | .findings runId findings => s.saveFindings runId findings

/-- The store that a write leaves. -/
def after (s : Store) (w : Write) : Store :=
  (s.write w).toOption.getD s

end Store

end Qualification
