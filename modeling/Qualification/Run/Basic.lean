import Qualification.Acceptance.Codec
import Qualification.Ledger

/-! # Test runs

One execution of a protocol against one specimen: three levels of status, the ledger of
measurements, and the verdicts.
-/

namespace Qualification

open Document

/-- Where a run stands. -/
inductive RunStatus where
  | pending
  | inProgress
  | completed
  | failed
  | aborted
  deriving Repr, DecidableEq

/-- Where a phase stands. -/
inductive PhaseStatus where
  | pending
  | inProgress
  | completed
  | failed
  deriving Repr, DecidableEq

/-- Where a step stands. -/
inductive StepStatus where
  | pending
  | inProgress
  | completed
  /-- Done without success, or in progress when the run ended. -/
  | failed
  | skipped
  deriving Repr, DecidableEq

/-- How a step finished. -/
inductive StepOutcome where
  | passed
  | failed
  | completed
  | skipped
  deriving Repr, DecidableEq

namespace RunStatus

def text : RunStatus → String
  | pending => "PENDING"
  | inProgress => "IN_PROGRESS"
  | completed => "COMPLETED"
  | failed => "FAILED"
  | aborted => "ABORTED"

def words : Words RunStatus :=
  [pending, inProgress, completed, failed, aborted].map fun s => (s, [s.text])

def ofText? (s : String) : Option RunStatus :=
  words.find? s

@[simp]
def isTerminal : RunStatus → Bool
  | completed | failed | aborted => true
  | pending | inProgress => false

end RunStatus

namespace PhaseStatus

def text : PhaseStatus → String
  | pending => "PENDING"
  | inProgress => "IN_PROGRESS"
  | completed => "COMPLETED"
  | failed => "FAILED"

def words : Words PhaseStatus :=
  [pending, inProgress, completed, failed].map fun s => (s, [s.text])

def ofText? (s : String) : Option PhaseStatus :=
  words.find? s

@[simp]
def isClosed : PhaseStatus → Bool
  | completed | failed => true
  | pending | inProgress => false

end PhaseStatus

namespace StepStatus

def text : StepStatus → String
  | pending => "PENDING"
  | inProgress => "IN_PROGRESS"
  | completed => "COMPLETED"
  | failed => "FAILED"
  | skipped => "SKIPPED"

def words : Words StepStatus :=
  [pending, inProgress, completed, failed, skipped].map fun s => (s, [s.text])

def ofText? (s : String) : Option StepStatus :=
  words.find? s

@[simp]
def isTerminal : StepStatus → Bool
  | completed | failed | skipped => true
  | pending | inProgress => false

end StepStatus

namespace StepOutcome

def text : StepOutcome → String
  | passed => "passed"
  | failed => "failed"
  | completed => "completed"
  | skipped => "skipped"

def words : Words StepOutcome :=
  [passed, failed, completed, skipped].map fun o => (o, [o.text])

/-- The status that an outcome leaves a step in. -/
def status : StepOutcome → StepStatus
  | passed | completed => .completed
  | failed => .failed
  | skipped => .skipped

def verdict? : StepOutcome → Option Bool
  | passed => some true
  | failed => some false
  | completed | skipped => none

end StepOutcome

/-- A phase of a run. -/
structure PhaseRecord where
  phaseId : String
  status : PhaseStatus
  startedAt : Option Instant
  completedAt : Option Instant
  deriving Repr, DecidableEq

/-- A step of a run. -/
structure StepRecord where
  stepId : String
  phaseId : String
  sequence : Nat
  action : String
  status : StepStatus
  verdict : Option Bool
  observations : Option String
  startedAt : Option Instant
  completedAt : Option Instant
  deriving Repr, DecidableEq

/-- One execution of a protocol against one specimen. -/
structure TestRun where
  id : String
  protocolId : String
  protocolVersion : String
  specimenId : String
  operator : String
  parameters : Dictionary Json
  status : RunStatus
  result : TestResult
  reason : Option String
  createdAt : Instant
  startedAt : Option Instant
  completedAt : Option Instant
  /-- The phases, in the order of the protocol. -/
  phases : List PhaseRecord
  /-- The steps, phase by phase, in sequence. -/
  steps : List StepRecord
  ledger : Ledger
  acceptance : List Evaluation
  deriving Repr, BEq

namespace TestRun

def phase? (run : TestRun) (phaseId : String) : Option PhaseRecord :=
  run.phases.find? fun p => p.phaseId = phaseId

def step? (run : TestRun) (stepId : String) : Option StepRecord :=
  run.steps.find? fun s => s.stepId = stepId

def stepsIn (run : TestRun) (phaseId : String) : List StepRecord :=
  run.steps.filter fun s => s.phaseId == phaseId

def activeStep? (run : TestRun) : Option StepRecord :=
  run.steps.find? fun s => s.status = .inProgress

def isTerminal (run : TestRun) : Bool :=
  run.status.isTerminal

/-- The key of the protocol that the run is bound to. -/
def key (run : TestRun) : ProtocolKey :=
  ⟨run.protocolId, run.protocolVersion⟩

/-- The share of steps that are over, in percent; all of none. -/
def progressPct (run : TestRun) : Float :=
  if run.steps.isEmpty then 100.0
  else
    let done := (run.steps.filter fun s => s.status.isTerminal).length
    100.0 * Float.ofNat done / Float.ofNat run.steps.length

end TestRun

end Qualification
