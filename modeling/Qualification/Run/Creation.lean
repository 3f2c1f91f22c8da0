import Qualification.Run.Basic
import Qualification.Run.Error

/-! # New runs

A run is bound to a protocol when it is created: its parameters are settled, and its
phases and steps are laid out, all pending.
-/

namespace Qualification

/-- What the outside world gives to an operation: readings of the clock, in order, and an
    identity for the measurement at each position of the ledger. -/
structure Surroundings where
  clock : Nat → Instant
  freshId : Nat → String

/-- The surroundings after some readings of the clock. -/
def Surroundings.later (s : Surroundings) (ticks : Nat) : Surroundings :=
  { s with clock := fun i => s.clock (ticks + i) }

namespace TestRun

/-- The value of a declared parameter: an override, else the default. -/
def parameterValue? (overrides : Dictionary Json) (d : ParameterDef) : Option Json :=
  (Dictionary.get? d.name overrides).or d.default

/-- Settle declared parameters in order; each value must pass the check of its
    declaration, and an override serves the first declaration of its name. -/
def settleParameters : Dictionary Json → Dictionary Json → List ParameterDef →
    Except EngineError (Dictionary Json)
  | _, settled, [] => .ok settled
  | overrides, settled, d :: rest =>
      let others := Dictionary.erase d.name overrides
      match parameterValue? overrides d with
      | none => settleParameters others settled rest
      | some value =>
          match d.check value with
          | .error reason => .error (.invalidParameter d.name reason)
          | .ok () => settleParameters others (Dictionary.insert d.name value settled) rest

/-- Settle the parameters of a run; an override must be declared. -/
def resolveParameters (p : ProtocolDefinition) (overrides : Dictionary Json) :
    Except EngineError (Dictionary Json) :=
  match overrides.keys.find? fun name => (p.parameter? name).isNone with
  | some name =>
      .error (.invalidParameter name ("not declared by protocol '" ++ p.id ++ "'"))
  | none => settleParameters overrides [] p.parameters

/-- The record of a phase that is not entered. -/
def pendingPhase (p : PhaseDef) : PhaseRecord :=
  ⟨p.id, .pending, none, none⟩

/-- The record of a step that is not started. -/
def pendingStep (phaseId : String) (s : StepDef) : StepRecord :=
  ⟨s.id, phaseId, s.sequence, s.action, .pending, none, none, none, none⟩

def inSequence (steps : List StepDef) : List StepDef :=
  steps.mergeSort fun a b => a.sequence ≤ b.sequence

/-- The records of all steps, phase by phase. -/
def pendingSteps (phases : List PhaseDef) : List StepRecord :=
  phases.flatMap fun p => (inSequence p.steps).map (pendingStep p.id)

def create (id : String) (now : Instant) (p : ProtocolDefinition)
    (specimen operator : String) (overrides : Dictionary Json) :
    Except EngineError TestRun :=
  (resolveParameters p overrides).map fun parameters => {
    id := id
    protocolId := p.id
    protocolVersion := p.version
    specimenId := specimen
    operator := operator
    parameters := parameters
    status := .pending
    result := .notEvaluated
    reason := none
    createdAt := now
    startedAt := none
    completedAt := none
    phases := p.phases.map pendingPhase
    steps := pendingSteps p.phases
    ledger := .empty
    acceptance := [] }

end TestRun

end Qualification
