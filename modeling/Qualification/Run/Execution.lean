import Qualification.Run.Handler
import Qualification.Run.Recording

/-! # Executing a step

A step is started, its handler performs it, its readings are recorded, and it is finished.
What goes wrong in between ends the run with a reason.
-/

namespace Qualification.TestRun

/-- The status of a step, pending if there is no such step. -/
def stepStatus (run : TestRun) (stepId : String) : StepStatus :=
  ((run.step? stepId).map (·.status)).getD .pending

/-- End a run in which a step went wrong. -/
def abortStep (now : Instant) (stepId reason : String) (run : TestRun) :
    Outcome StepStatus :=
  match run.abort now reason with
  | .ok next => (.ok (next.stepStatus stepId), next)
  | .error e => (.error e, run)

/-- Finish a step, with the status it has then. -/
def finishExecuted (env : Surroundings) (stepId : String) (outcome : StepOutcome)
    (observations : Option String) (run : TestRun) : Outcome StepStatus :=
  match run.finishStep env stepId outcome observations with
  | (.ok (), next) => (.ok (next.stepStatus stepId), next)
  | (.error e, next) => (.error e, next)

/-- Record the readings of a step in order, then finish it. A rejected reading ends the
    run; so does one beyond an aborting limit, and nothing is recorded after it. -/
def recordThenFinish (env : Surroundings) (p : ProtocolDefinition) (stepId : String)
    (result : HandlerOutcome) : List NewMeasurement → TestRun → Outcome StepStatus
  | [], run => run.finishExecuted env stepId result.outcome result.observations
  | m :: rest, run =>
      match run.record env p { m with stepId := some stepId } with
      | .error e =>
          run.abortStep (env.clock 0) stepId
            ("reading rejected on step '" ++ stepId ++ "': " ++ e.message)
      | .ok (_, next) =>
          if next.status = .inProgress then
            recordThenFinish (env.later 2) p stepId result rest next
          else (.ok (next.stepStatus stepId), next)

/-- The definition of a step and its performer, which must both be there. -/
def executable (run : TestRun) (p : ProtocolDefinition) (resolve : StepDef → Option Performer)
    (stepId : String) : Except EngineError (StepDef × Performer) := do
  run.requireProtocol p
  match p.step? stepId with
  | none => .error (.unknownStep run.id stepId)
  | some (_, step) =>
      match resolve step with
      | none => .error (.unknownAction stepId step.action)
      | some performer => return (step, performer)

/-- What happens to a step once it is started. -/
def perform (env : Surroundings) (p : ProtocolDefinition) (step : StepDef)
    (performer : Performer) (stepId : String) (inputs : StepInputs) (run : TestRun) :
    Outcome StepStatus :=
  if inputs.skip then
    match run.finishStep env stepId .skipped inputs.observations with
    | (.ok (), next) => (.ok .skipped, next)
    | (.error e, next) => (.error e, next)
  else match performer step inputs with
    | .error reason =>
        run.abortStep (env.clock 0) stepId
          ("action '" ++ step.action ++ "' failed on step '" ++ stepId ++ "': " ++ reason)
    | .ok result => recordThenFinish env p stepId result result.readings run

/-- Execute a step by performers of any kind. -/
def executeWith (env : Surroundings) (p : ProtocolDefinition)
    (resolve : StepDef → Option Performer) (stepId : String) (inputs : StepInputs)
    (run : TestRun) : Outcome StepStatus :=
  match run.executable p resolve stepId with
  | .error e => (.error e, run)
  | .ok (step, performer) =>
      match run.startStep env stepId with
      | .error e => (.error e, run)
      | .ok started => started.perform (env.later 2) p step performer stepId inputs

/-- Execute a step by a set of handlers. -/
def executeStep (env : Surroundings) (p : ProtocolDefinition) (set : HandlerSet)
    (stepId : String) (inputs : StepInputs) (run : TestRun) : Outcome StepStatus :=
  run.executeWith env p (fun step => (set.resolve? step).map Handler.run) stepId inputs

end Qualification.TestRun
