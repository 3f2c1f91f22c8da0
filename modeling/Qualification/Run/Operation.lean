import Qualification.Run.Execution

/-! # Operations on a run

All that can be done to a run, as data, and what each does.
-/

namespace Qualification

/-- An operation on a run. -/
inductive Operation where
  | start
  | abort (reason : String)
  | fail (reason : String)
  | complete
  | enterPhase (phaseId : String)
  | exitPhase (phaseId : String)
  | startStep (stepId : String)
  | finishStep (stepId : String) (outcome : StepOutcome) (observations : Option String)
  | record (measurement : NewMeasurement)
  | flag (measurementId : String) (flag : QualityFlag) (notes : Option String)
  | evaluate
  | execute (stepId : String) (inputs : StepInputs) (handlers : HandlerSet)
  /-- Execute a step by performers of any kind. -/
  | executeWith (stepId : String) (inputs : StepInputs) (resolve : StepDef → Option Performer)

/-- What an operation answers. -/
inductive Answer where
  | done
  | result (r : TestResult)
  | measurement (m : Measurement)
  | evaluations (es : List Evaluation)
  | status (s : StepStatus)
  deriving Repr

namespace TestRun

/-- The outcome of an operation that leaves the run as it was when refused. -/
def answering {α : Type} (run : TestRun) (answer : α → Answer) :
    Except EngineError (α × TestRun) → Outcome Answer
  | .ok (a, next) => (.ok (answer a), next)
  | .error e => (.error e, run)

/-- The outcome of a transition, with an answer read off the run that it leaves. -/
def answeringWith (run : TestRun) (answer : TestRun → Answer) :
    Except EngineError TestRun → Outcome Answer
  | .ok next => (.ok (answer next), next)
  | .error e => (.error e, run)

/-- The outcome of an operation that has an outcome of its own. -/
def answeringAs {α : Type} (answer : α → Answer) : Outcome α → Outcome Answer
  | (.ok a, next) => (.ok (answer a), next)
  | (.error e, next) => (.error e, next)

/-- Do an operation on a run, with a protocol where it takes one. -/
def apply (env : Surroundings) (p : ProtocolDefinition) (op : Operation) (run : TestRun) :
    Outcome Answer :=
  let now := env.clock 0
  let done (next : Except EngineError TestRun) := run.answeringWith (fun _ => .done) next
  match op with
  | .start => done (run.start now)
  | .abort reason => done (run.abort now reason)
  | .fail reason => done (run.fail now reason)
  | .complete => run.answeringWith (fun next => .result next.result) (run.complete now p)
  | .enterPhase phaseId => done (run.enterPhase now phaseId)
  | .exitPhase phaseId => done (run.exitPhase now phaseId)
  | .startStep stepId => done (run.startStep env stepId)
  | .finishStep stepId outcome observations =>
      answeringAs (fun () => .done) (run.finishStep env stepId outcome observations)
  | .record m => run.answering .measurement (run.record env p m)
  | .flag measurementId flag notes =>
      run.answering .measurement (run.flag measurementId flag notes)
  | .evaluate =>
      run.answeringWith (fun next => .evaluations next.acceptance) (run.evaluate p)
  | .execute stepId inputs handlers =>
      answeringAs .status (run.executeStep env p handlers stepId inputs)
  | .executeWith stepId inputs resolve =>
      answeringAs .status (run.executeWith env p resolve stepId inputs)

end TestRun

end Qualification
