import Qualification.Session.Basic
import Qualification.Run.Execution

/-! # Executing a session

The steps of a session are executed in order until the run ends. A step that is rejected
aborts the run, and so does a session that leaves phases open.
-/

namespace Qualification

/-- How many readings of the clock a step may take. -/
def SessionStep.ticks (s : SessionStep) : Nat :=
  2 * s.inputs.readings.length + 8

namespace TestRun

/-- Abort a run that is in progress; any other stays as it is. -/
def abortIfRunning (now : Instant) (reason : String) (run : TestRun) : TestRun :=
  match run.abort now reason with
  | .ok next => next
  | .error _ => run

/-- Execute a step of a session; its rejection aborts the run. -/
def playStep (env : Surroundings) (p : ProtocolDefinition) (step : SessionStep)
    (run : TestRun) : TestRun :=
  match run.executeStep env p .all step.stepId step.inputs with
  | (.ok _, next) => next
  | (.error e, next) =>
      next.abortIfRunning (env.clock step.ticks)
        ("session step '" ++ step.stepId ++ "' rejected: " ++ e.message)

/-- Complete a run whose session is over, or abort it if it cannot be completed. -/
def endSession (env : Surroundings) (p : ProtocolDefinition) (run : TestRun) : TestRun :=
  match run.complete (env.clock 0) p with
  | .ok next => next
  | .error e => run.abortIfRunning (env.clock 1) ("session ended early: " ++ e.message)

/-- Execute the steps of a session until the run has ended; end it after the last. -/
def play (p : ProtocolDefinition) :
    Surroundings → List SessionStep → TestRun → TestRun
  | env, [], run => run.endSession env p
  | env, step :: rest, run =>
      let next := run.playStep env p step
      if next.isTerminal then next else play p (env.later (step.ticks + 1)) rest next

end TestRun

/-- The run that a session makes of a protocol; parameters that do not fit make none. -/
def Session.execute (env : Surroundings) (runId : String) (p : ProtocolDefinition)
    (specimen operator : String) (parameters : Dictionary Json) (steps : List SessionStep) :
    Except EngineError TestRun := do
  let created ← TestRun.create runId (env.clock 0) p specimen operator parameters
  let started ← created.start (env.clock 1)
  return started.play p (env.later 2) steps

end Qualification
