import Qualification.Run.Creation

/-! # Transitions of a run

Every transition checks what it needs and is refused otherwise; a refused one, seen on its
own, has changed nothing.
-/

namespace Qualification.TestRun

def requireInProgress (run : TestRun) (action : String) : Except EngineError Unit :=
  if run.status = .inProgress then .ok ()
  else .error (.invalidTransition .run run.id run.status.text action
    (if run.status.isTerminal then "run is terminal" else "run has not been started"))

/-- The protocol must be the one that the run is bound to. -/
def requireProtocol (run : TestRun) (p : ProtocolDefinition) : Except EngineError Unit :=
  if p.id = run.protocolId ∧ p.version = run.protocolVersion then .ok ()
  else .error (.protocolMismatch run.id run.key p.key)

def start (now : Instant) (run : TestRun) : Except EngineError TestRun :=
  if run.status = .pending then
    .ok { run with status := .inProgress, startedAt := some now }
  else .error (.invalidTransition .run run.id run.status.text "start"
    "only a PENDING run can be started")

/-- Close a phase that is open when the run ends. -/
def closeOpenPhase (now : Instant) (p : PhaseRecord) : PhaseRecord :=
  if p.status = .inProgress then { p with status := .failed, completedAt := some now } else p

/-- Close a step that is in progress when the run ends. -/
def closeOpenStep (now : Instant) (s : StepRecord) : StepRecord :=
  if s.status = .inProgress then { s with status := .failed, completedAt := some now } else s

/-- End the run before its time. What is recorded stays. -/
def terminate (now : Instant) (status : RunStatus) (reason : String) (run : TestRun) :
    TestRun :=
  { run with
    phases := run.phases.map (closeOpenPhase now)
    steps := run.steps.map (closeOpenStep now)
    status := status
    completedAt := some now
    reason := some reason }

def abort (now : Instant) (reason : String) (run : TestRun) : Except EngineError TestRun :=
  (run.requireInProgress "abort").map fun () => run.terminate now .aborted reason

def fail (now : Instant) (reason : String) (run : TestRun) : Except EngineError TestRun :=
  (run.requireInProgress "fail").map fun () => run.terminate now .failed reason

def judged (p : ProtocolDefinition) (run : TestRun) : TestRun :=
  { run with acceptance := Acceptance.evaluate p.acceptanceCriteria run.ledger run.parameters }

/-- Judge the run by its ledger, and give it the result. -/
def graded (p : ProtocolDefinition) (run : TestRun) : TestRun :=
  { run.judged p with result := Acceptance.aggregate (run.judged p).acceptance }

/-- Complete the run; every phase must be closed. -/
def complete (now : Instant) (p : ProtocolDefinition) (run : TestRun) :
    Except EngineError TestRun := do
  run.requireProtocol p
  run.requireInProgress "complete"
  match run.phases.find? fun ph => !ph.status.isClosed with
  | some ph =>
      .error (.invalidTransition .run run.id run.status.text "complete"
        ("phase '" ++ ph.phaseId ++ "' is still " ++ ph.status.text))
  | none => .ok { run.graded p with status := .completed, completedAt := some now }

/-- Judge the run; a completed one gets a new result. -/
def evaluate (p : ProtocolDefinition) (run : TestRun) : Except EngineError TestRun :=
  (run.requireProtocol p).map fun () =>
    if run.status = .completed then run.graded p else run.judged p

def changePhase (phaseId : String) (change : PhaseRecord → PhaseRecord) (run : TestRun) :
    TestRun :=
  { run with phases := Keyed.changeFirst PhaseRecord.phaseId phaseId change run.phases }

def changeStep (stepId : String) (change : StepRecord → StepRecord) (run : TestRun) :
    TestRun :=
  { run with steps := Keyed.changeFirst StepRecord.stepId stepId change run.steps }

/-- The phase with an identity, which must be there. -/
def getPhase (run : TestRun) (phaseId : String) : Except EngineError PhaseRecord :=
  match run.phase? phaseId with
  | some p => .ok p
  | none => .error (.unknownPhase run.id phaseId)

/-- The step with an identity, which must be there. -/
def getStep (run : TestRun) (stepId : String) : Except EngineError StepRecord :=
  match run.step? stepId with
  | some s => .ok s
  | none => .error (.unknownStep run.id stepId)

/-- The first phase before another one that is not closed. -/
def openBefore? (run : TestRun) (phaseId : String) : Option PhaseRecord :=
  (run.phases.takeWhile fun p => p.phaseId != phaseId).find? fun p => !p.status.isClosed

def entered (now : Instant) (p : PhaseRecord) : PhaseRecord :=
  { p with status := .inProgress, startedAt := some now }

/-- Enter a phase; all earlier ones must be closed. -/
def enterPhase (now : Instant) (phaseId : String) (run : TestRun) :
    Except EngineError TestRun := do
  run.requireInProgress "enter_phase"
  let p ← run.getPhase phaseId
  if p.status ≠ .pending then
    .error (.invalidTransition .phase phaseId p.status.text "enter"
      "only a PENDING phase can be entered")
  else match run.openBefore? phaseId with
    | some earlier =>
        .error (.invalidTransition .phase phaseId p.status.text "enter"
          ("earlier phase '" ++ earlier.phaseId ++ "' is still " ++ earlier.status.text))
    | none => .ok (run.changePhase phaseId (entered now))

def left (now : Instant) (p : PhaseRecord) : PhaseRecord :=
  { p with status := .completed, completedAt := some now }

/-- Leave a phase; all its steps must be over. -/
def exitPhase (now : Instant) (phaseId : String) (run : TestRun) :
    Except EngineError TestRun := do
  run.requireInProgress "exit_phase"
  let p ← run.getPhase phaseId
  if p.status ≠ .inProgress then
    .error (.invalidTransition .phase phaseId p.status.text "exit"
      "only an IN_PROGRESS phase can be exited")
  else match (run.stepsIn phaseId).find? fun s => !s.status.isTerminal with
    | some s =>
        .error (.invalidTransition .phase phaseId p.status.text "exit"
          ("step '" ++ s.stepId ++ "' is still " ++ s.status.text))
    | none => .ok (run.changePhase phaseId (left now))

def refuseStart {α : Type} (stepId : String) (status : StepStatus) (reason : String) :
    Except EngineError α :=
  .error (.invalidTransition .step stepId status.text "start" reason)

/-- The run with the phase of a step entered, unless it is already. -/
def enterPhaseOf (now : Instant) (s : StepRecord) (stepId : String) (run : TestRun) :
    Except EngineError TestRun :=
  match run.phase? s.phaseId with
  | none => .error (.unknownPhase run.id s.phaseId)
  | some p =>
      match p.status with
      | .pending => run.enterPhase now s.phaseId
      | .inProgress => .ok run
      | closed =>
          refuseStart stepId .pending
            ("phase '" ++ s.phaseId ++ "' is already " ++ closed.text)

/-- The step that can be started: a pending one, when no step is in progress and the earlier
    steps of its phase are over. -/
def startable (run : TestRun) (stepId : String) : Except EngineError StepRecord := do
  run.requireInProgress "start_step"
  let s ← run.getStep stepId
  if s.status ≠ .pending then
    refuseStart stepId s.status "only a PENDING step can be started"
  else match run.activeStep? with
    | some active =>
        refuseStart stepId s.status ("step '" ++ active.stepId ++ "' is already in progress")
    | none =>
        match (run.stepsIn s.phaseId).find? fun t =>
            t.sequence < s.sequence && !t.status.isTerminal with
        | some before =>
            refuseStart stepId s.status ("step '" ++ before.stepId ++ "' (sequence "
              ++ before.sequence.repr ++ ") has not finished")
        | none => return s

def begun (now : Instant) (s : StepRecord) : StepRecord :=
  { s with status := .inProgress, startedAt := some now }

/-- Start a step, and enter its phase if that is pending. -/
def startStep (env : Surroundings) (stepId : String) (run : TestRun) :
    Except EngineError TestRun := do
  let s ← run.startable stepId
  let ready ← run.enterPhaseOf (env.clock 0) s stepId
  return ready.changeStep stepId (begun (env.clock 1))

/-- The answer of an operation, and the run as it leaves it. A refused operation can have
    changed the run before the refusal. -/
abbrev Outcome (α : Type) := Except EngineError α × TestRun

/-- The outcome of a transition that changes nothing when refused. -/
def settle (run : TestRun) : Except EngineError TestRun → Outcome Unit
  | .ok next => (.ok (), next)
  | .error e => (.error e, run)

/-- A step as it is left by an outcome. -/
def finished (now : Instant) (outcome : StepOutcome) (observations : Option String)
    (s : StepRecord) : StepRecord :=
  { s with
    status := outcome.status
    verdict := outcome.verdict?
    observations := observations
    completedAt := some now }

/-- The step that can be finished: the one in progress. -/
def finishable (run : TestRun) (stepId : String) : Except EngineError StepRecord := do
  run.requireInProgress "finish_step"
  let s ← run.getStep stepId
  if s.status ≠ .inProgress then
    .error (.invalidTransition .step stepId s.status.text "finish"
      "only an IN_PROGRESS step can be finished")
  else return s

/-- Finish the step in progress, and leave its phase once all its steps are over. -/
def finishStep (env : Surroundings) (stepId : String) (outcome : StepOutcome)
    (observations : Option String) (run : TestRun) : Outcome Unit :=
  match run.finishable stepId with
  | .error e => (.error e, run)
  | .ok s =>
      let next := run.changeStep stepId (finished (env.clock 0) outcome observations)
      if (next.stepsIn s.phaseId).all fun t => t.status.isTerminal then
        settle next (next.exitPhase (env.clock 1) s.phaseId)
      else (.ok (), next)

end Qualification.TestRun
