import Qualification.Run.Transition

/-! # Recording measurements

A measurement is tagged with a step and its phase, checked against the safety limits of
the protocol, and appended to the ledger.
-/

namespace Qualification.TestRun

/-- A measurement must name a parameter and, if it is a reading, be finite. -/
def requireRecordable (m : NewMeasurement) : Except EngineError Unit :=
  if Text.isBlank m.parameter then
    .error (.invalidMeasurement m.parameter "parameter name is empty")
  else match m.value with
    | .numeric x =>
        if x.isFinite then .ok ()
        else .error (.invalidMeasurement m.parameter
          (Decimal.plain x ++ " is not a finite number"))
    | _ => .ok ()

/-- The step that a measurement belongs to: the one it names, else the one in progress. -/
def stepFor (run : TestRun) (m : NewMeasurement) :
    Except EngineError (Option StepRecord) :=
  match m.stepId with
  | some stepId => (run.getStep stepId).map some
  | none => .ok run.activeStep?

def entryOf (env : Surroundings) (run : TestRun) (step : Option StepRecord)
    (m : NewMeasurement) : Measurement where
  id := env.freshId run.ledger.entries.length
  runId := run.id
  parameter := m.parameter
  value := m.value
  unit := m.unit
  timestamp := m.timestamp.getD (env.clock 0)
  phaseId := step.map (·.phaseId)
  stepId := step.map (·.stepId)
  type := m.type
  flag := .good
  notes := none
  metadata := m.metadata

/-- The word for a direction in a message. -/
def directionText : LimitDirection → String
  | .max => "Max"
  | .min => "Min"

/-- What is said of a reading that exceeds a limit. -/
def limitMessage (parameter : String) (x : Float) (limit : SafetyLimit) : String :=
  "safety limit '" ++ parameter ++ "' exceeded: " ++ Decimal.plain x ++ " (limit "
    ++ Decimal.plain limit.value ++ ", " ++ directionText limit.direction ++ ")"

/-- The limit that a measurement exceeds, with what is said of it. -/
def exceeded? (p : ProtocolDefinition) (m : Measurement) : Option (SafetyAction × String) :=
  match Dictionary.get? m.parameter p.safetyLimits, m.reading? with
  | some limit, some x =>
      if limit.isExceededBy x then some (limit.action, limitMessage m.parameter x limit)
      else none
  | _, _ => none

/-- The run with a measurement in its ledger. A reading beyond a warning limit is marked;
    one beyond an aborting limit ends the run. -/
def recorded (env : Surroundings) (p : ProtocolDefinition) (m : Measurement)
    (run : TestRun) : Measurement × TestRun :=
  match exceeded? p m with
  | none => (m, { run with ledger := run.ledger.append m })
  | some (.warn, message) =>
      let marked := { m with flag := .suspect, notes := some message }
      (marked, { run with ledger := run.ledger.append marked })
  | some (.abort, message) =>
      (m, { run with ledger := run.ledger.append m }.terminate (env.clock 1) .aborted message)

def record (env : Surroundings) (p : ProtocolDefinition) (m : NewMeasurement)
    (run : TestRun) : Except EngineError (Measurement × TestRun) := do
  run.requireProtocol p
  run.requireInProgress "record_measurement"
  requireRecordable m
  let step ← run.stepFor m
  return recorded env p (entryOf env run step m) run

/-- Set the flag of a measurement, and its notes if any are given. Runs that have ended
    are reviewed too. -/
def flag (measurementId : String) (flag : QualityFlag) (notes : Option String)
    (run : TestRun) : Except EngineError (Measurement × TestRun) :=
  match run.ledger.get? measurementId with
  | none => .error (.unknownMeasurement run.id measurementId)
  | some m =>
      .ok (Ledger.reflag flag notes m,
        { run with ledger := run.ledger.setFlag measurementId flag notes })

end Qualification.TestRun
