import Qualification.Protocol.Basic

/-! # Refused operations -/

namespace Qualification

/-- What a transition is about. -/
inductive Entity where
  | run
  | phase
  | step
  deriving Repr, DecidableEq

/-- The word for what a transition is about. -/
def Entity.text : Entity → String
  | run => "run"
  | phase => "phase"
  | step => "step"

/-- Why an operation on a run is refused. -/
inductive EngineError where
  /-- The status does not allow the transition. -/
  | invalidTransition (entity : Entity) (id status action reason : String)
  | unknownRun (runId : String)
  | duplicateRun (runId : String)
  | unknownPhase (runId phaseId : String)
  | unknownStep (runId stepId : String)
  | unknownMeasurement (runId measurementId : String)
  /-- The run is bound to another protocol. -/
  | protocolMismatch (runId : String) (expected actual : ProtocolKey)
  /-- A parameter is not declared or has a wrong value. -/
  | invalidParameter (name reason : String)
  | invalidMeasurement (parameter reason : String)
  | unknownAction (stepId action : String)
  deriving Repr, DecidableEq

namespace EngineError

/-- The name of the kind of an error. -/
def kind : EngineError → String
  | invalidTransition .. => "InvalidTransition"
  | unknownRun .. => "UnknownRun"
  | duplicateRun .. => "DuplicateRun"
  | unknownPhase .. => "UnknownPhase"
  | unknownStep .. => "UnknownStep"
  | unknownMeasurement .. => "UnknownMeasurement"
  | protocolMismatch .. => "ProtocolMismatch"
  | invalidParameter .. => "InvalidParameter"
  | invalidMeasurement .. => "InvalidMeasurement"
  | unknownAction .. => "UnknownAction"

def message : EngineError → String
  | invalidTransition entity id status action reason =>
      "invalid " ++ entity.text ++ " transition '" ++ action ++ "' for '" ++ id ++ "' from "
        ++ status ++ ": " ++ reason
  | unknownRun runId => "unknown run: " ++ runId
  | duplicateRun runId => "run already registered: " ++ runId
  | unknownPhase runId phaseId => "unknown phase '" ++ phaseId ++ "' in run " ++ runId
  | unknownStep runId stepId => "unknown step '" ++ stepId ++ "' in run " ++ runId
  | unknownMeasurement runId measurementId =>
      "unknown measurement '" ++ measurementId ++ "' in run " ++ runId
  | protocolMismatch runId expected actual =>
      "run " ++ runId ++ " is bound to protocol " ++ expected.display ++ ", got "
        ++ actual.display
  | invalidParameter name reason => "invalid parameter '" ++ name ++ "': " ++ reason
  | invalidMeasurement parameter reason =>
      "invalid measurement for '" ++ parameter ++ "': " ++ reason
  | unknownAction stepId action =>
      "no action handler for action '" ++ action ++ "' (step '" ++ stepId ++ "')"

end EngineError

end Qualification
