import Qualification.Protocol.Lint
import Qualification.Run.Basic

/-! # Action handlers

A step names an action. A handler performs it: the one of that name, or the first one that
has the capability which the step declares.
-/

namespace Qualification

/-- What a caller hands in for the execution of a step. -/
structure StepInputs where
  readings : List NewMeasurement
  observations : Option String
  verdict : Option Bool
  skip : Bool
  elapsedHours : Option Float
  deriving Repr, BEq

namespace StepInputs

def none : StepInputs :=
  ⟨[], .none, .none, false, .none⟩

def toJson (i : StepInputs) : Json :=
  .object [("readings", .ofList NewMeasurement.toJson i.readings),
    ("observations", .ofText? i.observations), ("verdict", .ofOption .bool i.verdict),
    ("skip", .bool i.skip), ("elapsed_hours", .ofFloat? i.elapsedHours)]

open Document in
def decode : Decoder StepInputs :=
  Record.read "StepInputs" (StepInputs.mk
    <$> .withDefault "readings" (Decoder.list NewMeasurement.decode) []
    <*> .optionalDefault "observations" Decoder.text
    <*> .optionalDefault "verdict" Decoder.bool
    <*> .withDefault "skip" Decoder.bool false
    <*> .optionalDefault "elapsed_hours" Decoder.float)

end StepInputs

/-- What a handler makes of a step. -/
structure HandlerOutcome where
  outcome : StepOutcome
  observations : Option String
  readings : List NewMeasurement
  deriving Repr, BEq

/-- What performs a step: given its definition and what is handed in, what it makes of the
    step, or why it cannot. -/
abbrev Performer := StepDef → StepInputs → Except String HandlerOutcome

/-- The handlers. -/
inductive Handler where
  | measure
  | expose
  | inspect
  | wait
  deriving Repr, DecidableEq

namespace Handler

def name : Handler → String
  | measure => "measure"
  | expose => "expose"
  | inspect => "inspect"
  | wait => "wait"

def ofName? (s : String) : Option Handler :=
  [measure, expose, inspect, wait].find? fun h => h.name == s

def capability : Handler → Capability
  | measure => .measure
  | expose => .condition
  | inspect => .inspect
  | wait => .wait

def checkReadings : List NewMeasurement → Except String Unit
  | [] => .ok ()
  | m :: rest =>
      match m.value with
      | .numeric x =>
          if x.isFinite then checkReadings rest
          else .error ("reading for '" ++ m.parameter ++ "' is not a finite number: "
            ++ Decimal.plain x)
      | _ => checkReadings rest

/-- A reading taken while a specimen is exposed. -/
def exposed (m : NewMeasurement) : NewMeasurement :=
  if m.type = .duringTest then { m with type := .duringExposure } else m

def runMeasure (inputs : StepInputs) : Except String HandlerOutcome :=
  if inputs.readings.isEmpty then .ok ⟨.failed, some "no readings supplied", []⟩
  else (checkReadings inputs.readings).map fun () =>
    ⟨.completed, inputs.observations, inputs.readings⟩

/-- Expose; a declared duration must be reported and reached. -/
def runExpose (step : StepDef) (inputs : StepInputs) : Except String HandlerOutcome := do
  checkReadings inputs.readings
  let readings := inputs.readings.map exposed
  match step.durationHours with
  | none => return ⟨.completed, inputs.observations, readings⟩
  | some required =>
      match inputs.elapsedHours with
      | none =>
          .error ("step '" ++ step.id ++ "' requires " ++ Decimal.plain required
            ++ " h of exposure but no elapsed_hours was reported")
      | some elapsed =>
          if elapsed < required then
            return ⟨.failed, some ("exposure ended after " ++ Decimal.plain elapsed ++ " h, "
              ++ Decimal.plain required ++ " h required"), readings⟩
          else return ⟨.completed, inputs.observations, readings⟩

def runInspect (step : StepDef) (inputs : StepInputs) : Except String HandlerOutcome :=
  match inputs.verdict with
  | none => .error ("inspection step '" ++ step.id ++ "' needs a verdict")
  | some good => (checkReadings inputs.readings).map fun () =>
      ⟨if good then .passed else .failed, inputs.observations, inputs.readings⟩

def run (h : Handler) : Performer := fun step inputs =>
  match h with
  | measure => runMeasure inputs
  | expose => runExpose step inputs
  | inspect => runInspect step inputs
  | wait => .ok ⟨.completed, inputs.observations, []⟩

end Handler

/-- Handlers in the order of their last registration. -/
structure HandlerSet where
  handlers : List Handler
  deriving Repr, DecidableEq

namespace HandlerSet

def empty : HandlerSet :=
  ⟨[]⟩

/-- Register a handler, in place of any of its name. -/
def register (set : HandlerSet) (h : Handler) : HandlerSet :=
  ⟨(set.handlers.filter fun other => other.name != h.name) ++ [h]⟩

def ofList (handlers : List Handler) : HandlerSet :=
  handlers.foldl register empty

def all : HandlerSet :=
  ofList [.measure, .expose, .inspect, .wait]

def names (set : HandlerSet) : List String :=
  set.handlers.map (·.name)

def resolve? (set : HandlerSet) (step : StepDef) : Option Handler :=
  (set.handlers.find? fun h => h.name = step.action).or
    (step.capability.bind fun c => set.handlers.find? fun h => h.capability = c)

def unresolved (set : HandlerSet) (step : StepDef) : Diagnostic where
  code := "W_PROTO_UNRESOLVED_ACTION"
  severity := "warn"
  source := "protocol"
  message := "step '" ++ step.id ++ "' uses action '" ++ step.action
    ++ "' which has no handler"
  context := .object []
  fixSteps := ["use one of: " ++ ", ".intercalate set.names,
    "or declare a capability on the step"]

/-- The steps of a protocol that no handler can perform. -/
def lint (set : HandlerSet) (p : ProtocolDefinition) : List Diagnostic :=
  (p.steps.filter fun s => (set.resolve? s).isNone).map set.unresolved

end HandlerSet

end Qualification
