import Qualification.QualityControl.Settings
import Qualification.Severity

/-! # Protocols

A protocol is pure data: phases with steps that name actions, the measurements that are
expected, and criteria in a closed grammar of comparisons.
-/

namespace Qualification

/-- The type of a run parameter. -/
inductive ParameterType where
  | float
  | integer
  | string
  | boolean
  deriving Repr, DecidableEq

/-- The declaration of a run parameter. -/
structure ParameterDef where
  name : String
  type : ParameterType
  unit : Option String
  min : Option Float
  max : Option Float
  /-- The value when a run gives none. -/
  default : Option Json
  deriving Repr, BEq

/-- What an action handler is able to do. -/
inductive Capability where
  | measure
  | condition
  | inspect
  | wait
  deriving Repr, DecidableEq

/-- A step of a phase. -/
structure StepDef where
  id : String
  /-- The position within the phase, from 1. -/
  sequence : Nat
  description : String
  action : String
  durationHours : Option Float
  /-- What a handler must be able to do when none has the name of the action. -/
  capability : Option Capability
  deriving Repr, BEq

/-- A phase of a protocol. -/
structure PhaseDef where
  id : String
  name : Option String
  description : Option String
  steps : List StepDef
  deriving Repr, BEq

/-- The measurements that a protocol expects of a parameter. -/
structure MeasurementSpec where
  id : String
  parameter : String
  unit : Option String
  instrument : Option String
  accuracy : Option String
  /-- How many readings are expected; two or more repeat each other. -/
  expectedCount : Nat
  /-- When in the test they are taken, if that matters. -/
  type : Option MeasurementType
  deriving Repr, BEq

/-- How a value is compared with a threshold. -/
inductive Operator where
  | gt
  | ge
  | lt
  | le
  | eq
  | ne
  | between
  deriving Repr, DecidableEq

/-- A single value to compare with. -/
inductive ScalarValue where
  | bool (b : Bool)
  | number (x : Float)
  | text (s : String)
  deriving Repr, BEq

/-- What a value is compared with. -/
inductive ThresholdValue where
  | scalar (v : ScalarValue)
  | range (bounds : List Float)
  deriving Repr, BEq

/-- A comparison of a parameter with a value. -/
structure Threshold where
  parameter : String
  operator : Operator
  value : ThresholdValue
  deriving Repr, BEq

/-- A criterion that a run is judged by. -/
structure AcceptanceCriterion where
  id : String
  description : String
  severity : Severity
  threshold : Threshold
  deriving Repr, BEq

/-- What happens when a safety limit is exceeded. -/
inductive SafetyAction where
  | warn
  | abort
  deriving Repr, DecidableEq

/-- On which side of a limit it is exceeded. -/
inductive LimitDirection where
  | max
  | min
  deriving Repr, DecidableEq

/-- A limit that readings must not exceed while a test runs. -/
structure SafetyLimit where
  value : Float
  action : SafetyAction
  /-- The side on which it is exceeded. -/
  direction : LimitDirection
  deriving Repr, BEq

/-- A protocol. -/
structure ProtocolDefinition where
  id : String
  version : String
  name : String
  category : String
  description : Option String
  /-- The parameters that a run may set. -/
  parameters : List ParameterDef
  phases : List PhaseDef
  measurementSpecs : List MeasurementSpec
  /-- The criteria that a run is judged by. -/
  acceptanceCriteria : List AcceptanceCriterion
  safetyLimits : Dictionary SafetyLimit
  /-- The quality control settings, if the protocol has its own. -/
  qc : Option QcSettings
  deriving Repr, BEq

/-- The identity of a protocol and its version. -/
structure ProtocolKey where
  id : String
  version : String
  deriving Repr, DecidableEq

namespace ProtocolKey

def display (k : ProtocolKey) : String :=
  k.id ++ "@" ++ k.version

/-- Does one key come before another: by identity, then by version? -/
def lt (k l : ProtocolKey) : Bool :=
  k.id < l.id || (k.id == l.id && k.version < l.version)

end ProtocolKey

namespace ProtocolDefinition

/-- The identity under which the protocol is kept. -/
def key (p : ProtocolDefinition) : ProtocolKey :=
  ⟨p.id, p.version⟩

def phase? (p : ProtocolDefinition) (phaseId : String) : Option PhaseDef :=
  p.phases.find? fun ph => ph.id = phaseId

/-- The step with an identity, and the phase that has it. -/
def step? (p : ProtocolDefinition) (stepId : String) : Option (PhaseDef × StepDef) :=
  p.phases.findSome? fun ph => (ph.steps.find? fun s => s.id = stepId).map fun s => (ph, s)

def parameter? (p : ProtocolDefinition) (name : String) : Option ParameterDef :=
  p.parameters.find? fun d => d.name = name

/-- All steps, phase by phase, in the order of writing. -/
def steps (p : ProtocolDefinition) : List StepDef :=
  p.phases.flatMap (·.steps)

def stepCount (p : ProtocolDefinition) : Nat :=
  p.steps.length

end ProtocolDefinition

namespace ParameterDef

def checkBounds (d : ParameterDef) (x : Float) : Except String Unit :=
  if d.min.any fun low => x < low then
    .error (Decimal.plain x ++ " is below minimum " ++ Decimal.plain (d.min.getD x))
  else if d.max.any fun high => high < x then
    .error (Decimal.plain x ++ " is above maximum " ++ Decimal.plain (d.max.getD x))
  else .ok ()

def isWhole (x : Float) : Bool :=
  ((Binary64.ofFloat? x).map Binary64.isWhole).getD false

/-- Does a value have the declared type and lie within the declared bounds? -/
def check (d : ParameterDef) (value : Json) : Except String Unit :=
  let refuse (expected : String) : Except String Unit :=
    .error ("expected " ++ expected ++ ", got " ++ value.compact)
  match d.type with
  | .float =>
      match value.toFloat? with
      | none => refuse "a number"
      | some x => d.checkBounds x
  | .integer =>
      match value.toFloat? with
      | none => refuse "a number"
      | some x =>
          if isWhole x then d.checkBounds x
          else .error ("expected an integer, got " ++ Decimal.plain x)
  | .string => if value.toText?.isSome then .ok () else refuse "a string"
  | .boolean => if value.toBool?.isSome then .ok () else refuse "a boolean"

end ParameterDef

namespace Operator

def text : Operator → String
  | gt => ">"
  | ge => ">="
  | lt => "<"
  | le => "<="
  | eq => "=="
  | ne => "!="
  | between => "between"

def isOrdering : Operator → Bool
  | gt | ge | lt | le => true
  | eq | ne | between => false

end Operator

namespace ScalarValue

def display : ScalarValue → String
  | bool b => if b then "true" else "false"
  | number x => Decimal.plain x
  | text s => "\"" ++ s ++ "\""

end ScalarValue

namespace ThresholdValue

def display : ThresholdValue → String
  | scalar v => v.display
  | range bounds => "[" ++ ", ".intercalate (bounds.map Decimal.plain) ++ "]"

end ThresholdValue

namespace SafetyLimit

def isExceededBy (l : SafetyLimit) (x : Float) : Bool :=
  match l.direction with
  | .max => l.value < x
  | .min => x < l.value

end SafetyLimit

end Qualification
