import Qualification.Protocol.Basic

/-! # Protocols in documents -/

namespace Qualification

open Document

namespace ParameterType

def text : ParameterType → String
  | float => "float"
  | integer => "integer"
  | string => "string"
  | boolean => "boolean"

def words : Words ParameterType := [
  (float, ["float", "number"]),
  (integer, ["int", "integer"]),
  (string, ["string", "text"]),
  (boolean, ["bool", "boolean"])]

end ParameterType

namespace Capability

def text : Capability → String
  | measure => "measure"
  | condition => "condition"
  | inspect => "inspect"
  | wait => "wait"

def words : Words Capability :=
  [measure, condition, inspect, wait].map fun c => (c, [c.text])

end Capability

namespace SafetyAction

def text : SafetyAction → String
  | warn => "warn"
  | abort => "abort"

def words : Words SafetyAction :=
  [(warn, ["alarm", "warn"]), (abort, ["abort", "shutdown", "stop"])]

end SafetyAction

namespace LimitDirection

def text : LimitDirection → String
  | max => "max"
  | min => "min"

def words : Words LimitDirection :=
  [(max, ["max"]), (min, ["min"])]

end LimitDirection

namespace Operator

def words : Words Operator :=
  [gt, ge, lt, le, eq, ne, between].map fun o => (o, [o.text])

end Operator

namespace ParameterDef

def toJson (d : ParameterDef) : Json :=
  .object ([("name", .text d.name), ("type", .text d.type.text)]
    ++ Json.memberOf? "unit" .text d.unit
    ++ Json.memberOf? "min" .ofFloat d.min
    ++ Json.memberOf? "max" .ofFloat d.max
    ++ Json.memberOf? "default" id d.default)

def decode : Decoder ParameterDef :=
  Record.read "ParameterDef" (ParameterDef.mk
    <$> .required "name" Decoder.text
    <*> .required "type" ParameterType.words.read
    <*> .optionalDefault "unit" Decoder.text
    <*> .optionalDefault "min" Decoder.float
    <*> .optionalDefault "max" Decoder.float
    <*> .optionalDefault "default" Decoder.json)

end ParameterDef

namespace StepDef

def toJson (s : StepDef) : Json :=
  .object ([("id", .text s.id), ("sequence", .ofNat s.sequence),
      ("description", .text s.description), ("action", .text s.action)]
    ++ Json.memberOf? "duration_hours" .ofFloat s.durationHours
    ++ Json.memberOf? "capability" (fun c => .text c.text) s.capability)

def decode : Decoder StepDef :=
  Record.read "StepDef" (StepDef.mk
    <$> .required "id" Decoder.text
    <*> .required "sequence" Decoder.count32
    <*> .withDefault "description" Decoder.text ""
    <*> .required "action" Decoder.text
    <*> .optionalDefault "duration_hours" Decoder.float
    <*> .optionalDefault "capability" Capability.words.read)

end StepDef

namespace PhaseDef

def toJson (p : PhaseDef) : Json :=
  .object ([("id", .text p.id)]
    ++ Json.memberOf? "name" .text p.name
    ++ Json.memberOf? "description" .text p.description
    ++ [("steps", .ofList StepDef.toJson p.steps)])

def decode : Decoder PhaseDef :=
  Record.read "PhaseDef" (PhaseDef.mk
    <$> .required "id" Decoder.text
    <*> .optionalDefault "name" Decoder.text
    <*> .optionalDefault "description" Decoder.text
    <*> .required "steps" (Decoder.list StepDef.decode))

end PhaseDef

namespace MeasurementSpec

def toJson (s : MeasurementSpec) : Json :=
  .object ([("id", .text s.id), ("parameter", .text s.parameter)]
    ++ Json.memberOf? "unit" .text s.unit
    ++ Json.memberOf? "instrument" .text s.instrument
    ++ Json.memberOf? "accuracy" .text s.accuracy
    ++ [("expected_count", .ofNat s.expectedCount)]
    ++ Json.memberOf? "measurement_type" (fun t => .text t.text) s.type)

/-- Reads an expectation; one reading is expected unless a number is given. -/
def decode : Decoder MeasurementSpec :=
  Record.read "MeasurementSpec" (MeasurementSpec.mk
    <$> .required "id" Decoder.text
    <*> .required "parameter" Decoder.text
    <*> .optionalDefault "unit" Decoder.text
    <*> .optionalDefault "instrument" Decoder.text
    <*> .optionalDefault "accuracy" Decoder.text
    <*> .withDefault "expected_count" Decoder.count32 1
    <*> .optionalDefault "measurement_type" MeasurementType.words.read)

end MeasurementSpec

namespace ScalarValue

def toJson : ScalarValue → Json
  | bool b => .bool b
  | number x => .ofFloat x
  | text s => .text s

end ScalarValue

namespace ThresholdValue

def toJson : ThresholdValue → Json
  | scalar v => v.toJson
  | range bounds => .ofList .ofFloat bounds

/-- The forms of a value: a truth value, a number, a string, or a list of numbers. -/
def ofNode? (place : Place) : Node → Option ThresholdValue
  | .value (.bool b) => some (.scalar (.bool b))
  | .value (.text s) => some (.scalar (.text s))
  | .sequence _ nodes _ =>
      match Decoder.items Decoder.float place 0 nodes with
      | .ok bounds => some (.range bounds)
      | .error _ => none
  | node =>
      match Decoder.float place node with
      | .ok x => some (.scalar (.number x))
      | .error _ => none

def decode : Decoder ThresholdValue := fun place node => do
  let settled ← Decoder.buffer place node
  match ofNode? { place with buffered := true } settled with
  | some v => return v
  | none => place.failOutside (.noForm "ThresholdValue")

end ThresholdValue

namespace Threshold

def toJson (t : Threshold) : Json :=
  .object [("parameter", .text t.parameter), ("operator", .text t.operator.text),
    ("value", t.value.toJson)]

def decode : Decoder Threshold :=
  Record.read "Threshold" (Threshold.mk
    <$> .required "parameter" Decoder.text
    <*> .required "operator" Operator.words.read
    <*> .required "value" ThresholdValue.decode)

end Threshold

namespace AcceptanceCriterion

def toJson (c : AcceptanceCriterion) : Json :=
  .object [("id", .text c.id), ("description", .text c.description),
    ("severity", c.severity.toJson), ("threshold", c.threshold.toJson)]

def decode : Decoder AcceptanceCriterion :=
  Record.read "AcceptanceCriterion" (AcceptanceCriterion.mk
    <$> .required "id" Decoder.text
    <*> .withDefault "description" Decoder.text ""
    <*> .required "severity" Severity.decode
    <*> .required "threshold" Threshold.decode)

end AcceptanceCriterion

namespace SafetyLimit

def toJson (l : SafetyLimit) : Json :=
  .object [("value", .ofFloat l.value), ("action", .text l.action.text),
    ("direction", .text l.direction.text)]

def decode : Decoder SafetyLimit :=
  Record.read "SafetyLimit" (SafetyLimit.mk
    <$> .required "value" Decoder.float
    <*> .required "action" SafetyAction.words.read
    <*> .withDefault "direction" LimitDirection.words.read .max)

end SafetyLimit

namespace ProtocolDefinition

def toJson (p : ProtocolDefinition) : Json :=
  .object ([("id", .text p.id), ("version", .text p.version), ("name", .text p.name),
      ("category", .text p.category)]
    ++ Json.memberOf? "description" .text p.description
    ++ [("parameters", .ofList ParameterDef.toJson p.parameters),
      ("phases", .ofList PhaseDef.toJson p.phases),
      ("measurement_specs", .ofList MeasurementSpec.toJson p.measurementSpecs),
      ("acceptance_criteria", .ofList AcceptanceCriterion.toJson p.acceptanceCriteria),
      ("safety_limits", .object (p.safetyLimits.mapValues SafetyLimit.toJson))]
    ++ Json.memberOf? "qc" QcSettings.toJson p.qc)

def decode : Decoder ProtocolDefinition :=
  Record.read "ProtocolDefinition" (ProtocolDefinition.mk
    <$> .required "id" Decoder.text
    <*> .required "version" Decoder.text
    <*> .required "name" Decoder.text
    <*> .required "category" Decoder.text
    <*> .optionalDefault "description" Decoder.text
    <*> .withDefault "parameters" (Decoder.list ParameterDef.decode) []
    <*> .required "phases" (Decoder.list PhaseDef.decode)
    <*> .withDefault "measurement_specs" (Decoder.list MeasurementSpec.decode) []
    <*> .withDefault "acceptance_criteria" (Decoder.list AcceptanceCriterion.decode) []
    <*> .withDefault "safety_limits" (Decoder.dictionary SafetyLimit.decode) []
    <*> .optionalDefault "qc" QcSettings.decode)

end ProtocolDefinition

end Qualification
