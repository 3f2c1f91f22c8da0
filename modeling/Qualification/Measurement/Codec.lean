import Qualification.Measurement.Basic

/-! # Measurements in documents -/

namespace Qualification

open Document

/-- A member that is left out when there is nothing to write. -/
def Json.memberOf? {α : Type} (name : String) (f : α → Json) : Option α →
    List (String × Json)
  | some a => [(name, f a)]
  | none => []

namespace Measurement

/-- A measurement in a document; what it does not have is left out. -/
def toJson (m : Measurement) : Json :=
  .object ([
    ("measurement_id", .text m.id),
    ("test_run_id", .text m.runId),
    ("parameter", .text m.parameter),
    ("value", m.value.toJson)]
    ++ Json.memberOf? "unit" .text m.unit
    ++ [("timestamp", m.timestamp.toJson)]
    ++ Json.memberOf? "phase_id" .text m.phaseId
    ++ Json.memberOf? "step_id" .text m.stepId
    ++ [("measurement_type", .text m.type.text),
      ("quality_flag", .text m.flag.text)]
    ++ Json.memberOf? "notes" .text m.notes
    ++ (if m.metadata.isEmpty then [] else [("metadata", .object m.metadata)]))

def record : Record Measurement :=
  Measurement.mk
    <$> .required "measurement_id" Decoder.text
    <*> .required "test_run_id" Decoder.text
    <*> .required "parameter" Decoder.text
    <*> .required "value" MeasuredValue.decode
    <*> .optionalDefault "unit" Decoder.text
    <*> .required "timestamp" Instant.decode
    <*> .optionalDefault "phase_id" Decoder.text
    <*> .optionalDefault "step_id" Decoder.text
    <*> .required "measurement_type" MeasurementType.words.read
    <*> .required "quality_flag" QualityFlag.words.read
    <*> .optionalDefault "notes" Decoder.text
    <*> .withDefault "metadata" (Decoder.dictionary Decoder.json) []

def decode : Decoder Measurement :=
  record.read "Measurement"

end Measurement

namespace NewMeasurement

def toJson (m : NewMeasurement) : Json :=
  .object [
    ("parameter", .text m.parameter),
    ("value", m.value.toJson),
    ("unit", .ofText? m.unit),
    ("measurement_type", .text m.type.text),
    ("timestamp", .ofOption Instant.toJson m.timestamp),
    ("step_id", .ofText? m.stepId),
    ("metadata", .object m.metadata)]

def record : Record NewMeasurement :=
  NewMeasurement.mk
    <$> .required "parameter" Decoder.text
    <*> .required "value" MeasuredValue.decode
    <*> .optionalDefault "unit" Decoder.text
    <*> .withDefault "measurement_type" MeasurementType.words.read .duringTest
    <*> .optionalDefault "timestamp" Instant.decode
    <*> .optionalDefault "step_id" Decoder.text
    <*> .withDefault "metadata" (Decoder.dictionary Decoder.json) []

def decode : Decoder NewMeasurement :=
  record.read "NewMeasurement"

end NewMeasurement

end Qualification
