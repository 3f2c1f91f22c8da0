import Qualification.Run.Handler
import Qualification.Files.View
import Qualification.Json.Reader

/-! # Sessions

A session is the script of a run: values for its parameters, and the steps to execute in
order with what was handed in for each. Its readings are plain values.
-/

namespace Qualification

open Document

/-- A step of a session. -/
structure SessionStep where
  stepId : String
  inputs : StepInputs
  deriving Repr, BEq

/-- The script of a run. -/
structure Session where
  parameters : Dictionary Json
  steps : List SessionStep
  deriving Repr, BEq

/-- Why a session cannot be used. -/
inductive SessionError where
  | unreadable (path : String) (reason : FileError)
  | invalid (path message : String)
  /-- An override of a parameter has no value. -/
  | notAnOverride (text : String)
  deriving Repr, DecidableEq

def SessionError.message : SessionError → String
  | unreadable path reason => "failed to read session " ++ path ++ ": " ++ reason.message
  | invalid path message => "invalid session " ++ path ++ ": " ++ message
  | notAnOverride text => "parameter '" ++ text ++ "' is not NAME=VALUE"

namespace Session

def decodeReading : Decoder NewMeasurement :=
  Record.readStrict "SessionReading" ((fun parameter value unit type timestamp metadata =>
      ⟨parameter, MeasuredValue.ofJson value, unit, type, timestamp, none, metadata⟩)
    <$> .required "parameter" Decoder.text
    <*> .required "value" Decoder.json
    <*> .optionalDefault "unit" Decoder.text
    <*> .withDefault "measurement_type" MeasurementType.words.read .duringTest
    <*> .optionalDefault "timestamp" Instant.decode
    <*> .withDefault "metadata" (Decoder.dictionary Decoder.json) [])

def decodeStep : Decoder SessionStep :=
  Record.readStrict "SessionStep" ((fun stepId readings observations verdict skip hours =>
      ⟨stepId, ⟨readings, observations, verdict, skip, hours⟩⟩)
    <$> .required "step_id" Decoder.text
    <*> .withDefault "readings" (Decoder.list decodeReading) []
    <*> .optionalDefault "observations" Decoder.text
    <*> .optionalDefault "verdict" Decoder.bool
    <*> .withDefault "skip" Decoder.bool false
    <*> .optionalDefault "elapsed_hours" Decoder.float)

def decode : Decoder Session :=
  Record.readStrict "Session" (Session.mk
    <$> .withDefault "parameters" (Decoder.dictionary Decoder.json) []
    <*> .required "steps" (Decoder.list decodeStep))

def load (files : FileView) (path : String) : Except SessionError Session :=
  match files.read path with
  | .error reason => .error (.unreadable path reason)
  | .ok text =>
      (Json.decode decode text).mapError fun failure => .invalid path (failure.message .json)

/-- The value of an override: a JSON value, or else the text itself. -/
def overrideValue (text : String) : Json :=
  match Json.decode Decoder.json text with
  | .ok value => value
  | .error _ => .text text

/-- An override of a parameter: a name, an equals sign and a value. -/
def parseOverride (text : String) : Except SessionError (String × Json) :=
  let name := text.toList.takeWhile (· != '=')
  match text.toList.drop name.length with
  | '=' :: value => .ok (Text.trim (String.ofList name), overrideValue (String.ofList value))
  | _ => .error (.notAnOverride text)

/-- The parameters of a session with overrides put in place, the later ones last. -/
def overridden (s : Session) (overrides : List String) :
    Except SessionError (Dictionary Json) := do
  let pairs ← overrides.mapM parseOverride
  return pairs.foldl (fun d p => Dictionary.insert p.1 p.2 d) s.parameters

end Session

end Qualification
