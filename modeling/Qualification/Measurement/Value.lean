import Qualification.Document.Tagged
import Qualification.Document.Word
import Qualification.Json.Printer
import Qualification.Decimal.Basic
import Qualification.Text.Character

/-! # Measured values

A recorded value is of exactly one kind. Comparisons by order coerce it to a number:
readings, numeric text and JSON numbers have one, truth values and structures do not.
-/

namespace Qualification

open Document

/-- A recorded value. -/
inductive MeasuredValue where
  | numeric (x : Float)
  | text (s : String)
  | boolean (b : Bool)
  | json (v : Json)
  deriving Repr, BEq

namespace MeasuredValue

/-- The kinds of value. -/
inductive Kind where
  | numeric
  | text
  | boolean
  | json
  deriving Repr, DecidableEq

def Kind.name : Kind → String
  | numeric => "numeric"
  | text => "text"
  | boolean => "boolean"
  | json => "json"

def Kind.words : Words Kind := [
  (numeric, ["numeric"]),
  (text, ["text"]),
  (boolean, ["boolean"]),
  (json, ["json"])]

def kind : MeasuredValue → Kind
  | numeric _ => .numeric
  | text _ => .text
  | boolean _ => .boolean
  | json _ => .json

/-- The number that stands for a value, finite or not. -/
def rawNumber? : MeasuredValue → Option Float
  | numeric x => some x
  | text s => Decimal.read? (Text.trim s)
  | json v => v.toFloat?
  | boolean _ => none

/-- The finite number that a value coerces to. -/
def number? (v : MeasuredValue) : Option Float :=
  v.rawNumber?.filter Float.isFinite

/-- The value of a parameter: scalars keep their kind. -/
def ofJson : Json → MeasuredValue
  | .integer n => .numeric (Binary64.ofInt n)
  | .float x => .numeric x
  | .text s => .text s
  | .bool b => .boolean b
  | other => .json other

def display : MeasuredValue → String
  | numeric x => Decimal.plain x
  | text s => "\"" ++ s ++ "\""
  | boolean b => if b then "true" else "false"
  | json v => v.compact

def content : MeasuredValue → Json
  | numeric x => .ofFloat x
  | text s => .text s
  | boolean b => .bool b
  | json v => v

def toJson (v : MeasuredValue) : Json :=
  .object [("kind", .text v.kind.name), ("value", v.content)]

/-- Reads what a value of a kind holds. -/
def decodeContent : Kind → Decoder MeasuredValue
  | .numeric => fun place node => (Decoder.float place node).map .numeric
  | .text => fun place node => (Decoder.text place node).map .text
  | .boolean => fun place node => (Decoder.bool place node).map .boolean
  | .json => fun place node => (Decoder.json place node).map .json

def shape : Tagged.Adjacent Kind MeasuredValue where
  expected := "adjacently tagged enum MeasurementValue"
  tagKey := "kind"
  contentKey := "value"
  tag := Kind.words.read
  content := decodeContent

def decode : Decoder MeasuredValue :=
  shape.read

end MeasuredValue

end Qualification
