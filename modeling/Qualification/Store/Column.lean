import Qualification.Json.Printer
import Qualification.Json.Reader
import Qualification.Instant.Codec
import Qualification.Measurement.Value

/-! # Columns

How values are kept in the columns of a table. Instants are texts of one width, so that
for years of four digits the order of the texts is the order of the instants.
-/

namespace Qualification

open Document

namespace Instant

/-- The text of an instant in a column: always nine digits of a second. -/
def column (t : Instant) : String :=
  dayText t ++ "T" ++ clockText t ++ "." ++ padded 9 (t.nanos % second) ++ "Z"

def ofColumn? (s : String) : Option Instant :=
  (readStrict s).toOption

/-- The instant that a column holds, if it holds anything. -/
def ofColumnOrNull? : Option String → Option (Option Instant)
  | none => some none
  | some s => (ofColumn? s).map some

end Instant

namespace Json

/-- What a column holds, read by a decoder. -/
def ofColumn? {α : Type} (decoder : Decoder α) (s : String) : Option α :=
  (decode decoder s).toOption

end Json

/-- The columns of a measured value: its kind, and a column for each kind. -/
structure ValueColumns where
  kind : String
  numeric : Option Float
  text : Option String
  boolean : Option Bool
  json : Option String
  deriving Repr

namespace ValueColumns

/-- A reading as a column keeps it: one that is no number is nothing, and zero has no
    sign. -/
def storedReading (x : Float) : Option Float :=
  if x.isNaN then none else if x == 0.0 then some 0.0 else some x

def ofValue (v : MeasuredValue) : ValueColumns :=
  let kind := v.kind.name
  match v with
  | .numeric x => ⟨kind, storedReading x, none, none, none⟩
  | .text s => ⟨kind, none, some s, none, none⟩
  | .boolean b => ⟨kind, none, none, some b, none⟩
  | .json v => ⟨kind, none, none, none, some v.compact⟩

/-- Is exactly the column of the kind filled? -/
def isValid (c : ValueColumns) : Bool :=
  (MeasuredValue.Kind.words.find? c.kind).isSome &&
    c.numeric.isSome == (c.kind == "numeric") && c.text.isSome == (c.kind == "text") &&
    c.boolean.isSome == (c.kind == "boolean") && c.json.isSome == (c.kind == "json")

def toValue? (c : ValueColumns) : Option MeasuredValue := do
  match ← MeasuredValue.Kind.words.find? c.kind with
  | .numeric => c.numeric.map .numeric
  | .text => c.text.map .text
  | .boolean => c.boolean.map .boolean
  | .json => (c.json.bind (Json.ofColumn? Decoder.json)).map .json

end ValueColumns

end Qualification
