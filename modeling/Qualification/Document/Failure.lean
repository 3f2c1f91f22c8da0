import Qualification.Numeric.Word
import Qualification.Document.Node
import Qualification.Decimal.Layout
import Qualification.Text.Quoted

/-! # Failures of a reader

A document can be well formed and still not be what a reader wants. A failure names the
place and the cause; its wording depends a little on the format of the document.
-/

namespace Qualification.Document

/-- The format of a document. -/
inductive Dialect where
  | json
  | yaml
  deriving Repr, DecidableEq

/-- What a reader found. -/
inductive Found where
  | atom (a : Atom)
  | sequence
  | mapping
  deriving Repr

/-- Why a document is not what a reader wants. -/
inductive Cause where
  | missingField (name : String)
  | duplicateField (name : String)
  /-- A field that a strict record does not have. -/
  | unknownField (name : String) (known : List String)
  | unknownVariant (name : String) (known : List String)
  | invalidType (found : Found) (expected : String)
  /-- A value outside the range of its type. -/
  | invalidValue (found : Found) (expected : String)
  /-- A sequence too short for a record. -/
  | invalidLength (length : Nat) (expected : String)
  /-- A value that fits no form of a type. -/
  | noForm (type : String)
  /-- A refusal in words of its own: a text that is not an instant, a number that no value
      can hold, a form where none is known. -/
  | refused (reason : String)
  deriving Repr

/-- Why reading a document failed. -/
inductive Failure where
  | fault (f : Fault)
  /-- The text is well formed so far; the path is that of the value at fault. -/
  | data (path : String) (cause : Cause)
  deriving Repr

/-- A reading in a failure of a YAML document. -/
def pointedFloat (x : Float) : String :=
  let s := Decimal.plain x
  if x.isFinite && !s.toList.contains '.' then s ++ ".0" else s

/-- The text of an integer, with its width when it needs more than 64 bits. -/
def integerText (n : Int) : String :=
  let body := "integer `" ++ n.repr ++ "`"
  if Word.holds 64 n then body
  else if 0 ≤ n then body ++ " as u128"
  else body ++ " as i128"

def Atom.describe (dialect : Dialect) : Atom → String
  | .null => match dialect with
      | .json => "null"
      | .yaml => "unit value"
  | .bool b => "boolean `" ++ (if b then "true" else "false") ++ "`"
  | .integer n => integerText n
  | .float x => match dialect with
      | .json => "floating point `" ++ Decimal.document x ++ "`"
      | .yaml => "floating point `" ++ pointedFloat x ++ "`"
  | .text s => "string " ++ Text.quoted s

def Found.describe (dialect : Dialect) : Found → String
  | .atom a => a.describe dialect
  | .sequence => "sequence"
  | .mapping => "map"

/-- A list of known names as a choice. -/
def oneOf (names : List String) : String :=
  match names.map fun n => "`" ++ n ++ "`" with
  | [] => "nothing"
  | [a] => a
  | [a, b] => a ++ " or " ++ b
  | many => "one of " ++ ", ".intercalate many

def Cause.message (dialect : Dialect) : Cause → String
  | .missingField name => "missing field `" ++ name ++ "`"
  | .duplicateField name => "duplicate field `" ++ name ++ "`"
  | .unknownField name known => "unknown field `" ++ name ++ "`, expected " ++ oneOf known
  | .unknownVariant name known => "unknown variant `" ++ name ++ "`, expected " ++ oneOf known
  | .invalidType found expected =>
      "invalid type: " ++ found.describe dialect ++ ", expected " ++ expected
  | .invalidValue found expected =>
      "invalid value: " ++ found.describe dialect ++ ", expected " ++ expected
  | .invalidLength length expected =>
      "invalid length " ++ length.repr ++ ", expected " ++ expected
  | .noForm type => "data did not match any variant of untagged enum " ++ type
  | .refused reason => reason

/-- The text of a failure. In a YAML document it names the path, unless that is the
    root. -/
def Failure.message (dialect : Dialect) : Failure → String
  | .fault f => f.message
  | .data path cause =>
      if dialect == .json || path.isEmpty then cause.message dialect
      else path ++ ": " ++ cause.message dialect

end Qualification.Document
