import Qualification.Numeric.Word
import Qualification.Document.Failure
import Qualification.Decimal.Basic

/-! # Scalars whose type depends on the reader

A scalar in a YAML document is characters. A reader that wants a type takes the forms of
that type; a reader that wants any value takes the first type whose forms fit.
-/

namespace Qualification.Document.Written

/-- The digits of a number in a base. -/
def digitIn (base : Nat) (c : Char) : Option Nat :=
  let value :=
    if '0' ≤ c && c ≤ '9' then some (c.toNat - 48)
    else if 'a' ≤ c && c ≤ 'z' then some (c.toNat - 87)
    else if 'A' ≤ c && c ≤ 'Z' then some (c.toNat - 55)
    else none
  value.filter (· < base)

/-- The number that a row of digits writes in a base; an empty row writes none. -/
def natural? (base : Nat) (cs : List Char) : Option Nat :=
  if cs.isEmpty then none
  else cs.foldl (fun n c => do
    let high ← n
    let low ← digitIn base c
    return high * base + low) (some 0)

/-- Does a number of several digits begin with zero? It is text then. -/
def hasLeadingZero (cs : List Char) : Bool :=
  match cs with
  | '0' :: rest => !rest.isEmpty && rest.all Decimal.isDigit
  | _ => false

/-- An unsigned number: decimal, or with a mark for base two, eight or sixteen. -/
def magnitude? (cs : List Char) : Option Nat :=
  match cs with
  | '0' :: 'x' :: rest => natural? 16 rest
  | '0' :: 'o' :: rest => natural? 8 rest
  | '0' :: 'b' :: rest => natural? 2 rest
  | _ => if hasLeadingZero cs then none else natural? 10 cs

/-- The form of a number that is not negative. -/
def naturalForm? (s : String) : Option Nat :=
  match s.toList with
  | '+' :: rest => magnitude? rest
  | cs => magnitude? cs

def integerForm? (s : String) : Option Int :=
  match s.toList with
  | '-' :: rest => (magnitude? rest).map fun n => -(n : Int)
  | _ => (naturalForm? s).map fun n => (n : Int)

def isNullForm (s : String) : Bool :=
  s == "null" || s == "Null" || s == "NULL" || s == "~"

def boolForm? (s : String) : Option Bool :=
  if s == "true" || s == "True" || s == "TRUE" then some true
  else if s == "false" || s == "False" || s == "FALSE" then some false
  else none

/-- The form of a reading: a decimal in range, or a word with a point before it. -/
def floatForm? (s : String) : Option Float :=
  let unsigned := match s.toList with
    | '+' :: rest => rest
    | cs => cs
  let word := String.ofList unsigned
  if s.toList.head? == some '+' && (unsigned.head? == some '+' || unsigned.head? == some '-')
  then none
  else if word == ".inf" || word == ".Inf" || word == ".INF" then some Binary64.infinity
  else if s == "-.inf" || s == "-.Inf" || s == "-.INF" then some (-Binary64.infinity)
  else if s == ".nan" || s == ".NaN" || s == ".NAN" then some Binary64.nan
  else (Decimal.read? word).filter Float.isFinite

/-- May the characters be read as a type with this tag? -/
def mayBe (scalar : Written) (tag : Tag) : Bool :=
  match scalar.style with
  | .plain => true
  | .literal => scalar.tag == tag
  | .quoted => false

/-- A truth value, if the scalar is one. -/
def asBool? (scalar : Written) : Option Bool :=
  if scalar.mayBe .bool then boolForm? scalar.text else none

def asFloat? (scalar : Written) : Option Float :=
  if scalar.mayBe .float then floatForm? scalar.text else none

/-- A number below `2^64` that is not negative, if the scalar is one. -/
def asNatural? (scalar : Written) : Option Nat :=
  if scalar.mayBe .int then (naturalForm? scalar.text).filter (· < Word.count 64) else none

def isEmptyPlain (scalar : Written) : Bool :=
  scalar.style == .plain && scalar.text.isEmpty

/-- Is the scalar no value for a reader that can do without one? -/
def isAbsent (scalar : Written) : Bool :=
  scalar.style == .plain &&
    match scalar.tag with
    | .untagged | .null => scalar.text.isEmpty || isNullForm scalar.text
    | _ => false

/-- The type that a plain scalar without a tag has. -/
def resolvePlain (s : String) : Atom :=
  if s.isEmpty || isNullForm s then .null
  else match boolForm? s with
    | some b => .bool b
    | none =>
        match integerForm? s with
        | some n => if Word.holds 128 n then .integer n else resolveReal s
        | none => resolveReal s
where
  resolveReal (s : String) : Atom :=
    let unsigned := match s.toList with
      | '-' :: rest => rest
      | '+' :: rest => rest
      | cs => cs
    if hasLeadingZero unsigned then .text s
    else match floatForm? s with
      | some x => .float x
      | none => .text s

/-- Settle the type of a scalar for a reader that takes any value. -/
def resolve (scalar : Written) : Except Cause Atom :=
  let refuse (expected : String) : Except Cause Atom :=
    .error (.invalidValue (.atom (.text scalar.text)) expected)
  match scalar.tag with
  | .untagged =>
      .ok (if scalar.style == .plain then resolvePlain scalar.text else .text scalar.text)
  | .text => .ok (.text scalar.text)
  | .bool =>
      match boolForm? scalar.text with
      | some b => .ok (.bool b)
      | none => refuse "a boolean"
  | .int =>
      match integerForm? scalar.text with
      | some n => .ok (.integer n)
      | none => refuse "an integer"
  | .float =>
      match floatForm? scalar.text with
      | some x => .ok (.float x)
      | none => refuse "a float"
  | .null => if isNullForm scalar.text then .ok .null else refuse "null"
  | .named _ =>
      .ok (if scalar.style == .plain then resolvePlain scalar.text else .text scalar.text)

end Qualification.Document.Written
