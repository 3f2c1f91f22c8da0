import Qualification.Decimal.Shortest

/-! # Written readings

Three ways a reading is written: plainly in messages, in documents, and with a fixed
number of places. All write NaN and the infinities as words.
-/

namespace Qualification.Decimal

/-- The digits of a coefficient with the point `places` from their end. -/
def pointed (coefficient places : Nat) : List Char :=
  let ds := digits coefficient
  let padded := List.replicate (places + 1 - ds.length) '0' ++ ds
  let whole := padded.take (padded.length - places)
  let fraction := padded.drop (padded.length - places)
  if fraction.isEmpty then whole else whole ++ '.' :: fraction

def positional (d : Decimal) : List Char :=
  if 0 ≤ d.exponent then digits (d.coefficient * Nat.pow 10 d.exponent.toNat)
  else pointed d.coefficient d.exponent.natAbs

/-- A decimal with one digit before the point and the exponent behind an `e`. -/
def scientific (d : Decimal) : List Char :=
  let mantissa := match digits d.coefficient with
    | first :: second :: rest => first :: '.' :: second :: rest
    | short => short
  let sign := if d.order < 0 then '-' else '+'
  mantissa ++ 'e' :: sign :: digits d.order.natAbs

/-- Write a reading by a layout of its magnitude; a finite one keeps its sign even when
    it is zero. -/
def write (layout : Float → List Char) (x : Float) : String :=
  let sign := if Binary64.isNegative x then ['-'] else []
  if x.isNaN then "NaN"
  else if x.isFinite then String.ofList (sign ++ layout x)
  else String.ofList (sign ++ ['i', 'n', 'f'])

/-- A reading in a message: shortest digits, in full, no point for a whole number. A tie
    goes upward here and to the even digit in documents. -/
def plain (x : Float) : String :=
  write (fun y => positional (shortest .upward y)) x

/-- Are the digits of a document written in full? -/
def isPositional (d : Decimal) : Bool :=
  d.coefficient == 0 || (-5 ≤ d.order && d.order < 16)

/-- The magnitude of a reading in a document: shortest digits, always with a point or an
    exponent, in full from `0.00001` up to below `10^16`. -/
def documentMagnitude (x : Float) : List Char :=
  let d := shortest .toEven x
  if !isPositional d then scientific d
  else if 0 ≤ d.exponent then positional d ++ ['.', '0']
  else positional d

def document (x : Float) : String :=
  write documentMagnitude x

/-- The magnitude of a reading with a fixed number of places. -/
def fixedMagnitude (places : Nat) (x : Float) : List Char :=
  match Binary64.ofFloat? x with
  | some b => pointed (Binary64.roundHalfEven (inUnits b.ratio (-(places : Int)))) places
  | none => []

/-- A reading with a fixed number of places, its exact value rounded half to even. -/
def fixed (places : Nat) (x : Float) : String :=
  write (fixedMagnitude places) x

end Qualification.Decimal
