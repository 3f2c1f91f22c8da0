import Qualification.Numeric.Binary64

/-! # Decimal numbers

A decimal is an integer coefficient scaled by a power of ten. It is what stands between
the text of a number and the binary64 reading nearest to it. The texts that stand for a
reading are decimals with an optional sign, point and exponent, and the words for an
infinity or NaN in any case.
-/

namespace Qualification

/-- The number `coefficient * 10^exponent`. -/
structure Decimal where
  /-- The digits read as one natural number. -/
  coefficient : Nat
  /-- The power of ten of the last digit. -/
  exponent : Int
  deriving Repr, DecidableEq

namespace Decimal

/-- The decimal digits of a natural number, most significant first. -/
def digits (n : Nat) : List Char :=
  Nat.toDigits 10 n

/-- Is the character one of `0` to `9`? -/
def isDigit (c : Char) : Bool :=
  '0' ≤ c && c ≤ '9'

def digitValue (c : Char) : Nat :=
  c.toNat - '0'.toNat

/-- The natural number that a row of digits writes. -/
def ofDigits (cs : List Char) : Nat :=
  cs.foldl (fun n c => 10 * n + digitValue c) 0

/-- The decimal written `whole.fraction` and scaled by a power of ten. -/
def ofParts (whole fraction : List Char) (exponent : Int) : Decimal :=
  ⟨ofDigits (whole ++ fraction), exponent - fraction.length⟩

/-- The power of ten of the first digit. -/
def order (d : Decimal) : Int :=
  (digits d.coefficient).length - 1 + d.exponent

/-- The decimal as a quotient of natural numbers. -/
def ratio (d : Decimal) : Nat × Nat :=
  (d.coefficient * Nat.pow 10 d.exponent.toNat, Nat.pow 10 (-d.exponent).toNat)

/-- The reading nearest to a decimal, ties to the even significand. Decimals far outside
    the range of readings are settled by their order alone. -/
def toFloat (d : Decimal) : Float :=
  if d.coefficient = 0 || d.order < -330 then 0.0
  else if 310 < d.order then Binary64.infinity
  else Binary64.nearest d.ratio

/-- Split off a leading sign; true for a minus. -/
def splitSign : List Char → Bool × List Char
  | '-' :: rest => (true, rest)
  | '+' :: rest => (false, rest)
  | cs => (false, cs)

/-- The exponent after an `e`: an optional sign and at least one digit, to the end. -/
def readExponent? (cs : List Char) : Option Int :=
  let (negative, ds) := splitSign cs
  if ds.isEmpty || !ds.all isDigit then none
  else if negative then some (-(ofDigits ds : Int)) else some (ofDigits ds)

/-- An unsigned decimal: digits with an optional point, at least one digit in all, and an
    optional exponent. -/
def readUnsigned? (cs : List Char) : Option Decimal := do
  let whole := cs.takeWhile isDigit
  let afterWhole := cs.dropWhile isDigit
  let (fraction, rest) := match afterWhole with
    | '.' :: tail => (tail.takeWhile isDigit, tail.dropWhile isDigit)
    | other => ([], other)
  if whole.isEmpty && fraction.isEmpty then none
  match rest with
  | [] => some (ofParts whole fraction 0)
  | c :: tail =>
      if c = 'e' || c = 'E' then
        (readExponent? tail).map fun e => ofParts whole fraction e
      else none

def signed (negative : Bool) (x : Float) : Float :=
  if negative then -x else x

def read? (text : String) : Option Float :=
  let (negative, cs) := splitSign text.toList
  let word := String.ofList (cs.map Char.toLower)
  if word == "inf" || word == "infinity" then some (signed negative Binary64.infinity)
  else if word == "nan" then some Binary64.nan
  else (readUnsigned? cs).map fun d => signed negative d.toFloat

end Decimal

end Qualification
