import Qualification.Numeric.Binary64

/-! # Numbers that statistics are computed over

The program computes with binary64 readings. Its statistics are written over a class, so
that the same definitions can be read over exact rationals.
-/

namespace Qualification

/-- The arithmetic and the comparisons that a statistic needs. -/
class Scalar (α : Type) extends Add α, Sub α, Mul α, Div α, OfScientific α where
  ofCount : Nat → α
  sumStart : α
  abs : α → α
  lt : α → α → Bool
  le : α → α → Bool
  eq : α → α → Bool
  sortLe : α → α → Bool
  /-- The largest natural number not above a non-negative number. -/
  floor : α → Nat
  /-- The smallest natural number not below a non-negative number. -/
  ceil : α → Nat

/-- Numbers with square roots. -/
class Rooted (α : Type) extends Scalar α where
  sqrt : α → α

/-- Binary64 arithmetic: every operation rounds to nearest, sums start at negative zero,
    and sorting places negative zero before zero and the NaN last. -/
instance : Rooted Float where
  ofCount n := Float.ofNat n
  sumStart := -0.0
  abs := Float.abs
  lt x y := x < y
  le x y := x ≤ y
  eq x y := x == y
  sortLe := Binary64.totalLe
  floor x := ((Binary64.ofFloat? x).map Binary64.floorMagnitude).getD 0
  ceil x := ((Binary64.ofFloat? x).map Binary64.ceilMagnitude).getD 0
  sqrt := Float.sqrt

namespace Scalar

variable {α : Type} [Scalar α]

def sum (xs : List α) : α :=
  xs.foldl (· + ·) sumStart

def square (x : α) : α :=
  x * x

end Scalar

end Qualification
