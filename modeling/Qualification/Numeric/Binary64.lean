/-! # Binary64 readings

A reading is a binary64 number. This module opens one into sign, significand and
power of two, finds the one nearest to a quotient, and gives the total order that sorting
uses.
-/

namespace Qualification

/-- The exact value of a finite reading, `(-1)^negative * significand * 2^exponent`. -/
structure Binary64 where
  /-- The sign bit; it is set for negative zero too. -/
  negative : Bool
  significand : Nat
  /-- The power of two that scales the significand. -/
  exponent : Int
  deriving Repr, DecidableEq

namespace Binary64

def isNegative (x : Float) : Bool :=
  x.toBits.toNat / Nat.pow 2 63 == 1

def magnitude (x : Float) : Nat :=
  x.toBits.toNat % Nat.pow 2 63

/-- Open a finite reading; an infinity or a NaN has no exact value. -/
def ofFloat? (x : Float) : Option Binary64 :=
  let fraction : Nat := magnitude x % Nat.pow 2 52
  let biased : Nat := magnitude x / Nat.pow 2 52
  if biased = 2047 then none
  else if biased = 0 then some ⟨isNegative x, fraction, -1074⟩
  else some ⟨isNegative x, fraction + Nat.pow 2 52, (biased : Int) - 1075⟩

def infinity : Float :=
  Float.ofBits 0x7ff0000000000000

def nan : Float :=
  Float.ofBits 0x7ff8000000000000

/-- The nearest natural number to a quotient, a half to the even one. -/
def roundHalfEven (r : Nat × Nat) : Nat :=
  let below := r.1 / r.2
  let twice := 2 * (r.1 % r.2)
  if twice < r.2 || (twice == r.2 && below % 2 == 0) then below else below + 1

/-- The places behind the point of the smallest positive reading, in binary. -/
def leastPlace : Nat :=
  1074

/-- How often the smallest positive reading goes into one. -/
def unitsInOne : Nat :=
  Nat.pow 2 leastPlace

/-- The bits of the reading nearest to a quotient. Readings count up with their bits from
    zero in the smallest units, and in units twice as large each time that 53 digits are used
    up; so the count of units, rounded, is added to the number of doublings. -/
def nearestBits (r : Nat × Nat) : Nat :=
  let units := r.1 * unitsInOne
  let doublings := Nat.log2 (units / r.2) - 52
  doublings * Nat.pow 2 52 + roundHalfEven (units, r.2 * Nat.pow 2 doublings)

/-- The reading nearest to a quotient of natural numbers, ties to the even significand. -/
def nearest (r : Nat × Nat) : Float :=
  Float.ofBits (Nat.min (nearestBits r) 0x7ff0000000000000).toUInt64

/-- The reading nearest to an integer. -/
def ofInt (n : Int) : Float :=
  if n < 0 then -nearest (n.natAbs, 1) else nearest (n.natAbs, 1)

def isWhole (b : Binary64) : Bool :=
  0 ≤ b.exponent || b.significand % Nat.pow 2 (-b.exponent).toNat == 0

/-- The magnitude as a quotient of two natural numbers. -/
def ratio (b : Binary64) : Nat × Nat :=
  (b.significand * Nat.pow 2 b.exponent.toNat, Nat.pow 2 (-b.exponent).toNat)

/-- The largest natural number not above the magnitude. -/
def floorMagnitude (b : Binary64) : Nat :=
  b.ratio.1 / b.ratio.2

/-- The smallest natural number not below the magnitude. -/
def ceilMagnitude (b : Binary64) : Nat :=
  (b.ratio.1 + (b.ratio.2 - 1)) / b.ratio.2

/-- The place of the bits of a reading in the total order: negatives fall with their
    magnitude, and negative zero comes just before zero. A NaN lies beyond the infinity of its
    own sign. -/
def orderKey (bits : UInt64) : Int :=
  let magnitude : Int := (bits.toNat % Nat.pow 2 63 : Nat)
  if bits.toNat / Nat.pow 2 63 == 1 then -1 - magnitude else magnitude

/-- The total order of readings. A `Float` is a number or the one NaN, which has no sign. -/
def totalLe (x y : Float) : Bool :=
  orderKey x.toBits ≤ orderKey y.toBits

theorem totalLe_refl (x : Float) : totalLe x x = true := by
  simp [totalLe]

theorem totalLe_trans {x y z : Float} (hxy : totalLe x y = true) (hyz : totalLe y z = true) :
    totalLe x z = true := by
  simp only [totalLe, decide_eq_true_eq] at *
  omega

theorem totalLe_total (x y : Float) : (totalLe x y || totalLe y x) = true := by
  simp only [totalLe, Bool.or_eq_true, decide_eq_true_eq]
  omega

/-- The larger of two readings; a NaN is ignored when the other is a number. -/
def max (x y : Float) : Float :=
  if x.isNaN then y else if y.isNaN then x else if x < y then y else x

end Binary64

end Qualification
