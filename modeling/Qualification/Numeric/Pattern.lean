import Qualification.Numeric.Scalar

/-! # Readings bit by bit

A `Float` is a number or the one NaN. The readings of a machine are patterns of 64 bits, in
which each NaN has a sign and a payload that sorting looks at. What an operation makes of
them when it has no number to give depends on the machine.
-/

namespace Qualification

/-- The NaN that a machine makes of two operands. -/
structure NanRule where
  make : UInt64 → UInt64 → UInt64
  isNaN : ∀ a b, (Float.ofBits (make a b)).isNaN

/-- The NaN with its sign bit set, whatever the operands. -/
instance : Inhabited NanRule :=
  ⟨⟨fun _ _ => 0xfff8000000000000, fun _ _ => by decide +kernel⟩⟩

/-- A reading with all of its bits, on a machine with some rule for NaNs. -/
structure Pattern (rule : NanRule) where
  bits : UInt64
  deriving Repr, DecidableEq

namespace Pattern

variable {rule : NanRule}

def toFloat (x : Pattern rule) : Float :=
  Float.ofBits x.bits

def ofFloat (x : Float) : Pattern rule :=
  ⟨x.toBits⟩

/-- The outcome of an operation on two readings. -/
def outcome (x y : Pattern rule) (z : Float) : Pattern rule :=
  if z.isNaN then ⟨rule.make x.bits y.bits⟩ else .ofFloat z

/-- The reading without its sign bit. -/
def magnitude (x : Pattern rule) : Pattern rule :=
  ⟨x.bits &&& 0x7fffffffffffffff⟩

/-- Binary64 arithmetic on patterns: a NaN compares with nothing, and sorting places it by
    its bits. -/
instance : Rooted (Pattern rule) where
  add x y := outcome x y (x.toFloat + y.toFloat)
  sub x y := outcome x y (x.toFloat - y.toFloat)
  mul x y := outcome x y (x.toFloat * y.toFloat)
  div x y := outcome x y (x.toFloat / y.toFloat)
  ofScientific mantissa sign exponent := ofFloat (OfScientific.ofScientific mantissa sign exponent)
  ofCount n := ofFloat (Float.ofNat n)
  sumStart := ofFloat (-0.0)
  abs := magnitude
  lt x y := x.toFloat < y.toFloat
  le x y := x.toFloat ≤ y.toFloat
  eq x y := x.toFloat == y.toFloat
  sortLe x y := Binary64.orderKey x.bits ≤ Binary64.orderKey y.bits
  floor x := ((Binary64.ofFloat? x.toFloat).map Binary64.floorMagnitude).getD 0
  ceil x := ((Binary64.ofFloat? x.toFloat).map Binary64.ceilMagnitude).getD 0
  sqrt x := outcome x x x.toFloat.sqrt

end Pattern

end Qualification
