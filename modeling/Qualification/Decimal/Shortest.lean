import Qualification.Decimal.Basic

/-! # Shortest decimals

The decimal that stands for a reading in text: the fewest digits that read back as the
same reading, and of those the nearest to its exact value.
-/

namespace Qualification.Decimal

/-- The power of ten of the first digit of a positive quotient between `10^-400` and
    `10^400`. -/
def orderOfRatio (r : Nat × Nat) : Int :=
  ((digits (r.1 * Nat.pow 10 400 / r.2)).length : Int) - 401

def inUnits (r : Nat × Nat) (exponent : Int) : Nat × Nat :=
  (r.1 * Nat.pow 10 (-exponent).toNat, r.2 * Nat.pow 10 exponent.toNat)

/-- Which of two equally near decimals is chosen. -/
inductive Tie where
  | toEven
  | upward
  deriving Repr, DecidableEq

/-- Does a tie fall to the lower of two neighbours? -/
def Tie.choosesLower : Tie → Nat → Bool
  | .toEven, lower => lower % 2 == 0
  | .upward, _ => false

/-- The neighbours of a quotient among the multiples of `10^exponent`, nearer first. -/
def neighbours (tie : Tie) (r : Nat × Nat) (exponent : Int) : List Decimal :=
  let scaled := inUnits r exponent
  let below := scaled.1 / scaled.2
  let twice := 2 * (scaled.1 % scaled.2)
  let lower : Decimal := ⟨below, exponent⟩
  let upper : Decimal := ⟨below + 1, exponent⟩
  if twice < scaled.2 || (twice == scaled.2 && tie.choosesLower below) then [lower, upper]
  else [upper, lower]

/-- The exact value of a reading as a decimal. -/
def exact (b : Binary64) : Decimal :=
  if 0 ≤ b.exponent then ⟨b.significand * Nat.pow 2 b.exponent.toNat, 0⟩
  else ⟨b.significand * Nat.pow 5 (-b.exponent).toNat, b.exponent⟩

/-- Drop the zeros that a coefficient ends in, at most `fuel` of them. -/
def trimZeros : Nat → Decimal → Decimal
  | 0, d => d
  | fuel + 1, d =>
      if d.coefficient ≠ 0 && d.coefficient % 10 == 0 then
        trimZeros fuel ⟨d.coefficient / 10, d.exponent + 1⟩
      else d

/-- The shortest decimal that reads back as the magnitude of a finite reading. Seventeen
    digits always suffice; the exact value closes the search. -/
def shortest (tie : Tie) (x : Float) : Decimal :=
  match Binary64.ofFloat? x with
  | none => ⟨0, 0⟩
  | some b =>
      if b.significand = 0 then ⟨0, 0⟩
      else
        let first := orderOfRatio b.ratio
        let candidates := (List.range 17).flatMap fun (n : Nat) => neighbours tie b.ratio (first - n)
        match candidates.find? fun d => d.toFloat == x.abs with
        | some d => trimZeros 20 d
        | none => exact b

end Qualification.Decimal
