import Qualification.Decimal.Shortest
import Qualification.Proofs.Decimal.Digits
import Qualification.Proofs.Numeric.Nearest

/-! # Decimals that read back

A decimal is read by its value, however many zeros end its coefficient. The shortest decimal
of a finite reading and its exact value both read back as that reading.
-/

namespace Qualification.Decimal

open Binary64

variable {c k : Nat} {e : Int}

theorem digits_mul_ten (positive : 0 < c) : digits (c * 10) = digits c ++ ['0'] := by
  rw [Nat.mul_comm]
  exact (Nat.toDigits_append_toDigits (by decide) positive (d := 0) (by decide)).symm

theorem order_mul_ten (positive : 0 < c) : order ⟨c * 10, e⟩ = order ⟨c, e + 1⟩ := by
  simp only [order, digits_mul_ten positive, List.length_append, List.length_singleton]
  omega

theorem nearest_mul_ten (c : Nat) (e : Int) :
    nearest (ratio ⟨c * 10, e⟩) = nearest (ratio ⟨c, e + 1⟩) := by
  by_cases whole : 0 ≤ e
  · have tens : c * 10 * Nat.pow 10 e.toNat = c * Nat.pow 10 (e + 1).toNat := by
      rw [Int.toNat_add whole (by decide), Nat.mul_assoc, Nat.pow_eq, Nat.pow_eq, Nat.mul_comm 10,
        ← Nat.pow_succ]
      rfl
    have none : (-e).toNat = (-(e + 1)).toNat := by omega
    rw [ratio, ratio, tens, none]
  · obtain ⟨n, rfl⟩ : ∃ n : Nat, e = -(n + 1) := ⟨(-e).toNat - 1, by omega⟩
    have above : (-((n : Int) + 1)).toNat = 0 ∧ (-((n : Int) + 1) + 1).toNat = 0 := by omega
    have below : (-(-((n : Int) + 1))).toNat = n + 1 ∧ (-(-((n : Int) + 1) + 1)).toNat = n := by
      omega
    rw [nearest, nearest, ratio, ratio, above.1, above.2, below.1, below.2,
      Nat.mul_right_comm, show Nat.pow 10 (n + 1) = Nat.pow 10 n * 10 from rfl,
      nearestBits_scale (by decide)]

theorem toFloat_mul_ten (c : Nat) (e : Int) : toFloat ⟨c * 10, e⟩ = toFloat ⟨c, e + 1⟩ := by
  rcases Nat.eq_zero_or_pos c with rfl | positive
  · simp [toFloat]
  · have zero : (c * 10 = 0) = (c = 0) := by
      rw [eq_iff_iff]
      omega
    simp only [toFloat, zero, order_mul_ten positive, nearest_mul_ten]

/-- A decimal with more zeros behind it reads as the same. -/
theorem toFloat_mul_pow (c k : Nat) (e : Int) : toFloat ⟨c * 10 ^ k, e⟩ = toFloat ⟨c, e + k⟩ := by
  induction k generalizing e with
  | zero => simp
  | succ k ih =>
      rw [Nat.pow_succ, ← Nat.mul_assoc, toFloat_mul_ten, ih]
      congr 2
      omega

theorem toFloat_trimZeros (fuel : Nat) (d : Decimal) : (trimZeros fuel d).toFloat = d.toFloat := by
  induction fuel generalizing d with
  | zero => rfl
  | succ fuel ih =>
      rw [trimZeros]
      split
      · rename_i trailing
        rw [ih, ← toFloat_mul_ten]
        have whole : d.coefficient / 10 * 10 = d.coefficient := by
          simp at trailing
          omega
        rw [whole]
      · rfl

theorem lt_pow_iff (positive : 0 < k) : c < 10 ^ k ↔ (digits c).length ≤ k :=
  (Nat.length_toDigits_le_iff (by decide) positive).symm

theorem digits_length_pos (c : Nat) : 0 < (digits c).length :=
  Nat.length_toDigits_pos

theorem nearest_exact (b : Binary64) : nearest (exact b).ratio = nearest b.ratio := by
  by_cases whole : 0 ≤ b.exponent
  · have none : (-b.exponent).toNat = 0 := by omega
    rw [exact, if_pos whole, ratio, Binary64.ratio, none]
    simp
  · have none : b.exponent.toNat = 0 := by omega
    have tens : Nat.pow 10 (-b.exponent).toNat =
        Nat.pow 2 (-b.exponent).toNat * Nat.pow 5 (-b.exponent).toNat := by
      rw [Nat.pow_eq, Nat.pow_eq, Nat.pow_eq, ← Nat.mul_pow]
    have scaled := nearestBits_scale (a := b.significand) (b := Nat.pow 2 (-b.exponent).toNat)
      (k := Nat.pow 5 (-b.exponent).toNat) (Nat.pow_pos (by decide))
    rw [exact, if_neg whole, nearest, nearest, ratio, Binary64.ratio]
    simp only [none, tens]
    simp only [Nat.pow_eq, Nat.pow_zero, Nat.mul_one] at scaled ⊢
    rw [scaled]

/-- Powers of two bases are compared by two small ones. -/
theorem pow_le_pow_of_step {a b p q n i j : Nat} (step : a ^ p ≤ b ^ q) (ha : 0 < a) (hb : 0 < b)
    (least : i ≤ p * n) (most : q * n ≤ j) : a ^ i ≤ b ^ j := calc
  a ^ i ≤ (a ^ p) ^ n := by
    rw [← Nat.pow_mul]
    exact Nat.pow_le_pow_right ha least
  _ ≤ (b ^ q) ^ n := Nat.pow_le_pow_left step n
  _ ≤ b ^ j := by
    rw [← Nat.pow_mul]
    exact Nat.pow_le_pow_right hb most

/-- The first digit of the smallest reading is not too far behind the point. -/
theorem order_exact_low {b : Binary64} (positive : 0 < b.significand) (least : -1074 ≤ b.exponent) :
    -330 ≤ (exact b).order := by
  refine Int.not_lt.mp fun low => ?_
  rw [exact] at low
  split at low
  · have := digits_length_pos (b.significand * Nat.pow 2 b.exponent.toNat)
    simp only [order] at low
    omega
  · have some := digits_length_pos (b.significand * Nat.pow 5 (-b.exponent).toNat)
    simp only [order] at low
    obtain ⟨i, j, fixed, isExponent⟩ : ∃ i j : Nat, i = 330 ∧ (-b.exponent).toNat = i + j :=
      ⟨330, (-b.exponent).toNat - 330, rfl, by omega⟩
    rw [isExponent] at low some
    have short : (digits (b.significand * Nat.pow 5 (i + j))).length ≤ j := by omega
    have below := (lt_pow_iff (by omega)).mpr short
    -- 2 ^ 16 is at most 5 ^ 7, and 744 places at most are left.
    have fives : 2 ^ j ≤ 5 ^ i :=
      pow_le_pow_of_step (p := 16) (q := 7) (n := 47) (by decide) (by decide) (by decide)
        (by omega) (by omega)
    have above : 10 ^ j ≤ b.significand * Nat.pow 5 (i + j) := calc
      10 ^ j = 2 ^ j * 5 ^ j := by rw [← Nat.mul_pow]
      _ ≤ 5 ^ i * 5 ^ j := Nat.mul_le_mul_right _ fives
      _ = Nat.pow 5 (i + j) := by rw [Nat.pow_eq, ← Nat.pow_add]
      _ ≤ b.significand * Nat.pow 5 (i + j) := Nat.le_mul_of_pos_left _ positive
    omega

/-- The first digit of the largest reading is not too far before the point. -/
theorem order_exact_high {b : Binary64} (small : b.significand < 2 ^ 53) (most : b.exponent ≤ 971) :
    (exact b).order ≤ 310 := by
  refine Int.not_lt.mp fun high => ?_
  rw [exact] at high
  split at high
  · have long : ¬ (digits (b.significand * Nat.pow 2 b.exponent.toNat)).length ≤ 311 := by
      simp only [order] at high
      omega
    refine long ((lt_pow_iff (by decide)).mp ?_)
    calc b.significand * Nat.pow 2 b.exponent.toNat < 2 ^ 53 * Nat.pow 2 b.exponent.toNat :=
          Nat.mul_lt_mul_of_pos_right small (Nat.pow_pos (by decide))
      _ = 2 ^ (53 + b.exponent.toNat) := by rw [Nat.pow_eq, ← Nat.pow_add]
      _ ≤ 10 ^ 311 :=
          pow_le_pow_of_step (p := 205) (q := 62) (n := 5) (by decide) (by decide) (by decide)
            (by omega) (by decide)
  · have long : ¬ (digits (b.significand * Nat.pow 5 (-b.exponent).toNat)).length ≤
        16 + (-b.exponent).toNat := by
      simp only [order] at high
      omega
    refine long ((lt_pow_iff (by omega)).mp ?_)
    calc b.significand * Nat.pow 5 (-b.exponent).toNat
        < 10 ^ 16 * Nat.pow 5 (-b.exponent).toNat :=
          Nat.mul_lt_mul_of_pos_right (Nat.lt_trans small (by decide)) (Nat.pow_pos (by decide))
      _ ≤ 10 ^ 16 * 10 ^ (-b.exponent).toNat :=
          Nat.mul_le_mul_left _ (Nat.pow_le_pow_left (by decide) _)
      _ = 10 ^ (16 + (-b.exponent).toNat) := by rw [← Nat.pow_add]

theorem toFloat_exact {x : Float} {b : Binary64} (h : ofFloat? x = some b)
    (positive : 0 < b.significand) : (exact b).toFloat = x.abs := by
  obtain ⟨small, least, most⟩ := ofFloat?_bounds h
  have nonzero : (exact b).coefficient ≠ 0 := by
    rw [exact]
    split
    · exact Nat.ne_of_gt (Nat.mul_pos positive (Nat.pow_pos (by decide)))
    · exact Nat.ne_of_gt (Nat.mul_pos positive (Nat.pow_pos (by decide)))
  have low := order_exact_low positive least
  have high := order_exact_high small most
  rw [toFloat, if_neg (by simp [nonzero, low]), if_neg (by omega), nearest_exact, nearest_ratio h]

/-- The shortest decimal of a finite reading reads back as its magnitude. -/
theorem toFloat_shortest {x : Float} (finite : x.isFinite) (tie : Tie) :
    (shortest tie x).toFloat = x.abs := by
  rw [shortest]
  obtain ⟨b, h⟩ := Option.isSome_iff_exists.mp (ofFloat?_isSome.mpr finite)
  rw [h]
  dsimp only
  have number := Nat.le_of_lt (isFinite_iff.mp finite)
  split
  · rename_i zero
    rw [toFloat, if_pos (by simp), abs_of_zero ((significand_eq_zero h).mp zero)]
  · split
    · rename_i d found
      rw [toFloat_trimZeros]
      have equal := List.find?_some found
      rcases eq_or_zero_of_beq equal with same | ⟨_, zero⟩
      · exact same
      · rw [(abs_spec number).2, ← significand_eq_zero h] at zero
        contradiction
    · exact toFloat_exact h (by omega)

end Qualification.Decimal
