import Qualification.Proofs.Numeric.Bits

/-! # The order of readings

Readings that are numbers are ordered as their magnitudes are, taken with their signs. So any
two of them can be compared, infinities included, and a zero is equal to the other one. The
total order tells zeros apart, as it does any two readings.
-/

namespace Qualification.Binary64

open Float.Model Float.Model.UnpackedFloat

/-- The significand and the power of two of a finite magnitude. -/
def Scaled (k significand : Nat) (power : Int) : Prop :=
  k < 2 ^ 52 ∧ significand = k ∧ power = -1074 ∨
    2 ^ 52 ≤ k ∧ significand = 2 ^ 52 + k % 2 ^ 52 ∧ power = (k / 2 ^ 52 : Nat) - 1075

/-- What a sign and the magnitude of a number stand for. -/
inductive Signed (s : Sign) : Nat → UnpackedFloat → Prop where
  | zero : Signed s 0 (.zero s)
  | finite {k m : Nat} {e : Int} (positive : 0 < m) : 0 < k → k < 2047 * 2 ^ 52 → Scaled k m e →
      Signed s k (.finite s m e positive)
  | infinity : Signed s (2047 * 2 ^ 52) (.infinity s)

theorem signed_of_unpacked {s : Sign} {k : Nat} {u : UnpackedFloat} (number : k ≤ 2047 * 2 ^ 52)
    (h : Unpacked s (k / 2 ^ 52) (k % 2 ^ 52) u) : Signed s k u := by
  cases h with
  | infinity all zero =>
      obtain rfl : k = 2047 * 2 ^ 52 := by omega
      exact .infinity
  | notANumber all positive => omega
  | zero none zero =>
      obtain rfl : k = 0 := by omega
      exact .zero
  | subnormal positive none isFraction least =>
      exact .finite positive (by omega) (by omega) (.inl ⟨by omega, by omega, least⟩)
  | normal positive some notAll whole biased =>
      exact .finite positive (by omega) (by omega) (.inr ⟨by omega, whole, biased⟩)

theorem compare_neg (a b : Int) : compare (-a) (-b) = (compare a b).swap := by
  rcases Int.lt_trichotomy a b with less | rfl | greater
  · rw [Int.compare_eq_lt.mpr less, Ordering.swap_lt, Int.compare_eq_gt]
    exact Int.neg_lt_neg less
  · simp
  · rw [Int.compare_eq_gt.mpr greater, Ordering.swap_gt, Int.compare_eq_lt]
    exact Int.neg_lt_neg greater

/-- Magnitudes are compared by their powers of two first, then by their significands. -/
theorem Scaled.compare {k l m n : Nat} {d e : Int} (hk : Scaled k m d) (hl : Scaled l n e) :
    (compare d e).then (compare m n) = compare (k : Int) l := by
  unfold Scaled at hk hl
  rcases Int.lt_trichotomy d e with less | same | greater
  · rw [Int.compare_eq_lt.mpr less, eq_comm, Ordering.lt_then, Int.compare_eq_lt]
    omega
  · rw [Int.compare_eq_eq.mpr same, Ordering.eq_then]
    rcases Nat.lt_trichotomy m n with less | same | greater
    · rw [Nat.compare_eq_lt.mpr less, eq_comm, Int.compare_eq_lt]
      omega
    · rw [Nat.compare_eq_eq.mpr same, eq_comm, Int.compare_eq_eq]
      omega
    · rw [Nat.compare_eq_gt.mpr greater, eq_comm, Int.compare_eq_gt]
      omega
  · rw [Int.compare_eq_gt.mpr greater, eq_comm, Ordering.gt_then, Int.compare_eq_gt]
    omega

/-- Numbers are compared by their magnitudes with their signs. -/
theorem Signed.compare {s t : Sign} {k l : Nat} {u v : UnpackedFloat} (hu : Signed s k u)
    (hv : Signed t l v) : u.compare v = some (compare (s.apply k) (t.apply l)) := by
  have lt {a b : Int} (h : a < b) : some Ordering.lt = some (Ord.compare a b) :=
    congrArg some (Int.compare_eq_lt.mpr h).symm
  have gt {a b : Int} (h : b < a) : some Ordering.gt = some (Ord.compare a b) :=
    congrArg some (Int.compare_eq_gt.mpr h).symm
  cases hu with
  | zero =>
      cases hv with
      | zero | infinity => cases s <;> cases t <;> decide
      | finite _ positive =>
          cases t with
          | negative => cases s <;> exact gt (by simp only [Sign.apply]; omega)
          | positive => cases s <;> exact lt (by simp only [Sign.apply]; omega)
  | infinity =>
      cases hv with
      | zero | infinity => cases s <;> cases t <;> decide
      | finite _ _ less =>
          cases s with
          | negative => cases t <;> exact lt (by simp only [Sign.apply]; omega)
          | positive => cases t <;> exact gt (by simp only [Sign.apply]; omega)
  | finite _ positive less scaled =>
      cases hv with
      | zero =>
          cases s with
          | negative => cases t <;> exact lt (by simp only [Sign.apply]; omega)
          | positive => cases t <;> exact gt (by simp only [Sign.apply]; omega)
      | infinity =>
          cases t with
          | negative => cases s <;> exact gt (by simp only [Sign.apply]; omega)
          | positive => cases s <;> exact lt (by simp only [Sign.apply]; omega)
      | finite _ positive' less' scaled' =>
          -- Only numbers of the same sign need a look at their significands.
          have magnitudes := scaled.compare scaled'
          cases s <;> cases t
          · simp only [UnpackedFloat.compare, magnitudes, Sign.apply, compare_neg]
          · exact lt (by simp only [Sign.apply]; omega)
          · exact gt (by simp only [Sign.apply]; omega)
          · simp only [UnpackedFloat.compare, magnitudes, Sign.apply]

variable {x y : Float}

/-- The magnitude of a reading with its sign, the same for the two zeros. -/
def level (x : Float) : Int :=
  if isNegative x then -(magnitude x : Int) else magnitude x

theorem signOf_apply (x : Float) : (signOf x.toBits.toBitVec).apply (magnitude x) = level x := by
  have negative : x.toBits.toBitVec.toNat / 2 ^ 63 = 1 ↔ isNegative x := beq_iff_eq.symm
  simp only [level, signOf, negative]
  split <;> rfl

theorem compare_unpack (hx : IsNumber x) (hy : IsNumber y) :
    x.toModel.unpack.compare y.toModel.unpack = some (compare (level x) (level y)) := by
  rw [← signOf_apply, ← signOf_apply]
  exact (signed_of_unpacked hx (unpacked x)).compare (signed_of_unpacked hy (unpacked y))

theorem lt_iff_level (hx : IsNumber x) (hy : IsNumber y) : x < y ↔ level x < level y := by
  have told : x < y ↔ x.toModel.unpack.compare y.toModel.unpack == some .lt := decide_eq_true_iff
  rw [told, compare_unpack hx hy, beq_iff_eq, Option.some_inj, Int.compare_eq_lt]

theorem le_iff_level (hx : IsNumber x) (hy : IsNumber y) : x ≤ y ↔ level x ≤ level y := by
  have told : x ≤ y ↔ (x.toModel.unpack.compare y.toModel.unpack).any (·.isLE) :=
    decide_eq_true_iff
  rw [told, compare_unpack hx hy, Option.any_some, Int.isLE_compare]

theorem beq_iff_level (hx : IsNumber x) (hy : IsNumber y) : x == y ↔ level x = level y := by
  change (x.toModel.unpack.compare y.toModel.unpack == some .eq) = true ↔ _
  rw [compare_unpack hx hy, beq_iff_eq, Option.some_inj, Int.compare_eq_eq]

/-- What is not a number is in no order to anything. -/
theorem isNumber_of_le (h : x ≤ y) : IsNumber x ∧ IsNumber y := by
  have told : (x.toModel.unpack.compare y.toModel.unpack).any (·.isLE) := of_decide_eq_true h
  have unpack_nan {z : Float} (nan : ¬ IsNumber z) : z.toModel.unpack = .notANumber :=
    UnpackedFloat.isNaN_iff.mp (isNaN_iff.mpr nan)
  constructor
  · by_contra nan
    rw [unpack_nan nan] at told
    cases told
  · by_contra nan
    rw [unpack_nan nan] at told
    cases first : x.toModel.unpack <;> simp [first, UnpackedFloat.compare] at told

theorem not_lt_of_le (h : x ≤ y) : ¬ y < x := by
  obtain ⟨x_number, y_number⟩ := isNumber_of_le h
  rw [lt_iff_level y_number x_number, Int.not_lt]
  exact (le_iff_level x_number y_number).mp h

theorem not_lt_iff (hx : x.isFinite) (hy : y.isFinite) : ¬ x < y ↔ y ≤ x := by
  have x_number := isNumber_of_isFinite hx
  have y_number := isNumber_of_isFinite hy
  rw [lt_iff_level x_number y_number, le_iff_level y_number x_number, Int.not_lt]

theorem beq_iff_le_le (hx : x.isFinite) (hy : y.isFinite) : x == y ↔ y ≤ x ∧ x ≤ y := by
  have x_number := isNumber_of_isFinite hx
  have y_number := isNumber_of_isFinite hy
  rw [beq_iff_level x_number y_number, le_iff_level x_number y_number,
    le_iff_level y_number x_number]
  omega

/-- A reading that is equal to a finite one is finite. -/
theorem isFinite_of_beq (hy : y.isFinite) (h : x == y) : x.isFinite := by
  rcases eq_or_zero_of_beq h with rfl | ⟨zero, _⟩
  · exact hy
  · rw [isFinite_iff, zero]
    decide

theorem totalLe_antisymm (first : totalLe x y) (back : totalLe y x) : x = y := by
  have same : orderKey x.toBits = orderKey y.toBits :=
    Int.le_antisymm (of_decide_eq_true first) (of_decide_eq_true back)
  change (if isNegative x then -1 - (magnitude x : Int) else magnitude x) =
    if isNegative y then -1 - (magnitude y : Int) else magnitude y at same
  cases hx : isNegative x <;> cases hy : isNegative y <;>
    simp only [hx, hy, Bool.false_eq_true, if_true, if_false] at same
  · exact eq_of_magnitude (hx.trans hy.symm) (by omega)
  · omega
  · omega
  · exact eq_of_magnitude (hx.trans hy.symm) (by omega)

end Qualification.Binary64
