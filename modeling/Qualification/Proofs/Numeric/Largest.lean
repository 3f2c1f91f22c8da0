import Qualification.Proofs.Numeric.Nearest
import Qualification.Proofs.Numeric.Order

/-! # The largest of some readings

The larger of a number and a reading is a number, and so is the largest of any readings that a
number is put before: what is not a number is passed over. It is one of them, and reaches a bound if
one of them does.
-/

namespace Qualification.Binary64

variable {x y z bound : Float}

theorem le_of_lt (h : x < y) : x ≤ y := by
  have less : x.toModel.unpack.compare y.toModel.unpack = some .lt :=
    beq_iff_eq.mp (of_decide_eq_true h)
  exact decide_eq_true_iff.mpr (show (x.toModel.unpack.compare y.toModel.unpack).any _ by
    rw [less]
    rfl)

theorem le_trans (first : x ≤ y) (next : y ≤ z) : x ≤ z := by
  obtain ⟨x_number, y_number⟩ := isNumber_of_le first
  have z_number := (isNumber_of_le next).2
  rw [le_iff_level x_number y_number] at first
  rw [le_iff_level y_number z_number] at next
  exact (le_iff_level x_number z_number).mpr (Int.le_trans first next)

theorem lt_iff_not_le (hx : IsNumber x) (hy : IsNumber y) : x < y ↔ ¬ y ≤ x := by
  rw [lt_iff_level hx hy, le_iff_level hy hx, Int.not_le]

theorem lt_of_le_of_lt (first : x ≤ y) (next : y < z) : x < z := by
  rw [lt_iff_not_le (isNumber_of_le first).1 (isNumber_of_le (le_of_lt next)).2]
  exact fun back => not_lt_of_le (le_trans back first) next

theorem isNumber_zero : IsNumber 0.0 := by
  rw [IsNumber, zero_spec.2]
  exact Nat.zero_le _

theorem max_cases (hx : IsNumber x) (y : Float) :
    ¬ IsNumber y ∧ max x y = x ∨ IsNumber y ∧ max x y = if x < y then y else x := by
  have number : x.isNaN = false := Bool.eq_false_iff.mpr fun nan => isNaN_iff.mp nan hx
  rw [max, number, if_neg (by decide)]
  by_cases hy : IsNumber y
  · have number : y.isNaN = false := Bool.eq_false_iff.mpr fun nan => isNaN_iff.mp nan hy
    rw [number, if_neg (by decide)]
    exact .inr ⟨hy, rfl⟩
  · rw [if_pos (isNaN_iff.mpr hy)]
    exact .inl ⟨hy, rfl⟩

theorem isNumber_max (hx : IsNumber x) (y : Float) : IsNumber (max x y) := by
  rcases max_cases hx y with ⟨_, same⟩ | ⟨hy, larger⟩
  · rw [same]
    exact hx
  · rw [larger]
    split
    · exact hy
    · exact hx

theorem le_max_iff (hx : IsNumber x) : bound ≤ max x y ↔ bound ≤ x ∨ bound ≤ y := by
  rcases max_cases hx y with ⟨notNumber, same⟩ | ⟨hy, larger⟩
  · rw [same]
    exact ⟨.inl, fun reached => reached.resolve_right fun h => notNumber (isNumber_of_le h).2⟩
  · rw [larger]
    split
    · rename_i less
      exact ⟨.inr, fun reached => reached.elim (fun h => le_trans h (le_of_lt less)) id⟩
    · rename_i notLess
      have before : y ≤ x := by
        rw [lt_iff_not_le hx hy, not_not] at notLess
        exact notLess
      exact ⟨.inl, fun reached => reached.elim id fun h => le_trans h before⟩

theorem isNumber_foldl_max (hx : IsNumber x) (ys : List Float) : IsNumber (ys.foldl max x) := by
  induction ys generalizing x with
  | nil => exact hx
  | cons y rest ih => exact ih (isNumber_max hx y)

theorem le_foldl_max_iff (hx : IsNumber x) (ys : List Float) :
    bound ≤ ys.foldl max x ↔ bound ≤ x ∨ ∃ y ∈ ys, bound ≤ y := by
  induction ys generalizing x with
  | nil => simp
  | cons y rest ih =>
      rw [List.foldl_cons, ih (isNumber_max hx y), le_max_iff hx, List.exists_mem_cons_iff,
        or_assoc]

/-- The largest reading is one of them. -/
theorem foldl_max_mem (x : Float) (ys : List Float) : ys.foldl max x ∈ x :: ys := by
  induction ys generalizing x with
  | nil => exact .head _
  | cons y rest ih =>
      have larger : max x y = x ∨ max x y = y := by
        unfold max
        split
        · exact .inr rfl
        · split
          · exact .inl rfl
          · split
            · exact .inr rfl
            · exact .inl rfl
      rcases List.mem_cons.mp (ih (max x y)) with first | later
      · rw [List.foldl_cons, first]
        rcases larger with same | same <;> rw [same] <;> simp
      · exact .tail _ (.tail _ later)

theorem neg_infinity_spec :
    isNegative (-infinity) = true ∧ magnitude (-infinity) = 2047 * 2 ^ 52 := by
  decide +kernel

theorem isNumber_neg_infinity : IsNumber (-infinity) :=
  Nat.le_of_eq neg_infinity_spec.2

/-- Nothing but negative infinity is as small as that. -/
theorem eq_neg_infinity (h : x ≤ -infinity) : x = -infinity := by
  obtain ⟨negative, infinite⟩ := neg_infinity_spec
  have number : magnitude x ≤ 2047 * 2 ^ 52 := (isNumber_of_le h).1
  rw [le_iff_level number isNumber_neg_infinity, level, level, negative, infinite, if_pos rfl] at h
  split at h
  · rename_i below
    exact eq_of_magnitude (below.trans negative.symm) (by omega)
  · omega

/-- Of some numbers put after negative infinity, the largest is one and is at least as large as
    all. -/
theorem foldl_max_of_numbers {xs : List Float} (some : xs ≠ [])
    (numbers : ∀ x ∈ xs, IsNumber x) :
    xs.foldl max (-infinity) ∈ xs ∧ ∀ x ∈ xs, x ≤ xs.foldl max (-infinity) := by
  have above : ∀ x ∈ xs, x ≤ xs.foldl max (-infinity) := by
    intro x member
    have number := numbers x member
    refine (le_foldl_max_iff isNumber_neg_infinity xs).mpr (.inr ⟨x, member, ?_⟩)
    exact (le_iff_level number number).mpr (Int.le_refl _)
  refine ⟨?_, above⟩
  -- If it is what the search started with, so is each of the numbers.
  rcases List.mem_cons.mp (foldl_max_mem (-infinity) xs) with none | member
  · obtain ⟨x, member⟩ := List.exists_mem_of_ne_nil xs some
    have least := above x member
    rw [none] at least ⊢
    rwa [← eq_neg_infinity least]
  · exact member

end Qualification.Binary64
