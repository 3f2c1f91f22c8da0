import Mathlib.Data.Fintype.Perm
import Mathlib.Data.List.OfFn
import Qualification.Numeric.Pattern
import Qualification.Proofs.Numeric.Order
import Qualification.Statistics.Outlier

/-! # Statistics of sorted values

A list is sorted in one way if the order of sorting tells any two values apart, as the total order
of readings does: any two patterns of bits, those of different NaNs among them. What is computed
from sorted values then does not depend on the order in which they came, and an outlier stays one
wherever it is moved.
-/

namespace Qualification.Statistics

open Scalar

variable {α : Type}

/-- Sorting puts any two values in order, and never both ways round. -/
structure SortsApart (α : Type) [Scalar α] : Prop where
  trans : ∀ x y z : α, sortLe x y → sortLe y z → sortLe x z
  total : ∀ x y : α, sortLe x y || sortLe y x
  antisymm : ∀ x y : α, sortLe x y → sortLe y x → x = y

theorem sortsApart_float : SortsApart Float where
  trans _ _ _ := Binary64.totalLe_trans
  total := Binary64.totalLe_total
  antisymm _ _ := Binary64.totalLe_antisymm

theorem orderKey_injective {a b : UInt64} (same : Binary64.orderKey a = Binary64.orderKey b) :
    a = b := by
  have below_a : a.toNat < 2 ^ 64 := a.toNat_lt
  have below_b : b.toNat < 2 ^ 64 := b.toNat_lt
  simp only [Binary64.orderKey, beq_iff_eq, Nat.pow_eq] at same
  refine UInt64.toNat_inj.mp ?_
  split at same <;> split at same <;> omega

theorem sortsApart_pattern {rule : NanRule} : SortsApart (Pattern rule) where
  trans x y z first next := by
    simp only [sortLe, decide_eq_true_eq] at *
    exact first.trans next
  total x y := by
    simp only [sortLe, Bool.or_eq_true, decide_eq_true_eq]
    exact Int.le_total _ _
  antisymm x y first back := by
    simp only [sortLe, decide_eq_true_eq] at *
    have bits := orderKey_injective (Int.le_antisymm first back)
    cases x
    cases y
    exact congrArg _ bits

section

variable [Scalar α] {xs ys : List α}

theorem SortsApart.pairwise_sorted (apart : SortsApart α) (xs : List α) :
    (sorted xs).Pairwise fun x y => sortLe x y :=
  List.pairwise_mergeSort apart.trans apart.total xs

/-- Values in order are what sorting makes of them, however they come. -/
theorem SortsApart.sorted_eq (apart : SortsApart α) (perm : ys.Perm xs)
    (ordered : ys.Pairwise fun x y => sortLe x y) : sorted xs = ys := by
  have same : (sorted xs).Perm ys := (List.mergeSort_perm xs sortLe).trans perm.symm
  exact same.eq_of_pairwise (fun x y _ _ => apart.antisymm x y) (apart.pairwise_sorted xs) ordered

theorem SortsApart.sorted_perm (apart : SortsApart α) (perm : xs.Perm ys) :
    sorted xs = sorted ys :=
  apart.sorted_eq ((List.mergeSort_perm ys sortLe).trans perm.symm) (apart.pairwise_sorted ys)

theorem length_sorted (xs : List α) : (sorted xs).length = xs.length :=
  (List.mergeSort_perm xs sortLe).length_eq

theorem median_of_odd {m : Nat} (length : xs.length = 2 * m + 1) : median xs = (sorted xs)[m]? := by
  have odd : (2 * m + 1) % 2 ≠ 0 := by omega
  have middle : (2 * m + 1) / 2 = m := by omega
  simp only [median, length_sorted, length, odd, middle, if_false]

theorem median_of_even {m : Nat} (length : xs.length = 2 * m + 2) : median xs =
    (sorted xs)[m]?.bind fun low => (sorted xs)[m + 1]?.bind fun high =>
      some ((low + high) / 2.0) := by
  have even : (2 * m + 2) % 2 = 0 := by omega
  have middle : (2 * m + 2) / 2 = m + 1 := by omega
  have entries : (sorted xs).isEmpty = false := by
    rw [List.isEmpty_eq_false_iff, ← List.length_pos_iff, length_sorted]
    omega
  simp only [median, length_sorted, length, even, middle, entries, if_true, Bool.false_eq_true,
    if_false, Nat.add_sub_cancel]
  rfl

theorem SortsApart.median_perm (apart : SortsApart α) (perm : xs.Perm ys) :
    median xs = median ys := by
  rw [median, median, apart.sorted_perm perm]

theorem SortsApart.iqrTest_perm (apart : SortsApart α) (k : α) (perm : xs.Perm ys) :
    iqrTest k xs = iqrTest k ys := by
  rw [iqrTest, iqrTest, apart.sorted_perm perm]

/-- Deviations from the median are moved as the values are. -/
theorem SortsApart.madTest_perm (apart : SortsApart α) (k : α) (perm : xs.Perm ys) :
    madTest k xs = madTest k ys := by
  have deviations (centre : α) : median (xs.map fun x => abs (x - centre)) =
      median (ys.map fun x => abs (x - centre)) := apart.median_perm (perm.map _)
  simp only [madTest, apart.median_perm perm, deviations]

end

theorem mem_positions {test : α → Bool} {xs : List α} {i : Nat} :
    i ∈ positions test xs ↔ ∃ x, xs[i]? = some x ∧ test x := by
  simp only [positions, List.mem_map, List.mem_filter, List.mem_zipIdx_iff_getElem?, Prod.exists]
  constructor
  · rintro ⟨x, _, ⟨found, picked⟩, rfl⟩
    exact ⟨x, found, picked⟩
  · rintro ⟨x, found, picked⟩
    exact ⟨x, i, ⟨found, picked⟩, rfl⟩

theorem mem_flagged {test : Option (α → Bool)} {xs : List α} {i : Nat} :
    i ∈ flagged test xs ↔ ∃ t, test = some t ∧ ∃ x, xs[i]? = some x ∧ t x := by
  cases test <;> simp [flagged, mem_positions]

theorem detectOutliers_nil [Rooted α] (method : OutlierMethod α) :
    detectOutliers [] method = [] := by
  cases method <;> simp only [detectOutliers, flagged] <;> split <;> rfl

/-- A list moved around: position `i` has the value that was at position `σ i`. -/
def moved (xs : List α) (σ : Equiv.Perm (Fin xs.length)) : List α :=
  List.ofFn fun i => xs[σ i]

theorem moved_perm (xs : List α) (σ : Equiv.Perm (Fin xs.length)) : (moved xs σ).Perm xs := by
  have whole : (List.ofFn fun i : Fin xs.length => xs[i]) = xs := List.ofFn_getElem
  have around := σ.ofFn_comp_perm fun i : Fin xs.length => xs[i]
  rwa [whole] at around

theorem getElem?_moved (xs : List α) (σ : Equiv.Perm (Fin xs.length)) (i : Fin xs.length) :
    (moved xs σ)[(i : Nat)]? = xs[(σ i : Nat)]? := by
  simp [moved]

/-- The same test picks a value wherever it is. -/
theorem mem_flagged_moved (test : Option (α → Bool)) (xs : List α)
    (σ : Equiv.Perm (Fin xs.length)) (i : Fin xs.length) :
    (i : Nat) ∈ flagged test (moved xs σ) ↔ (σ i : Nat) ∈ flagged test xs := by
  simp only [mem_flagged, getElem?_moved]

/-- The values that a test picks, read back from their positions. -/
theorem filterMap_positions (test : α → Bool) (xs : List α) :
    (positions test xs).filterMap (xs[·]?) = xs.filter test := by
  have found : ∀ p ∈ xs.zipIdx.filter fun p => test p.1, xs[p.2]? = some p.1 := by
    intro p member
    exact List.mem_zipIdx_iff_getElem?.mp (List.mem_filter.mp member).1
  rw [positions, List.filterMap_map]
  calc (xs.zipIdx.filter fun p => test p.1).filterMap ((xs[·]?) ∘ (·.2))
    _ = (xs.zipIdx.filter fun p => test p.1).filterMap (some ∘ (·.1)) :=
        List.filterMap_congr found
    _ = (xs.zipIdx.map (·.1)).filter test := by
        rw [List.filterMap_eq_map, List.filter_map]
        rfl
    _ = xs.filter test := by rw [List.zipIdx_map_fst]

theorem flagged_values_perm (test : Option (α → Bool)) {xs ys : List α} (perm : xs.Perm ys) :
    ((flagged test xs).filterMap (xs[·]?)).Perm ((flagged test ys).filterMap (ys[·]?)) := by
  cases test with
  | none => exact .refl _
  | some t =>
      simp only [flagged, filterMap_positions]
      exact perm.filter t

/-- Outliers are moved as the values of a list are, and no other values become outliers. -/
structure MovesOutliers [Rooted α] (xs : List α) (σ : Equiv.Perm (Fin xs.length))
    (method : OutlierMethod α) : Prop where
  position : ∀ i : Fin xs.length,
    (i : Nat) ∈ detectOutliers (moved xs σ) method ↔ (σ i : Nat) ∈ detectOutliers xs method
  values : ((detectOutliers (moved xs σ) method).filterMap ((moved xs σ)[·]?)).Perm
    ((detectOutliers xs method).filterMap (xs[·]?))

section

variable [Rooted α] {xs : List α} {σ : Equiv.Perm (Fin xs.length)}

theorem movesOutliers_of_test {method : OutlierMethod α} (test : List α → Option (α → Bool))
    (detected : ∀ ys, detectOutliers ys method = flagged (test ys) ys)
    (same : test (moved xs σ) = test xs) : MovesOutliers xs σ method where
  position i := by
    rw [detected, detected, same]
    exact mem_flagged_moved _ xs σ i
  values := by
    rw [detected, detected, same]
    exact flagged_values_perm _ (moved_perm xs σ)

theorem SortsApart.movesOutliers (apart : SortsApart α) (k : α) (xs : List α)
    (σ : Equiv.Perm (Fin xs.length)) :
    MovesOutliers xs σ (.iqr k) ∧ MovesOutliers xs σ (.mad k) := by
  have perm := moved_perm xs σ
  have quartiles := apart.iqrTest_perm k perm
  have deviations := apart.madTest_perm k perm
  exact ⟨movesOutliers_of_test (iqrTest k) (fun _ => rfl) quartiles,
    movesOutliers_of_test (madTest k) (fun _ => rfl) deviations⟩

end

/-- Outliers by quartiles and by median deviations do not depend on the order of recording. That
    holds of readings as they are computed with, and of all patterns of bits, whatever NaNs a
    machine makes. -/
theorem detectOutliers_moved :
    (∀ (k : Float) (xs : List Float) (σ : Equiv.Perm (Fin xs.length)),
      MovesOutliers xs σ (.iqr k) ∧ MovesOutliers xs σ (.mad k)) ∧
    ∀ (rule : NanRule) (k : Pattern rule) (xs : List (Pattern rule))
      (σ : Equiv.Perm (Fin xs.length)), MovesOutliers xs σ (.iqr k) ∧ MovesOutliers xs σ (.mad k) :=
  ⟨sortsApart_float.movesOutliers, fun _ => sortsApart_pattern.movesOutliers⟩

/-- A NaN with its sign bit set comes before the numbers, so the quartiles are numbers. -/
example : detectOutliers ((⟨0xfff8000000000000⟩ : Pattern default) ::
    [1, 2, 3, 4, 5, 6, 100].map fun n => .ofFloat (.ofNat n)) (.iqr 3.0) = [7] := by
  rw [detectOutliers, iqrTest, sortsApart_pattern.sorted_eq (.refl _) (by decide +kernel)]
  decide +kernel

end Qualification.Statistics
