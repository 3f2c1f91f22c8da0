import Mathlib.Algebra.Order.Floor.Semiring
import Mathlib.Data.Rat.Floor
import Mathlib.Tactic.FieldSimp
import Mathlib.Tactic.Linarith
import Mathlib.Tactic.NormNum
import Mathlib.Tactic.Ring
import Qualification.Proofs.Statistics.Sorted

/-! # Statistics and units of measurement

Read over exact rationals, percentiles and medians of values in another unit are those values in
the other unit. A unit that turns the sign around also turns the sorted values around, which
exchanges the lower quartile with the upper one. So outliers by quartiles and by median deviations
do not depend on the unit, the offset or the sign of a parameter. They are picked by the tests that
readings are screened by.
-/

namespace Qualification.Statistics

open Scalar

/-- Exact arithmetic: nothing is rounded, and there is one zero. -/
instance : Scalar ℚ where
  ofCount n := n
  sumStart := 0
  abs x := |x|
  lt x y := x < y
  le x y := x ≤ y
  eq x y := x = y
  sortLe x y := x ≤ y
  floor x := ⌊x⌋₊
  ceil x := ⌈x⌉₊

theorem sortsApart_rat : SortsApart ℚ where
  trans x y z first next := by
    simp only [sortLe, decide_eq_true_eq] at *
    exact first.trans next
  total x y := by
    simp only [sortLe, Bool.or_eq_true, decide_eq_true_eq]
    exact le_total x y
  antisymm x y first back := by
    simp only [sortLe, decide_eq_true_eq] at *
    exact le_antisymm first back

/-- A value in a unit that is `a` times as fine and has its zero moved by `b`. -/
def rescale (a b x : ℚ) : ℚ :=
  a * x + b

variable {a b k q rank value x y : ℚ} {s xs : List ℚ} {n : ℕ}

theorem rescale_lt_of_pos (positive : 0 < a) : rescale a b x < rescale a b y ↔ x < y := by
  rw [rescale, rescale, add_lt_add_iff_right, mul_lt_mul_iff_right₀ positive]

theorem rescale_lt_of_neg (negative : a < 0) : rescale a b x < rescale a b y ↔ y < x := by
  rw [rescale, rescale, add_lt_add_iff_right, mul_lt_mul_left_of_neg negative]

theorem rescale_le_of_pos (positive : 0 < a) : rescale a b x ≤ rescale a b y ↔ x ≤ y := by
  rw [← not_lt, rescale_lt_of_pos positive, not_lt]

theorem rescale_le_of_neg (negative : a < 0) : rescale a b x ≤ rescale a b y ↔ y ≤ x := by
  rw [← not_lt, rescale_lt_of_neg negative, not_lt]

theorem sorted_rescale_of_pos (positive : 0 < a) :
    sorted (xs.map (rescale a b)) = (sorted xs).map (rescale a b) := by
  refine sortsApart_rat.sorted_eq ((List.mergeSort_perm xs sortLe).map _) ?_
  refine List.pairwise_map.mpr ((sortsApart_rat.pairwise_sorted xs).imp fun {x y} ordered => ?_)
  simp only [sortLe, decide_eq_true_eq] at *
  exact (rescale_le_of_pos positive).mpr ordered

theorem sorted_rescale_of_neg (negative : a < 0) :
    sorted (xs.map (rescale a b)) = ((sorted xs).map (rescale a b)).reverse := by
  refine sortsApart_rat.sorted_eq
    ((List.reverse_perm _).trans ((List.mergeSort_perm xs sortLe).map _)) ?_
  refine List.pairwise_reverse.mpr (List.pairwise_map.mpr
    ((sortsApart_rat.pairwise_sorted xs).imp fun {x y} ordered => ?_))
  simp only [sortLe, decide_eq_true_eq] at *
  exact (rescale_le_of_neg negative).mpr ordered

/-- A value is interpolated linearly between the positions closest to a rank. -/
def Interpolates (s : List ℚ) (rank value : ℚ) : Prop :=
  ∃ low high, s[⌊rank⌋₊]? = some low ∧ s[⌈rank⌉₊]? = some high ∧
    value = low + (high - low) * (rank - ⌊rank⌋₊)

theorem exists_interpolates (below : rank ≤ (n : ℚ)) (length : s.length = n + 1) :
    ∃ value, Interpolates s rank value := by
  have last : ⌈rank⌉₊ ≤ n := Nat.ceil_le.mpr below
  have first : ⌊rank⌋₊ ≤ ⌈rank⌉₊ := Nat.floor_le_ceil rank
  exact ⟨_, s[⌊rank⌋₊], s[⌈rank⌉₊], List.getElem?_eq_getElem (by omega),
    List.getElem?_eq_getElem (by omega), rfl⟩

theorem Interpolates.rescale (h : Interpolates s rank value) :
    Interpolates (s.map (rescale a b)) rank (rescale a b value) := by
  obtain ⟨low, high, hlow, hhigh, rfl⟩ := h
  refine ⟨Statistics.rescale a b low, Statistics.rescale a b high, ?_, ?_, ?_⟩
  · rw [List.getElem?_map, hlow, Option.map_some]
  · rw [List.getElem?_map, hhigh, Option.map_some]
  · simp only [Statistics.rescale]
    ring

theorem floor_natCast_sub (nonneg : 0 ≤ rank) (below : rank ≤ (n : ℚ)) :
    ⌊(n : ℚ) - rank⌋₊ = n - ⌈rank⌉₊ := by
  have last : ⌈rank⌉₊ ≤ n := Nat.ceil_le.mpr below
  refine (Nat.floor_eq_iff (sub_nonneg.mpr below)).mpr ⟨?_, ?_⟩
  · rw [Nat.cast_sub last]
    linarith [Nat.le_ceil rank]
  · rw [Nat.cast_sub last]
    linarith [Nat.ceil_lt_add_one nonneg]

theorem ceil_natCast_sub (nonneg : 0 ≤ rank) (below : rank ≤ (n : ℚ)) :
    ⌈(n : ℚ) - rank⌉₊ = n - ⌊rank⌋₊ := by
  have last : ⌊rank⌋₊ ≤ n := Nat.floor_le_of_le below
  refine le_antisymm (Nat.ceil_le.mpr ?_) ?_
  · rw [Nat.cast_sub last]
    linarith [Nat.floor_le nonneg]
  · have above : (n : ℚ) < ⌊rank⌋₊ + 1 + ⌈(n : ℚ) - rank⌉₊ := by
      linarith [Nat.lt_floor_add_one rank, Nat.le_ceil ((n : ℚ) - rank)]
    have above : n < ⌊rank⌋₊ + 1 + ⌈(n : ℚ) - rank⌉₊ := by exact_mod_cast above
    omega

/-- From the other end, the closest positions change places. -/
theorem Interpolates.reverse (h : Interpolates s rank value) (nonneg : 0 ≤ rank)
    (below : rank ≤ (n : ℚ)) (length : s.length = n + 1) :
    Interpolates s.reverse (n - rank) value := by
  obtain ⟨low, high, hlow, hhigh, rfl⟩ := h
  have last : ⌈rank⌉₊ ≤ n := Nat.ceil_le.mpr below
  have order : ⌊rank⌋₊ ≤ ⌈rank⌉₊ := Nat.floor_le_ceil rank
  refine ⟨high, low, ?_, ?_, ?_⟩
  · have position : s.length - 1 - (n - ⌈rank⌉₊) = ⌈rank⌉₊ := by omega
    rw [floor_natCast_sub nonneg below, List.getElem?_reverse (by omega), position, hhigh]
  · have position : s.length - 1 - (n - ⌊rank⌋₊) = ⌊rank⌋₊ := by omega
    rw [ceil_natCast_sub nonneg below, List.getElem?_reverse (by omega), position, hlow]
  · rw [floor_natCast_sub nonneg below, Nat.cast_sub last]
    rcases Nat.eq_or_lt_of_le order with whole | between
    · -- Both positions are the rank itself.
      obtain rfl : low = high := Option.some.inj (hlow.symm.trans (whole ▸ hhigh))
      ring
    · have next : ⌈rank⌉₊ = ⌊rank⌋₊ + 1 :=
        Nat.le_antisymm (Nat.ceil_le_floor_add_one rank) between
      rw [next]
      push_cast
      ring

/-- The percentile of values in any order. -/
def quantile (q : ℚ) (xs : List ℚ) : Option ℚ :=
  percentileSorted (sorted xs) q

theorem percentileSorted_eq_some (length : s.length = n + 1) (nonneg : 0 ≤ q) (most : q ≤ 1) :
    percentileSorted s q = some value ↔ Interpolates s (q * n) value := by
  have entries : s.isEmpty = false := by
    cases s <;> simp at length ⊢
  have inside : (le (0.0 : ℚ) q && le q (1.0 : ℚ)) = true := by
    simp only [le, Bool.and_eq_true, decide_eq_true_eq]
    norm_num [nonneg, most]
  have rank : q * ofCount (s.length - 1) = q * n := by
    rw [length]
    rfl
  simp only [percentileSorted, entries, inside, rank, Bool.not_true, Bool.or_self,
    Bool.false_eq_true, if_false]
  change (s[⌊q * n⌋₊]?.bind fun low => s[⌈q * n⌉₊]?.bind fun high =>
    some (low + (high - low) * (q * n - ⌊q * n⌋₊))) = some value ↔ _
  simp only [Option.bind_eq_some_iff, Option.some_inj]
  constructor
  · rintro ⟨low, hlow, high, hhigh, rfl⟩
    exact ⟨low, high, hlow, hhigh, rfl⟩
  · rintro ⟨low, high, hlow, hhigh, rfl⟩
    exact ⟨low, hlow, high, hhigh, rfl⟩

theorem sorted_nil : sorted ([] : List ℚ) = [] := by
  rw [sorted, List.mergeSort_nil]

theorem quantile_nil (q : ℚ) : quantile q [] = none := by
  rw [quantile, sorted_nil]
  rfl

theorem rank_bounds (nonneg : 0 ≤ q) (most : q ≤ 1) (n : ℕ) : 0 ≤ q * n ∧ q * n ≤ n := by
  have size : (0 : ℚ) ≤ n := n.cast_nonneg
  exact ⟨mul_nonneg nonneg size, mul_le_of_le_one_left size most⟩

/-- Values of which there is one have all percentiles. -/
theorem exists_quantile (length : xs.length = n + 1) (nonneg : 0 ≤ q) (most : q ≤ 1) :
    ∃ value, quantile q xs = some value ∧ Interpolates (sorted xs) (q * n) value := by
  have length := (length_sorted xs).trans length
  obtain ⟨value, interpolated⟩ := exists_interpolates (rank_bounds nonneg most n).2 length
  exact ⟨value, (percentileSorted_eq_some length nonneg most).mpr interpolated, interpolated⟩

theorem quantile_rescale_of_pos (positive : 0 < a) (b : ℚ) (nonneg : 0 ≤ q) (most : q ≤ 1)
    (xs : List ℚ) : quantile q (xs.map (rescale a b)) = (quantile q xs).map (rescale a b) := by
  rcases length : xs.length with _ | n
  · rw [List.eq_nil_of_length_eq_zero length, List.map_nil, quantile_nil, Option.map_none]
  · obtain ⟨value, found, interpolated⟩ := exists_quantile length nonneg most
    have length := (length_sorted (xs.map (rescale a b))).trans (by rw [List.length_map, length])
    rw [found, Option.map_some, quantile, percentileSorted_eq_some length nonneg most,
      sorted_rescale_of_pos positive]
    exact interpolated.rescale

theorem quantile_rescale_of_neg (negative : a < 0) (b : ℚ) (nonneg : 0 ≤ q) (most : q ≤ 1)
    (xs : List ℚ) :
    quantile q (xs.map (rescale a b)) = (quantile (1 - q) xs).map (rescale a b) := by
  rcases length : xs.length with _ | n
  · rw [List.eq_nil_of_length_eq_zero length, List.map_nil, quantile_nil, quantile_nil,
      Option.map_none]
  · have nonneg' : 0 ≤ 1 - q := sub_nonneg.mpr most
    have most' : 1 - q ≤ 1 := sub_le_self 1 nonneg
    obtain ⟨low, high⟩ := rank_bounds nonneg' most' n
    obtain ⟨value, found, interpolated⟩ := exists_quantile length nonneg' most'
    have entries : ((sorted xs).map (rescale a b)).length = n + 1 := by
      rw [List.length_map, length_sorted, length]
    have length := (length_sorted (xs.map (rescale a b))).trans (by rw [List.length_map, length])
    have rank : q * n = n - (1 - q) * n := by ring
    rw [found, Option.map_some, quantile, percentileSorted_eq_some length nonneg most,
      sorted_rescale_of_neg negative, rank]
    exact interpolated.rescale.reverse low high entries

theorem floor_add_half (m : ℕ) : ⌊(m : ℚ) + 1 / 2⌋₊ = m := by
  rw [Nat.floor_eq_iff (by positivity)]
  constructor <;> linarith

theorem ceil_add_half (m : ℕ) : ⌈(m : ℚ) + 1 / 2⌉₊ = m + 1 := by
  rw [Nat.ceil_eq_iff (Nat.succ_ne_zero m)]
  push_cast
  constructor <;> linarith

/-- The median is the percentile in the middle. -/
theorem median_eq_quantile (xs : List ℚ) : median xs = quantile (1 / 2) xs := by
  rcases length : xs.length with _ | n
  · rw [List.eq_nil_of_length_eq_zero length, quantile_nil, median, sorted_nil]
    rfl
  · obtain ⟨value, found, low, high, hlow, hhigh, rfl⟩ :=
      exists_quantile (q := 1 / 2) length (by norm_num) (by norm_num)
    rw [found]
    rcases Nat.even_or_odd' n with ⟨m, rfl | rfl⟩
    · have rank : (1 / 2 : ℚ) * (2 * m : ℕ) = m := by
        push_cast
        ring
      rw [rank, Nat.floor_natCast] at hlow
      rw [median_of_odd length, hlow, rank, Nat.floor_natCast, sub_self, mul_zero, add_zero]
    · have rank : (1 / 2 : ℚ) * (2 * m + 1 : ℕ) = m + 1 / 2 := by
        push_cast
        ring
      have two : (2.0 : ℚ) = 2 := by norm_num
      rw [rank, floor_add_half] at hlow
      rw [rank, ceil_add_half] at hhigh
      rw [median_of_even length, hlow, Option.bind_some, hhigh, Option.bind_some, rank,
        floor_add_half, two]
      congr 1
      ring

theorem median_rescale (nonzero : a ≠ 0) (b : ℚ) (xs : List ℚ) :
    median (xs.map (rescale a b)) = (median xs).map (rescale a b) := by
  rw [median_eq_quantile, median_eq_quantile]
  rcases lt_or_gt_of_ne nonzero with negative | positive
  · have half : 1 - 1 / 2 = (1 / 2 : ℚ) := by norm_num
    rw [quantile_rescale_of_neg negative b (by norm_num) (by norm_num), half]
  · exact quantile_rescale_of_pos positive b (by norm_num) (by norm_num) xs

theorem flagged_map (f : ℚ → ℚ) (test : Option (ℚ → Bool)) (xs : List ℚ) :
    flagged test (xs.map f) = flagged (test.map (· ∘ f)) xs := by
  cases test with
  | none => rfl
  | some t =>
      simp only [flagged, Option.map_some, positions, List.zipIdx_map, List.filter_map,
        List.map_map]
      rfl

/-- The test whether a value is below or above a range. -/
def outside (low high x : ℚ) : Bool :=
  x < low || high < x

theorem outside_rescale_of_pos (positive : 0 < a) (b low high : ℚ) :
    outside (rescale a b low) (rescale a b high) ∘ rescale a b = outside low high := by
  funext x
  simp only [outside, Function.comp_apply, rescale_lt_of_pos positive]

theorem outside_rescale_of_neg (negative : a < 0) (b low high : ℚ) :
    outside (rescale a b high) (rescale a b low) ∘ rescale a b = outside low high := by
  funext x
  simp only [outside, Function.comp_apply, rescale_lt_of_neg negative]
  rw [Bool.or_comm]

theorem iqrTest_of_quartiles {first third : ℚ} (lower : quantile (1 / 4) xs = some first)
    (upper : quantile (3 / 4) xs = some third) (k : ℚ) :
    iqrTest k xs = some (outside (first - k * (third - first)) (third + k * (third - first))) := by
  have quarter : (0.25 : ℚ) = 1 / 4 := by norm_num
  have threeQuarters : (0.75 : ℚ) = 3 / 4 := by norm_num
  rw [← quarter] at lower
  rw [← threeQuarters] at upper
  rw [quantile] at lower upper
  rw [iqrTest, lower, upper]
  rfl

/-- The quartiles change places if the sign is turned around, and so do the edges. -/
theorem iqrTest_rescale (nonzero : a ≠ 0) (b k : ℚ) (xs : List ℚ) :
    (iqrTest k (xs.map (rescale a b))).map (· ∘ rescale a b) = iqrTest k xs := by
  rcases length : xs.length with _ | n
  · rw [List.eq_nil_of_length_eq_zero length, List.map_nil, iqrTest, sorted_nil]
    rfl
  · obtain ⟨first, lower, -⟩ := exists_quantile (q := 1 / 4) length (by norm_num) (by norm_num)
    obtain ⟨third, upper, -⟩ := exists_quantile (q := 3 / 4) length (by norm_num) (by norm_num)
    rw [iqrTest_of_quartiles lower upper]
    rcases lt_or_gt_of_ne nonzero with negative | positive
    · have lower' : quantile (1 / 4) (xs.map (rescale a b)) = some (rescale a b third) := by
        rw [quantile_rescale_of_neg negative b (by norm_num) (by norm_num),
          show 1 - 1 / 4 = (3 / 4 : ℚ) by norm_num, upper, Option.map_some]
      have upper' : quantile (3 / 4) (xs.map (rescale a b)) = some (rescale a b first) := by
        rw [quantile_rescale_of_neg negative b (by norm_num) (by norm_num),
          show 1 - 3 / 4 = (1 / 4 : ℚ) by norm_num, lower, Option.map_some]
      have low : rescale a b third - k * (rescale a b first - rescale a b third) =
          rescale a b (third + k * (third - first)) := by
        simp only [rescale]
        ring
      have high : rescale a b first + k * (rescale a b first - rescale a b third) =
          rescale a b (first - k * (third - first)) := by
        simp only [rescale]
        ring
      rw [iqrTest_of_quartiles lower' upper', low, high, Option.map_some,
        outside_rescale_of_neg negative]
    · have lower' : quantile (1 / 4) (xs.map (rescale a b)) = some (rescale a b first) := by
        rw [quantile_rescale_of_pos positive b (by norm_num) (by norm_num), lower, Option.map_some]
      have upper' : quantile (3 / 4) (xs.map (rescale a b)) = some (rescale a b third) := by
        rw [quantile_rescale_of_pos positive b (by norm_num) (by norm_num), upper, Option.map_some]
      have low : rescale a b first - k * (rescale a b third - rescale a b first) =
          rescale a b (first - k * (third - first)) := by
        simp only [rescale]
        ring
      have high : rescale a b third + k * (rescale a b third - rescale a b first) =
          rescale a b (third + k * (third - first)) := by
        simp only [rescale]
        ring
      rw [iqrTest_of_quartiles lower' upper', low, high, Option.map_some,
        outside_rescale_of_pos positive]

/-- Deviations from the median are as many times as large as the unit is fine. -/
theorem deviations_rescale (a b centre : ℚ) (xs : List ℚ) :
    (xs.map (rescale a b)).map (fun x => |x - rescale a b centre|) =
      (xs.map fun x => |x - centre|).map (rescale |a| 0) := by
  rw [List.map_map, List.map_map]
  refine List.map_congr_left fun x _ => ?_
  simp only [Function.comp_apply, rescale, add_sub_add_right_eq_sub, ← mul_sub, abs_mul, add_zero]

/-- Is a value further from a centre than a number of deviations? -/
def deviates (k centre spread x : ℚ) : Bool :=
  k < |0.6745 * (x - centre) / spread|

theorem deviates_rescale (nonzero : a ≠ 0) (b k centre spread : ℚ) :
    deviates k (rescale a b centre) (rescale |a| 0 spread) ∘ rescale a b =
      deviates k centre spread := by
  funext x
  simp only [deviates, Function.comp_apply, rescale, add_zero, add_sub_add_right_eq_sub, ← mul_sub]
  have same : |0.6745 * (a * (x - centre)) / (|a| * spread)| =
      |0.6745 * (x - centre) / spread| := by
    have size : |a| ≠ 0 := abs_ne_zero.mpr nonzero
    simp only [abs_div, abs_mul, abs_abs]
    field_simp
  rw [same]

theorem madTest_of_median {centre spread : ℚ} (middle : median xs = some centre)
    (deviation : median (xs.map fun x => |x - centre|) = some spread) (k : ℚ) :
    madTest k xs = if spread = 0 then none else some (deviates k centre spread) := by
  have deviation : median (xs.map fun x => Scalar.abs (x - centre)) = some spread := deviation
  have zero : (0.0 : ℚ) = 0 := by norm_num
  rw [madTest, middle]
  change ((median (xs.map fun x => Scalar.abs (x - centre))).bind fun spread =>
    if decide (spread = 0.0) = true then none else some (deviates k centre spread)) = _
  rw [deviation, Option.bind_some, zero]
  simp only [decide_eq_true_eq]

theorem exists_median (some : xs ≠ []) : ∃ centre, median xs = Option.some centre := by
  obtain ⟨n, length⟩ := Nat.exists_eq_succ_of_ne_zero (List.length_pos_iff.mpr some).ne'
  obtain ⟨centre, middle, -⟩ := exists_quantile (q := 1 / 2) length (by norm_num) (by norm_num)
  exact ⟨centre, (median_eq_quantile xs).trans middle⟩

theorem madTest_rescale (nonzero : a ≠ 0) (b k : ℚ) (xs : List ℚ) :
    (madTest k (xs.map (rescale a b))).map (· ∘ rescale a b) = madTest k xs := by
  by_cases empty : xs = []
  · rw [empty, List.map_nil, madTest, median, sorted_nil]
    rfl
  · obtain ⟨centre, middle⟩ := exists_median empty
    have entries : (xs.map fun x => |x - centre|) ≠ [] := by simpa using empty
    obtain ⟨spread, deviation⟩ := exists_median entries
    have size : |a| ≠ 0 := abs_ne_zero.mpr nonzero
    have middle' : median (xs.map (rescale a b)) = some (rescale a b centre) := by
      rw [median_rescale nonzero, middle, Option.map_some]
    have deviation' : median ((xs.map (rescale a b)).map fun x => |x - rescale a b centre|) =
        some (rescale |a| 0 spread) := by
      rw [deviations_rescale, median_rescale size, deviation, Option.map_some]
    have spreads : rescale |a| 0 spread = 0 ↔ spread = 0 := by
      rw [rescale, add_zero, mul_eq_zero, or_iff_right size]
    rw [madTest_of_median middle deviation, madTest_of_median middle' deviation']
    simp only [spreads]
    split
    · rfl
    · rw [Option.map_some, deviates_rescale nonzero]

/-- Outliers by quartiles and by median deviations are the same in every unit. -/
theorem flagged_rescale (nonzero : a ≠ 0) (b k : ℚ) (xs : List ℚ) :
    flagged (iqrTest k (xs.map (rescale a b))) (xs.map (rescale a b)) =
        flagged (iqrTest k xs) xs ∧
      flagged (madTest k (xs.map (rescale a b))) (xs.map (rescale a b)) =
        flagged (madTest k xs) xs := by
  rw [flagged_map, flagged_map, iqrTest_rescale nonzero, madTest_rescale nonzero]
  exact ⟨rfl, rfl⟩

/-- Four temperatures, the last one far from the others. -/
def temperatures : List ℚ :=
  [20, 21, 22, 90]

theorem sorted_temperatures : sorted temperatures = [20, 21, 22, 90] :=
  sortsApart_rat.sorted_eq (.refl _) (by decide +kernel)

theorem temperatures_outlier : flagged (iqrTest 1.5 temperatures) temperatures = [3] := by
  have lower : quantile (1 / 4) temperatures = some (83 / 4) := by
    rw [quantile, sorted_temperatures, percentileSorted_eq_some (n := 3) rfl] <;> norm_num
    exact ⟨20, 21, by norm_num, by norm_num, by norm_num⟩
  have upper : quantile (3 / 4) temperatures = some 39 := by
    rw [quantile, sorted_temperatures, percentileSorted_eq_some (n := 3) rfl] <;> norm_num
    exact ⟨22, 90, by norm_num, by norm_num, by norm_num⟩
  rw [iqrTest_of_quartiles lower upper]
  decide +kernel

/-- It is an outlier also if they are counted downwards from 100 in steps half as large. -/
theorem temperatures_rescaled : (-2 : ℚ) ≠ 0 ∧
    flagged (iqrTest 1.5 temperatures) temperatures = [3] ∧
    flagged (iqrTest 1.5 (temperatures.map (rescale (-2) 100)))
        (temperatures.map (rescale (-2) 100)) = flagged (iqrTest 1.5 temperatures) temperatures ∧
      flagged (madTest 1.5 (temperatures.map (rescale (-2) 100)))
        (temperatures.map (rescale (-2) 100)) =
          flagged (madTest 1.5 temperatures) temperatures := by
  have nonzero : (-2 : ℚ) ≠ 0 := by norm_num
  exact ⟨nonzero, temperatures_outlier, flagged_rescale nonzero 100 1.5 temperatures⟩

end Qualification.Statistics
