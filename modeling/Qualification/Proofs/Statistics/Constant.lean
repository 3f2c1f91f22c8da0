import Qualification.Proofs.Numeric.Multiple
import Qualification.Proofs.Numeric.Vanishing
import Qualification.Proofs.Statistics.Sorted

/-! # Series of equal values

The quartiles of equal values are the value itself, so nothing lies beyond them. Neither does
anything deviate from the median: twice the value is halved to it, or is infinite. The mean is the
value only as far as no sum was rounded; where one was, the distance of the value from its own mean
is taken for a spread.
-/

namespace Qualification.Statistics

open Binary64 Scalar

variable {i j n : Nat} {k q v x y : Float} {m : Int}

theorem sorted_replicate (n : Nat) (x : Float) :
    sorted (List.replicate n x) = List.replicate n x := by
  refine sortsApart_float.sorted_eq (.refl _) (List.pairwise_replicate.mpr (.inr ?_))
  have total := totalLe_total x x
  rwa [Bool.or_self] at total

theorem eq_of_getElem?_replicate (h : (List.replicate n x)[i]? = some y) : y = x :=
  List.eq_of_mem_replicate (List.mem_of_getElem? h)

theorem near_percentileSorted (h : percentileSorted (List.replicate n x) q = some y) :
    Near x y := by
  unfold percentileSorted at h
  split at h
  · cases h
  · obtain ⟨low, hlow, behind⟩ := Option.bind_eq_some_iff.mp h
    obtain ⟨high, hhigh, value⟩ := Option.bind_eq_some_iff.mp behind
    have value := Option.some.inj value
    rw [eq_of_getElem?_replicate hlow, eq_of_getElem?_replicate hhigh] at value
    rw [← value]
    exact ((vanishes_sub_self x).mul_right _).near_add x

/-- The middle values are the value itself. -/
theorem median_replicate (h : median (List.replicate n x) = some y) :
    y = x ∨ y = (x + x) / 2.0 := by
  rcases Nat.even_or_odd' n with ⟨m, rfl | rfl⟩
  · rcases m with _ | m
    · rw [median, sorted_replicate] at h
      cases h
    · rw [median_of_even (m := m) (by rw [List.length_replicate]; omega), sorted_replicate] at h
      obtain ⟨low, hlow, behind⟩ := Option.bind_eq_some_iff.mp h
      obtain ⟨high, hhigh, mean⟩ := Option.bind_eq_some_iff.mp behind
      have mean := Option.some.inj mean
      rw [eq_of_getElem?_replicate hlow, eq_of_getElem?_replicate hhigh] at mean
      exact .inr mean.symm
  · rw [median_of_odd List.length_replicate, sorted_replicate] at h
    exact .inl (eq_of_getElem?_replicate h)

theorem vanishes_median (vanishing : Vanishes x) (h : median (List.replicate n x) = some y) :
    Vanishes y := by
  rcases median_replicate h with rfl | rfl
  · exact vanishing
  · exact (vanishing.add vanishing).div _

theorem not_isFinite_median (infinite : ¬ x.isFinite)
    (h : median (List.replicate n x) = some y) : ¬ y.isFinite := by
  rcases median_replicate h with rfl | rfl
  · exact infinite
  · exact not_isFinite_div (not_isFinite_add infinite _) _

theorem median_exact_or_infinite (finite : x.isFinite)
    (h : median (List.replicate n x) = some y) : y = x ∨ ¬ y.isFinite := by
  rcases median_replicate h with same | rfl
  · exact .inl same
  · exact (double_half finite).imp_right fun infinite => not_isFinite_div infinite _

theorem flagged_eq_nil {test : Option (Float → Bool)} (quiet : ∀ t, test = some t → t v = false) :
    flagged test (List.replicate n v) = [] := by
  refine List.eq_nil_iff_forall_not_mem.mpr fun i member => ?_
  obtain ⟨t, present, x, found, picked⟩ := mem_flagged.mp member
  rw [eq_of_getElem?_replicate found, quiet t present] at picked
  cases picked

/-- A test picks all of the equal values or none of them. -/
theorem flagged_replicate (test : Option (Float → Bool)) (n : Nat) (v : Float) :
    flagged test (List.replicate n v) = [] ∨
      flagged test (List.replicate n v) = List.range n := by
  cases test with
  | none => exact .inl rfl
  | some t =>
      cases picked : t v with
      | false => exact .inl (flagged_eq_nil fun t' same => by rw [← Option.some.inj same, picked])
      | true =>
          right
          have all : ∀ p ∈ (List.replicate n v).zipIdx, t p.1 = true := by
            intro p member
            rw [eq_of_getElem?_replicate (List.mem_zipIdx_iff_getElem?.mp member), picked]
          rw [flagged, positions, List.filter_eq_self.mpr all, List.zipIdx_map_snd,
            List.length_replicate, List.range_eq_range']

theorem iqr_replicate (k : Float) (n : Nat) (v : Float) :
    detectOutliers (List.replicate n v) (.iqr k) = [] := by
  refine flagged_eq_nil fun t present => ?_
  rw [iqrTest, sorted_replicate] at present
  obtain ⟨first, lower, present⟩ := Option.bind_eq_some_iff.mp present
  obtain ⟨third, upper, present⟩ := Option.bind_eq_some_iff.mp present
  obtain rfl := Option.some.inj present
  have first_near := near_percentileSorted lower
  have third_near := near_percentileSorted upper
  have spread := (third_near.vanishes_sub first_near).mul_left k
  have low := first_near.trans (spread.near_sub first)
  have high := third_near.trans (spread.near_add third)
  change (decide _ || decide _) = false
  rw [decide_eq_false low.not_lt.1, decide_eq_false high.not_lt.2]
  rfl

theorem mad_replicate (finite : v.isFinite) (k : Float) (n : Nat) :
    detectOutliers (List.replicate n v) (.mad k) = [] := by
  refine flagged_eq_nil fun t present => ?_
  rw [madTest] at present
  obtain ⟨centre, middle, present⟩ := Option.bind_eq_some_iff.mp present
  rw [List.map_replicate] at present
  obtain ⟨spread, deviations, present⟩ := Option.bind_eq_some_iff.mp present
  split at present
  · cases present
  · rename_i notZero
    obtain rfl := Option.some.inj present
    change decide (k < (madScale * (v - centre) / spread).abs) = false
    refine decide_eq_false fun less => ?_
    refine not_isNumber_abs ?_ (isNumber_of_le (le_of_lt less)).2
    -- An infinite median has infinite deviations, and their quotients are not numbers.
    rcases median_exact_or_infinite finite middle with rfl | infinite
    · have vanishing := vanishes_median (vanishes_sub_self centre).abs deviations
      exact not_isNumber_div_right (fun number => notZero (vanishing.beq_zero number)) _
    · have deviation := not_isFinite_sub infinite v
      exact not_isNumber_div (not_isFinite_mul deviation _)
        (not_isFinite_median (not_isFinite_abs deviation) deviations)

theorem vanishes_sum {ys : List Float} (all : ∀ y ∈ ys, Vanishes y) : Vanishes (sum ys) := by
  have start : Vanishes (-0.0) := vanishes_iff.mpr (.inr (by decide +kernel))
  exact List.foldlRecOn ys _ start fun total sums y member => sums.add (all y member)

theorem zScore_replicate (centred : mean (List.replicate n v) = some v) (k : Float) :
    detectOutliers (List.replicate n v) (.zScore k) = [] := by
  refine flagged_eq_nil fun t present => ?_
  rw [zScoreTest, centred, populationDeviation, populationVariance, centred] at present
  obtain ⟨centre, same, present⟩ := Option.bind_eq_some_iff.mp present
  obtain rfl := Option.some.inj same
  obtain ⟨deviation, spread, present⟩ := Option.bind_eq_some_iff.mp present
  split at present
  · cases present
  · rename_i notZero
    obtain rfl := Option.some.inj present
    have vanishing : Vanishes deviation := by
      rw [← Option.some.inj spread]
      refine .sqrt (.div (vanishes_sum fun y member => ?_) _)
      rw [List.map_replicate] at member
      rw [List.eq_of_mem_replicate member]
      exact (vanishes_sub_self v).mul_left _
    refine decide_eq_false fun less => ?_
    exact not_isNumber_div_right (fun number => notZero (vanishing.beq_zero number)) _
      (isNumber_of_le (le_of_lt less)).2

/-- As long as every sum is a reading, nothing is rounded. -/
theorem foldl_add_replicate (reach : ∀ i ≤ j + n, ∃ y, IsMultiple i v y)
    (h : IsMultiple j v x) : IsMultiple (j + n) v ((List.replicate n v).foldl (· + ·) x) := by
  induction n generalizing j x with
  | zero => exact h
  | succ n ih =>
      obtain ⟨y, next⟩ := reach (j + 1) (by omega)
      rw [List.replicate_succ, List.foldl_cons, h.add next]
      have further := ih (j := j + 1) (fun i most => reach i (by omega)) next
      rwa [Nat.add_right_comm, Nat.add_assoc] at further

theorem mean_replicate (finite : v.isFinite) (some : 0 < n) (few : n ≤ 2 ^ 53)
    (reach : ∀ i ≤ n, ∃ y, IsMultiple i v y) : mean (List.replicate n v) = .some v := by
  obtain ⟨n, rfl⟩ := Nat.exists_eq_add_of_le some
  have once : IsMultiple 1 v v := by
    obtain ⟨w, value⟩ := exists_value finite
    exact ⟨rfl, w, w, value, value, by rw [Nat.one_mul]⟩
  have total := foldl_add_replicate reach once
  have start : sum (List.replicate (1 + n) v) = (List.replicate n v).foldl (· + ·) v := by
    rw [Nat.add_comm, List.replicate_succ, sum, List.foldl_cons]
    change (List.replicate n v).foldl (· + ·) (-0.0 + v) = _
    rw [negZero_add]
  have entries : (List.replicate (1 + n) v).isEmpty = false := by
    rw [Nat.add_comm]
    rfl
  rw [mean, entries, if_neg Bool.false_ne_true, start, List.length_replicate]
  exact congrArg _ (total.div some few)

/-- Equal values have no outliers by quartiles and by median deviations. By standard scores they
    all are or none is, and none is unless their mean was rounded. -/
structure ScreensConstant (v : Float) (n : Nat) : Prop where
  quartiles : ∀ k, detectOutliers (List.replicate n v) (.iqr k) = []
  deviations : ∀ k, detectOutliers (List.replicate n v) (.mad k) = []
  scores : ∀ k, detectOutliers (List.replicate n v) (.zScore k) = [] ∨
    detectOutliers (List.replicate n v) (.zScore k) = List.range n
  centred : mean (List.replicate n v) = some v →
    ∀ method, detectOutliers (List.replicate n v) method = []
  /-- Nothing is rounded where every multiple of the value is a reading. -/
  multiples : n ≤ 2 ^ 53 → (∀ i ≤ n, ∃ y, IsMultiple i v y) →
    ∀ method, detectOutliers (List.replicate n v) method = []
  whole : n ≤ 2 ^ 53 → ∀ m, v = ofInt m → n * m.natAbs ≤ 2 ^ 53 →
    ∀ method, detectOutliers (List.replicate n v) method = []

theorem quiet_of_mean (finite : v.isFinite) (centred : mean (List.replicate n v) = some v) :
    ∀ method, detectOutliers (List.replicate n v) method = []
  | .iqr k => iqr_replicate k n v
  | .mad k => mad_replicate finite k n
  | .zScore k => zScore_replicate centred k

theorem quiet_of_multiples (finite : v.isFinite) (few : n ≤ 2 ^ 53)
    (reach : ∀ i ≤ n, ∃ y, IsMultiple i v y) (method : OutlierMethod Float) :
    detectOutliers (List.replicate n v) method = [] := by
  rcases Nat.eq_zero_or_pos n with rfl | some
  · exact detectOutliers_nil method
  · exact quiet_of_mean finite (mean_replicate finite some few reach) method

theorem screens_constant (finite : v.isFinite) (n : Nat) : ScreensConstant v n where
  quartiles k := iqr_replicate k n v
  deviations k := mad_replicate finite k n
  scores k := flagged_replicate _ n v
  centred := quiet_of_mean finite
  multiples := quiet_of_multiples finite
  whole few m same small := by
    rcases Nat.eq_zero_or_pos n with rfl | some
    · exact detectOutliers_nil
    · refine quiet_of_multiples finite few fun i most => ?_
      rw [same]
      exact exists_multiple_ofInt (Nat.le_trans (Nat.le_mul_of_pos_left _ some) small)
        (Nat.le_trans (Nat.mul_le_mul_right _ most) small)

theorem tenths_screened : (0.1 : Float).isFinite ∧ ScreensConstant 0.1 3 :=
  have finite : (0.1 : Float).isFinite := by decide +kernel
  ⟨finite, screens_constant finite 3⟩

/-- The sum of three tenths is rounded up, and the mean is above each of them. -/
theorem tenths_flagged : (0.1 : Float).isFinite ∧ (0.5 : Float).isFinite ∧ (0.0 : Float) < 0.5 ∧
    mean (List.replicate 3 (0.1 : Float)) ≠ some 0.1 ∧
    detectOutliers (List.replicate 3 0.1) (.zScore 0.5) = [0, 1, 2] := by
  decide +kernel

end Qualification.Statistics
