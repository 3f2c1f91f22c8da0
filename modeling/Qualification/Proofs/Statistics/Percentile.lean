import Qualification.Proofs.Statistics.Units

/-! # Percentiles of sorted values

Read over exact rationals, a percentile of sorted values lies between the two of them that are
closest to its rank. It grows with the rank, from the first value to the last, and is the median
half way. Raising values lowers no percentile.
-/

namespace Qualification.Statistics

variable {p q rank rank' value x y : ℚ} {s t : List ℚ} {i j n : ℕ}

theorem le_of_positions (ordered : s.Pairwise (· ≤ ·)) (before : i ≤ j) (first : s[i]? = some x)
    (next : s[j]? = some y) : x ≤ y := by
  obtain ⟨_, rfl⟩ := List.getElem?_eq_some_iff.mp first
  obtain ⟨_, rfl⟩ := List.getElem?_eq_some_iff.mp next
  rcases Nat.eq_or_lt_of_le before with rfl | before
  · exact le_refl _
  · exact List.pairwise_iff_getElem.mp ordered i j _ _ before

theorem sorted_of_pairwise (ordered : s.Pairwise (· ≤ ·)) : sorted s = s :=
  sortsApart_rat.sorted_eq (.refl _) (ordered.imp fun less => decide_eq_true less)

theorem floor_fraction (nonneg : 0 ≤ rank) : 0 ≤ rank - ⌊rank⌋₊ ∧ rank - ⌊rank⌋₊ ≤ 1 := by
  have below := Nat.floor_le nonneg
  have above := Nat.lt_floor_add_one rank
  constructor <;> linarith

/-- An interpolated value lies between the values that it is interpolated from. -/
theorem Interpolates.between (h : Interpolates s rank value) (ordered : s.Pairwise (· ≤ ·))
    (nonneg : 0 ≤ rank) : ∃ low high, s[⌊rank⌋₊]? = some low ∧ s[⌈rank⌉₊]? = some high ∧
      value = low + (high - low) * (rank - ⌊rank⌋₊) ∧ low ≤ value ∧ value ≤ high := by
  obtain ⟨low, high, hlow, hhigh, rfl⟩ := h
  obtain ⟨least, most⟩ := floor_fraction nonneg
  have rise : 0 ≤ high - low :=
    sub_nonneg.mpr (le_of_positions ordered (Nat.floor_le_ceil rank) hlow hhigh)
  have part : (high - low) * (rank - ⌊rank⌋₊) ≤ high - low := mul_le_of_le_one_right rise most
  refine ⟨low, high, hlow, hhigh, rfl, ?_, ?_⟩
  · exact le_add_of_nonneg_right (mul_nonneg rise least)
  · linarith

/-- A greater rank has no smaller value. -/
theorem Interpolates.mono (hx : Interpolates s rank x) (hy : Interpolates s rank' y)
    (ordered : s.Pairwise (· ≤ ·)) (nonneg : 0 ≤ rank) (less : rank ≤ rank') : x ≤ y := by
  rcases Nat.lt_or_ge ⌊rank'⌋₊ ⌈rank⌉₊ with same | apart
  · -- Both ranks lie between the same two positions.
    have floors := Nat.floor_mono less
    have ceilings := Nat.ceil_mono less
    have next := Nat.ceil_le_floor_add_one rank
    have next' := Nat.ceil_le_floor_add_one rank'
    have floor : ⌊rank'⌋₊ = ⌊rank⌋₊ := by omega
    have ceiling : ⌈rank'⌉₊ = ⌈rank⌉₊ := by omega
    obtain ⟨low, high, hlow, hhigh, rfl⟩ := hx
    obtain ⟨low', high', hlow', hhigh', rfl⟩ := hy
    rw [floor] at hlow' ⊢
    rw [ceiling] at hhigh'
    obtain rfl : low = low' := Option.some.inj (hlow.symm.trans hlow')
    obtain rfl : high = high' := Option.some.inj (hhigh.symm.trans hhigh')
    have rise : 0 ≤ high - low :=
      sub_nonneg.mpr (le_of_positions ordered (Nat.floor_le_ceil rank) hlow hhigh)
    gcongr
  · obtain ⟨_, high, _, hhigh, _, _, below⟩ := hx.between ordered nonneg
    obtain ⟨low, _, hlow, _, _, above, _⟩ := hy.between ordered (nonneg.trans less)
    exact below.trans ((le_of_positions ordered apart hhigh hlow).trans above)

/-- Greater values have no smaller value at a rank. -/
theorem Interpolates.raised (hx : Interpolates s rank x) (hy : Interpolates t rank y)
    (raised : List.Forall₂ (· ≤ ·) s t) (nonneg : 0 ≤ rank) : x ≤ y := by
  obtain ⟨low, high, hlow, hhigh, rfl⟩ := hx
  obtain ⟨low', high', hlow', hhigh', rfl⟩ := hy
  obtain ⟨least, most⟩ := floor_fraction nonneg
  have at_position {i : ℕ} {x y : ℚ} (first : s[i]? = some x) (second : t[i]? = some y) :
      x ≤ y := by
    obtain ⟨_, rfl⟩ := List.getElem?_eq_some_iff.mp first
    obtain ⟨_, rfl⟩ := List.getElem?_eq_some_iff.mp second
    exact raised.get _ _
  generalize rank - ⌊rank⌋₊ = part at least most
  have lower : low * (1 - part) ≤ low' * (1 - part) :=
    mul_le_mul_of_nonneg_right (at_position hlow hlow') (sub_nonneg.mpr most)
  have upper : high * part ≤ high' * part :=
    mul_le_mul_of_nonneg_right (at_position hhigh hhigh') least
  calc low + (high - low) * part
    _ = low * (1 - part) + high * part := by ring
    _ ≤ low' * (1 - part) + high' * part := add_le_add lower upper
    _ = low' + (high' - low') * part := by ring

/-- The rank of a percentile, which counts the values from zero. -/
def rankAt (q : ℚ) (s : List ℚ) : ℚ :=
  q * (s.length - 1 : ℕ)

theorem rankAt_nonneg (nonneg : 0 ≤ q) (s : List ℚ) : 0 ≤ rankAt q s :=
  mul_nonneg nonneg (Nat.cast_nonneg _)

theorem rankAt_mono (less : p ≤ q) (s : List ℚ) : rankAt p s ≤ rankAt q s :=
  mul_le_mul_of_nonneg_right less (Nat.cast_nonneg _)

theorem length_eq_succ (some : s ≠ []) : s.length = s.length - 1 + 1 :=
  (Nat.succ_pred_eq_of_pos (List.length_pos_iff.mpr some)).symm

theorem percentileSorted_eq_none (outside : s = [] ∨ q < 0 ∨ 1 < q) :
    percentileSorted s q = none := by
  rcases outside with rfl | outside
  · rfl
  · have refused : (Scalar.le (0.0 : ℚ) q && Scalar.le q (1.0 : ℚ)) = false := by
      simp only [Scalar.le, Bool.and_eq_false_iff, decide_eq_false_iff_not, not_le]
      norm_num [outside]
    rw [percentileSorted, refused, Bool.not_false, Bool.or_true, if_pos rfl]
    rfl

theorem percentileSorted_eq_some_iff : percentileSorted s q = some value ↔
    s ≠ [] ∧ (0 ≤ q ∧ q ≤ 1) ∧ Interpolates s (rankAt q s) value := by
  constructor
  · intro h
    have inside : ¬ (s = [] ∨ q < 0 ∨ 1 < q) := fun outside => by
      rw [percentileSorted_eq_none outside] at h
      cases h
    push Not at inside
    obtain ⟨entries, nonneg, most⟩ := inside
    exact ⟨entries, ⟨nonneg, most⟩,
      (percentileSorted_eq_some (length_eq_succ entries) nonneg most).mp h⟩
  · rintro ⟨entries, ⟨nonneg, most⟩, interpolates⟩
    exact (percentileSorted_eq_some (length_eq_succ entries) nonneg most).mpr interpolates

theorem exists_percentile (entries : s ≠ []) (nonneg : 0 ≤ q) (most : q ≤ 1) :
    ∃ value, percentileSorted s q = some value := by
  obtain ⟨value, interpolates⟩ :=
    exists_interpolates (rank_bounds nonneg most _).2 (length_eq_succ entries)
  exact ⟨value, percentileSorted_eq_some_iff.mpr ⟨entries, ⟨nonneg, most⟩, interpolates⟩⟩

/-- Where the rank is a position, nothing is interpolated. -/
theorem percentileSorted_of_rank (nonneg : 0 ≤ q) (most : q ≤ 1) (rank : rankAt q s = i)
    (inside : i < s.length) : percentileSorted s q = s[i]? := by
  have found := List.getElem?_eq_getElem inside
  rw [found, percentileSorted_eq_some_iff, rank]
  refine ⟨List.ne_nil_of_length_pos (Nat.zero_lt_of_lt inside), ⟨nonneg, most⟩, s[i], s[i], ?_⟩
  rw [Nat.floor_natCast, Nat.ceil_natCast, sub_self, zero_mul, add_zero]
  exact ⟨found, found, rfl⟩

theorem percentileSorted_zero (s : List ℚ) : percentileSorted s 0 = s.head? := by
  rw [List.head?_eq_getElem?]
  rcases eq_or_ne s [] with rfl | entries
  · rfl
  · have rank : rankAt 0 s = (0 : ℕ) := by rw [rankAt, zero_mul, Nat.cast_zero]
    exact percentileSorted_of_rank le_rfl zero_le_one rank (List.length_pos_iff.mpr entries)

theorem percentileSorted_one (s : List ℚ) : percentileSorted s 1 = s.getLast? := by
  rw [List.getLast?_eq_getElem?]
  rcases eq_or_ne s [] with rfl | entries
  · rfl
  · have rank : rankAt 1 s = (s.length - 1 : ℕ) := one_mul _
    exact percentileSorted_of_rank zero_le_one le_rfl rank
      (Nat.sub_one_lt_of_lt (List.length_pos_iff.mpr entries))

theorem percentile_mono (ordered : s.Pairwise (· ≤ ·)) (less : p ≤ q)
    (hx : percentileSorted s p = some x) (hy : percentileSorted s q = some y) : x ≤ y := by
  obtain ⟨_, ⟨nonneg, _⟩, first⟩ := percentileSorted_eq_some_iff.mp hx
  obtain ⟨_, _, second⟩ := percentileSorted_eq_some_iff.mp hy
  exact first.mono second ordered (rankAt_nonneg nonneg s) (rankAt_mono less s)

/-- The percentiles of sorted values. -/
structure Percentiles (s : List ℚ) : Prop where
  /-- Each is interpolated from two values of the list and lies between them. -/
  between : ∀ q, 0 ≤ q → q ≤ 1 → ∃ value low high, percentileSorted s q = some value ∧
    s[⌊rankAt q s⌋₊]? = some low ∧ s[⌈rankAt q s⌉₊]? = some high ∧
      value = low + (high - low) * (rankAt q s - ⌊rankAt q s⌋₊) ∧ low ≤ value ∧ value ≤ high
  /-- They lie between the first value and the last. -/
  bounded : ∀ q value first last, percentileSorted s q = some value → s.head? = some first →
    s.getLast? = some last → first ≤ value ∧ value ≤ last
  mono : ∀ p q x y, p ≤ q → percentileSorted s p = some x → percentileSorted s q = some y → x ≤ y
  first : percentileSorted s 0 = s.head?
  last : percentileSorted s 1 = s.getLast?
  middle : percentileSorted s (1 / 2) = median s
  /-- If values are raised, no percentile is lowered. -/
  raised : ∀ t, List.Forall₂ (· ≤ ·) s t → ∀ q x,
    percentileSorted s q = some x → ∃ y, percentileSorted t q = some y ∧ x ≤ y

/-- A list that is not empty has a percentile wherever one can be, and no list has others. -/
theorem percentileSorted_spans (s : List ℚ) :
    (∀ q, s = [] ∨ q < 0 ∨ 1 < q → percentileSorted s q = none) ∧
      (s ≠ [] → s.Pairwise (· ≤ ·) → Percentiles s) := by
  refine ⟨fun q => percentileSorted_eq_none, fun entries ordered => ?_⟩
  constructor
  · intro q nonneg most
    obtain ⟨value, found⟩ := exists_percentile entries nonneg most
    obtain ⟨_, _, interpolates⟩ := percentileSorted_eq_some_iff.mp found
    have between := interpolates.between ordered (rankAt_nonneg nonneg s)
    obtain ⟨low, high, hlow, hhigh, same, bounds⟩ := between
    exact ⟨value, low, high, found, hlow, hhigh, same, bounds⟩
  · intro q value first last found head getLast
    obtain ⟨_, ⟨nonneg, most⟩, _⟩ := percentileSorted_eq_some_iff.mp found
    rw [← percentileSorted_zero] at head
    rw [← percentileSorted_one] at getLast
    exact ⟨percentile_mono ordered nonneg head found, percentile_mono ordered most found getLast⟩
  · exact fun p q x y => percentile_mono ordered
  · exact percentileSorted_zero s
  · exact percentileSorted_one s
  · rw [median_eq_quantile, quantile, sorted_of_pairwise ordered]
  · intro t raised q x found
    obtain ⟨_, ⟨nonneg, most⟩, first⟩ := percentileSorted_eq_some_iff.mp found
    have length := raised.length_eq
    have entries' : t ≠ [] := by
      rw [← List.length_pos_iff, ← length]
      exact List.length_pos_iff.mpr entries
    have rank : rankAt q t = rankAt q s := by rw [rankAt, rankAt, length]
    obtain ⟨y, found'⟩ := exists_percentile entries' nonneg most
    obtain ⟨_, _, second⟩ := percentileSorted_eq_some_iff.mp found'
    rw [rank] at second
    exact ⟨y, found', first.raised second raised (rankAt_nonneg nonneg s)⟩

/-- The lower quartile of four temperatures lies three quarters of the way to the second one. -/
theorem temperatures_span : temperatures ≠ [] ∧ temperatures.Pairwise (· ≤ ·) ∧
    percentileSorted temperatures (1 / 4) = some (20 + (21 - 20) * (3 / 4)) ∧
    Percentiles temperatures ∧ percentileSorted temperatures (5 / 4) = none := by
  have entries : temperatures ≠ [] := List.cons_ne_nil _ _
  have ordered : temperatures.Pairwise (· ≤ ·) := by decide +kernel
  obtain ⟨outside, inside⟩ := percentileSorted_spans temperatures
  exact ⟨entries, ordered, by decide +kernel, inside entries ordered,
    outside (5 / 4) (.inr (.inr (by norm_num)))⟩

end Qualification.Statistics
