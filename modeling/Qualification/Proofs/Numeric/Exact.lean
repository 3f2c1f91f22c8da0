import Qualification.Proofs.Numeric.Largest
import Qualification.Proofs.Numeric.Multiple
import Qualification.Proofs.Numeric.Word

/-! # Exact values

A finite reading stands for a rational number, and readings are ordered as these are. Rounding
keeps the order and moves no reading, so an integer is rounded across no reading: one that lies
below a reading and is not below it any more when it is rounded is rounded to that very reading.
-/

namespace Qualification.Binary64

variable {a b c d : Nat} {n : Int} {s t : Bool} {x y : Float} {v w : Binary64}

/-- A quotient with a sign. -/
def signed (negative : Bool) (r : Nat × Nat) : ℚ :=
  if negative then -(r.1 / r.2 : ℚ) else r.1 / r.2

theorem quotient_nonneg (a b : Nat) : (0 : ℚ) ≤ a / b :=
  div_nonneg a.cast_nonneg b.cast_nonneg

theorem quotient_le_iff (hb : 0 < b) (hd : 0 < d) : (a / b : ℚ) ≤ c / d ↔ a * d ≤ c * b := by
  rw [div_le_div_iff₀ (Nat.cast_pos.mpr hb) (Nat.cast_pos.mpr hd)]
  norm_cast

theorem nearestBits_zero (hb : 0 < b) : nearestBits (0, b) = 0 * 2 ^ 52 + 0 :=
  nearestBits_exact hb (by simp) (by decide) (.inl rfl)

theorem Rounds.magnitude_zero (h : Rounds x s (a, b)) (hb : 0 < b) (zero : (a / b : ℚ) ≤ 0) :
    Binary64.magnitude x = 0 := by
  have none : a = 0 := by
    rw [← Nat.cast_zero, ← div_one ((0 : Nat) : ℚ), ← Nat.cast_one,
      quotient_le_iff hb Nat.one_pos] at zero
    omega
  rw [h.magnitude, none, nearestBits_zero hb, Nat.zero_mul, Nat.zero_add, Nat.zero_min]

/-- Rounding keeps the order. -/
theorem Rounds.level_le (hx : Rounds x s (a, b)) (hy : Rounds y t (c, d)) (hb : 0 < b)
    (hd : 0 < d) (less : signed s (a, b) ≤ signed t (c, d)) : level x ≤ level y := by
  have first := quotient_nonneg a b
  have second := quotient_nonneg c d
  rw [level, level, hx.sign, hy.sign]
  cases s <;> cases t <;> simp only [signed, Bool.false_eq_true, if_true, if_false] at less ⊢
  · exact Int.ofNat_le.mpr (hx.magnitude_le hy hb hd ((quotient_le_iff hb hd).mp less))
  · -- A number that is not below zero and not above it is zero.
    rw [hx.magnitude_zero hb (by linarith), hy.magnitude_zero hd (by linarith)]
    rfl
  · omega
  · have back := hy.magnitude_le hx hd hb ((quotient_le_iff hd hb).mp (neg_le_neg_iff.mp less))
    omega

/-- The rational number that a finite reading is. -/
def toRat (v : Binary64) : ℚ :=
  signed v.negative v.ratio

theorem negative_eq (value : ofFloat? x = some v) : v.negative = isNegative x := by
  rcases ofFloat?_eq_some value with ⟨-, rfl⟩ | ⟨-, -, rfl⟩ <;> rfl

theorem toRat_rounds (value : ofFloat? x = some v) : Rounds x v.negative v.ratio := by
  rw [negative_eq value]
  exact value_rounds value

theorem toRat_of_magnitude_zero (value : ofFloat? x = some v) (zero : magnitude x = 0) :
    v.toRat = 0 := by
  have none : v.significand = 0 := (significand_eq_zero value).mpr zero
  simp [toRat, signed, ratio, none]

theorem toRat_congr (hx : ofFloat? x = some v) (hy : ofFloat? y = some w)
    (same : level x = level y) : v.toRat = w.toRat := by
  have equal : x == y := (beq_iff_level (isNumber_of_isFinite (isFinite_of_value hx))
    (isNumber_of_isFinite (isFinite_of_value hy))).mpr same
  rcases eq_or_zero_of_beq equal with rfl | ⟨zero, zero'⟩
  · rw [Option.some.inj (hx.symm.trans hy)]
  · rw [toRat_of_magnitude_zero hx zero, toRat_of_magnitude_zero hy zero']

/-- Finite readings are in the order of their exact values. -/
theorem level_le_iff (hx : ofFloat? x = some v) (hy : ofFloat? y = some w) :
    level x ≤ level y ↔ v.toRat ≤ w.toRat := by
  have up := (toRat_rounds hx).level_le (toRat_rounds hy) (ratio_pos v) (ratio_pos w)
  have down := (toRat_rounds hy).level_le (toRat_rounds hx) (ratio_pos w) (ratio_pos v)
  refine ⟨fun less => ?_, up⟩
  rcases le_total v.toRat w.toRat with h | h
  · exact h
  · exact (toRat_congr hx hy (Int.le_antisymm less (down h))).le

theorem isWhole_iff_dvd : v.isWhole ↔ v.ratio.2 ∣ v.ratio.1 := by
  rw [isWhole, Bool.or_eq_true, decide_eq_true_eq, beq_iff_eq, ratio]
  rcases Int.le_total 0 v.exponent with above | below
  · have unit : (-v.exponent).toNat = 0 := by omega
    rw [unit]
    exact iff_of_true (.inl above) (one_dvd _)
  · have unit : v.exponent.toNat = 0 := by omega
    rw [unit, ← Nat.dvd_iff_mod_eq_zero, show Nat.pow 2 0 = 1 from rfl, Nat.mul_one]
    refine or_iff_right_of_imp fun above => ?_
    rw [Int.le_antisymm below above]
    exact one_dvd _

/-- A reading is whole just if it is an integer exactly. -/
theorem isWhole_iff : v.isWhole ↔ ∃ z : Int, v.toRat = z := by
  have nonzero : (v.ratio.2 : ℚ) ≠ 0 := Nat.cast_ne_zero.mpr (ratio_pos v).ne'
  rw [isWhole_iff_dvd, toRat, signed]
  constructor
  · rintro ⟨k, same⟩
    have quotient : (v.ratio.1 / v.ratio.2 : ℚ) = k := by
      rw [same, Nat.cast_mul, mul_div_cancel_left₀ _ nonzero]
    rw [quotient]
    split
    · exact ⟨-k, by push_cast; rfl⟩
    · exact ⟨k, by push_cast; rfl⟩
  · rintro ⟨z, same⟩
    obtain ⟨w, quotient⟩ : ∃ w : Int, (v.ratio.1 / v.ratio.2 : ℚ) = w := by
      split at same
      · exact ⟨-z, by push_cast; rw [← same, neg_neg]⟩
      · exact ⟨z, same⟩
    rw [div_eq_iff nonzero] at quotient
    refine Int.natCast_dvd_natCast.mp ⟨w, ?_⟩
    rw [Int.mul_comm]
    exact_mod_cast quotient

theorem signed_natAbs (n : Int) : signed (n < 0) (n.natAbs, 1) = n := by
  rw [signed, Nat.cast_one, div_one]
  rcases lt_or_ge n 0 with negative | nonneg
  · rw [decide_eq_true negative, if_pos rfl, Nat.cast_natAbs, abs_of_neg negative]
    push_cast
    ring
  · rw [decide_eq_false (not_lt.mpr nonneg), if_neg Bool.false_ne_true, Nat.cast_natAbs,
      abs_of_nonneg nonneg]

/-- An integer of at most 53 digits is not rounded. -/
theorem exists_value_ofInt (few : n.natAbs ≤ 2 ^ 53) :
    ∃ v, ofFloat? (ofInt n) = some v ∧ v.toRat = n := by
  obtain ⟨v, value, same⟩ := (ofInt_rounds n).whole few
  refine ⟨v, value, ?_⟩
  have nonzero : (v.ratio.2 : ℚ) ≠ 0 := Nat.cast_ne_zero.mpr (ratio_pos v).ne'
  rw [← signed_natAbs n, toRat, negative_eq value, (ofInt_rounds n).sign, signed, signed, same,
    Nat.cast_mul, mul_div_cancel_right₀ _ nonzero, Nat.cast_one, div_one]

/-- A number is not below a bound. Every number is above the negative infinity, and none is above
    the positive one or above what is not a number. -/
def AtLeast (low : Float) (q : ℚ) : Prop :=
  match ofFloat? low with
  | some v => v.toRat ≤ q
  | none => low < 0.0

/-- A number is not above a bound. -/
def AtMost (high : Float) (q : ℚ) : Prop :=
  match ofFloat? high with
  | some v => q ≤ v.toRat
  | none => 0.0 < high

/-- A bound that is kept is a number. -/
theorem isNumber_of_atLeast {q : ℚ} (h : AtLeast y q) : IsNumber y := by
  unfold AtLeast at h
  split at h
  · rename_i value
    exact isNumber_of_isFinite (isFinite_of_value value)
  · exact (isNumber_of_le (le_of_lt h)).1

theorem level_bounds (number : IsNumber x) :
    -(2047 * 2 ^ 52 : Int) ≤ level x ∧ level x ≤ 2047 * 2 ^ 52 := by
  rw [IsNumber] at number
  rw [level]
  split <;> omega

theorem level_of_isFinite (finite : x.isFinite) :
    -(2047 * 2 ^ 52 : Int) < level x ∧ level x < 2047 * 2 ^ 52 := by
  rw [isFinite_iff] at finite
  rw [level]
  split <;> omega

/-- Numbers that are not finite are the two infinities, on either side of all others. -/
theorem infinite_cases (number : IsNumber x) (infinite : ofFloat? x = none) :
    x < 0.0 ∧ level x = -(2047 * 2 ^ 52) ∨ 0.0 < x ∧ level x = 2047 * 2 ^ 52 := by
  have notFinite : ¬ x.isFinite := fun finite => by
    obtain ⟨v, value⟩ := exists_value finite
    rw [infinite] at value
    cases value
  rw [isFinite_iff] at notFinite
  have far : magnitude x = 2047 * 2 ^ 52 := Nat.le_antisymm number (Nat.not_lt.mp notFinite)
  have zero : level 0.0 = 0 := by decide +kernel
  rw [lt_iff_level number isNumber_zero, lt_iff_level isNumber_zero number, zero, level, far]
  cases isNegative x
  · exact .inr (by decide)
  · exact .inl (by decide)

theorem not_lt_zero_of_pos (positive : 0.0 < y) (number : IsNumber y) : ¬ y < 0.0 := by
  rw [lt_iff_level isNumber_zero number] at positive
  rw [lt_iff_level number isNumber_zero]
  omega

/-- Every number is on one side of a bound. -/
theorem atLeast_or_atMost (number : IsNumber y) (q : ℚ) : AtLeast y q ∨ AtMost y q := by
  unfold AtLeast AtMost
  cases bound : ofFloat? y with
  | some w => exact le_total w.toRat q
  | none =>
      rcases infinite_cases number bound with ⟨negative, -⟩ | ⟨positive, -⟩
      · exact .inl negative
      · exact .inr positive

/-- Rounding takes no number across a bound. -/
theorem Rounds.bounded (h : Rounds x s (a, b)) (hb : 0 < b) (number : IsNumber y) :
    (AtLeast y (signed s (a, b)) → level y ≤ level x) ∧
      (AtMost y (signed s (a, b)) → level x ≤ level y) := by
  have within := level_bounds h.isNumber
  unfold AtLeast AtMost
  cases bound : ofFloat? y with
  | some w =>
      have value := toRat_rounds bound
      exact ⟨value.level_le h (ratio_pos w) hb, h.level_le value hb (ratio_pos w)⟩
  | none =>
      rcases infinite_cases number bound with ⟨negative, least⟩ | ⟨positive, most⟩
      · refine ⟨fun _ => by omega, fun positive => ?_⟩
        exact absurd negative (not_lt_zero_of_pos positive number)
      · refine ⟨fun negative => ?_, fun _ => by omega⟩
        exact absurd negative (not_lt_zero_of_pos positive number)

/-- A finite reading that is equal to a bound is on either side of it. -/
theorem bounded_of_level_eq (value : ofFloat? x = some v) (number : IsNumber y)
    (same : level x = level y) : AtLeast y v.toRat ∧ AtMost y v.toRat := by
  have finite := level_of_isFinite (isFinite_of_value value)
  unfold AtLeast AtMost
  cases bound : ofFloat? y with
  | some w =>
      exact ⟨(level_le_iff bound value).mp same.ge, (level_le_iff value bound).mp same.le⟩
  | none => rcases infinite_cases number bound with ⟨-, infinite⟩ | ⟨-, infinite⟩ <;> omega

/-- What is not below a bound when it is rounded is not below it itself, or was rounded to it. -/
theorem Rounds.not_lt_bound_iff (h : Rounds x s (a, b)) (hb : 0 < b) (number : IsNumber y) :
    ¬ x < y ↔ AtLeast y (signed s (a, b)) ∨ x == y := by
  obtain ⟨up, down⟩ := h.bounded hb number
  rw [beq_iff_level h.isNumber number, lt_iff_level h.isNumber number, not_lt]
  refine ⟨fun above => ?_, fun above => above.elim up Eq.ge⟩
  rcases atLeast_or_atMost number (signed s (a, b)) with least | most
  · exact .inl least
  · exact .inr (Int.le_antisymm (down most) above)

/-- What is not above a bound when it is rounded is not above it itself, or was rounded to it. -/
theorem Rounds.not_bound_lt_iff (h : Rounds x s (a, b)) (hb : 0 < b) (number : IsNumber y) :
    ¬ y < x ↔ AtMost y (signed s (a, b)) ∨ x == y := by
  obtain ⟨up, down⟩ := h.bounded hb number
  rw [beq_iff_level h.isNumber number, lt_iff_level number h.isNumber, not_lt]
  refine ⟨fun below => ?_, fun below => below.elim down Eq.le⟩
  rcases atLeast_or_atMost number (signed s (a, b)) with least | most
  · exact .inr (Int.le_antisymm below (up least))
  · exact .inl most

/-- A finite reading is compared exactly. -/
theorem not_lt_bound_iff (value : ofFloat? x = some v) (number : IsNumber y) :
    ¬ x < y ↔ AtLeast y v.toRat := by
  refine ((toRat_rounds value).not_lt_bound_iff (ratio_pos v) number).trans
    (or_iff_left_of_imp fun same => ?_)
  rw [beq_iff_level (toRat_rounds value).isNumber number] at same
  exact (bounded_of_level_eq value number same).1

theorem not_bound_lt_iff (value : ofFloat? x = some v) (number : IsNumber y) :
    ¬ y < x ↔ AtMost y v.toRat := by
  refine ((toRat_rounds value).not_bound_lt_iff (ratio_pos v) number).trans
    (or_iff_left_of_imp fun same => ?_)
  rw [beq_iff_level (toRat_rounds value).isNumber number] at same
  exact (bounded_of_level_eq value number same).2

/-- An integer of more than 53 digits whose nearest reading is a given one. -/
def RoundedTo (n : Int) (x : Float) : Prop :=
  2 ^ 53 < n.natAbs ∧ ofInt n == x

/-- An integer is compared exactly, unless it is rounded to the bound itself. -/
theorem not_ofInt_lt_iff (number : IsNumber y) :
    ¬ ofInt n < y ↔ AtLeast y n ∨ RoundedTo n y := by
  rcases Nat.lt_or_ge (2 ^ 53) n.natAbs with many | few
  · have rounded := (ofInt_rounds n).not_lt_bound_iff Nat.one_pos number
    rw [signed_natAbs] at rounded
    exact rounded.trans (or_congr_right (iff_and_self.mpr fun _ => many))
  · obtain ⟨v, value, exact⟩ := exists_value_ofInt few
    rw [not_lt_bound_iff value number, exact]
    exact (or_iff_left fun rounded => Nat.not_lt.mpr few rounded.1).symm

theorem not_lt_ofInt_iff (number : IsNumber y) :
    ¬ y < ofInt n ↔ AtMost y n ∨ RoundedTo n y := by
  rcases Nat.lt_or_ge (2 ^ 53) n.natAbs with many | few
  · have rounded := (ofInt_rounds n).not_bound_lt_iff Nat.one_pos number
    rw [signed_natAbs] at rounded
    exact rounded.trans (or_congr_right (iff_and_self.mpr fun _ => many))
  · obtain ⟨v, value, exact⟩ := exists_value_ofInt few
    rw [not_bound_lt_iff value number, exact]
    exact (or_iff_left fun rounded => Nat.not_lt.mpr few rounded.1).symm

/-- Readings from `2 ^ 53` on are whole, so that an integer that fits a word stays one. -/
theorem exists_whole_ofInt (held : Word.holds 64 n) :
    ∃ v, ofFloat? (ofInt n) = some v ∧ v.isWhole := by
  rcases Nat.lt_or_ge (2 ^ 53) n.natAbs with many | few
  · have bounds := Word.holds_iff.mp held
    have least := nearestBits_mono (a := 2 ^ 53) (b := 1) (c := n.natAbs) (d := 1)
      Nat.one_pos Nat.one_pos (by omega)
    have most := nearestBits_mono (a := n.natAbs) (b := 1) (c := 2 ^ 64) (d := 1)
      Nat.one_pos Nat.one_pos (by omega)
    have first : nearestBits (2 ^ 53, 1) = 1076 * 2 ^ 52 := by decide +kernel
    have last : nearestBits (2 ^ 64, 1) = 1087 * 2 ^ 52 := by decide +kernel
    have bits := (ofInt_rounds n).magnitude
    rw [first] at least
    rw [last] at most
    obtain ⟨v, value⟩ := exists_value (x := ofInt n) (isFinite_iff.mpr (by omega))
    refine ⟨v, value, ?_⟩
    rcases ofFloat?_eq_some value with ⟨small, -⟩ | ⟨-, -, rfl⟩
    · omega
    · exact Bool.or_eq_true_iff.mpr (.inl (decide_eq_true (by dsimp only; omega)))
  · obtain ⟨v, value, exact⟩ := exists_value_ofInt few
    exact ⟨v, value, isWhole_iff.mpr ⟨n, exact⟩⟩

end Qualification.Binary64
