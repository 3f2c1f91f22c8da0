import Qualification.Proofs.Numeric.Quotient

/-! # Multiples of a reading

A quotient that has no more digits than a reading, and is not too large, is a reading. So counts
up to `2 ^ 53` are, and operations whose results are readings are exact: a reading is added to
its multiple, and its multiple divided by a count, with nothing lost.
-/

namespace Qualification.Binary64

variable {a b k m n s : Nat} {x y z : Float} {v w : Binary64} {negative : Bool}

/-- A significand with few digits is doubled until it has all of them, or the unit is the least. -/
theorem exists_digits (few : s ≤ 2 ^ 53) (k : Nat) :
    ∃ t l, s * 2 ^ k = t * 2 ^ l ∧ t < 2 ^ 53 ∧ (l = 0 ∨ 2 ^ 52 ≤ t) := by
  induction k generalizing s with
  | zero =>
      rcases Nat.eq_or_lt_of_le few with rfl | fewer
      · exact ⟨2 ^ 52, 1, rfl, by decide, .inr (Nat.le_refl _)⟩
      · exact ⟨s, 0, rfl, fewer, .inl rfl⟩
  | succ k ih =>
      rcases Nat.eq_or_lt_of_le few with rfl | fewer
      · exact ⟨2 ^ 52, k + 2, by ring, by decide, .inr (Nat.le_refl _)⟩
      · by_cases full : 2 ^ 52 ≤ s
        · exact ⟨s, k + 1, rfl, fewer, .inr full⟩
        · have shifted : s * 2 ^ (k + 1) = 2 * s * 2 ^ k := by ring
          rw [shifted]
          exact ih (by omega)

theorem lt_of_units (full : 2 ^ 52 ≤ s) (below : s * 2 ^ k < 2 ^ (1024 + leastPlace)) :
    k < 2046 := by
  have least : 2 ^ (52 + k) ≤ s * 2 ^ k := by
    rw [Nat.pow_add]
    exact Nat.mul_le_mul_right _ full
  have less := (Nat.pow_lt_pow_iff_right (by decide)).mp (Nat.lt_of_le_of_lt least below)
  rw [leastPlace] at less
  omega

theorem value_of_magnitude (parts : magnitude x = k * 2 ^ 52 + s) (small : s < 2 ^ 53)
    (full : k = 0 ∨ 2 ^ 52 ≤ s) (below : k < 2046) :
    ofFloat? x = some ⟨isNegative x, s, k - 1074⟩ := by
  have finite : x.isFinite := isFinite_iff.mpr (by omega)
  obtain ⟨v, value⟩ := exists_value finite
  rw [value]
  rcases ofFloat?_eq_some value with ⟨subnormal, rfl⟩ | ⟨normal, _, rfl⟩
  · have significand : magnitude x = s := by omega
    have exponent : (-1074 : Int) = k - 1074 := by omega
    rw [significand, exponent]
  · have significand : magnitude x % 2 ^ 52 + 2 ^ 52 = s := by omega
    have exponent : ((magnitude x / 2 ^ 52 : Nat) : Int) - 1075 = k - 1074 := by omega
    rw [significand, exponent]

/-- Nothing is lost of a quotient with few digits. -/
theorem Rounds.value (h : Rounds x negative (a, b)) (positive : 0 < b)
    (units : a * unitsInOne = s * 2 ^ k * b) (few : s ≤ 2 ^ 53)
    (below : s * 2 ^ k < 2 ^ (1024 + leastPlace)) :
    ∃ v, ofFloat? x = some v ∧ v.ratio.1 * b = a * v.ratio.2 := by
  obtain ⟨t, l, same, small, full⟩ := exists_digits few k
  rw [same] at units below
  have fits : l < 2046 := full.elim (by omega) fun digits => lt_of_units digits below
  have bits : Binary64.magnitude x = l * 2 ^ 52 + t := by
    rw [h.magnitude, nearestBits_exact positive units small full]
    omega
  refine ⟨_, value_of_magnitude bits small full fits, ?_⟩
  have split := two_pow_split (e := l - 1074) (n := l) (Int.sub_add_cancel _ _)
  refine Nat.eq_of_mul_eq_mul_right (Nat.two_pow_pos leastPlace) ?_
  rw [← unitsInOne_eq]
  dsimp only [ratio]
  calc t * Nat.pow 2 ((l : Int) - 1074).toNat * b * unitsInOne
    _ = t * b * (Nat.pow 2 ((l : Int) - 1074).toNat * unitsInOne) := by ring
    _ = t * 2 ^ l * b * Nat.pow 2 (-((l : Int) - 1074)).toNat := by rw [split]; ring
    _ = a * Nat.pow 2 (-((l : Int) - 1074)).toNat * unitsInOne := by rw [← units]; ring

theorem Rounds.infinite (h : Rounds x negative (a, b))
    (large : 2 ^ (1024 + leastPlace) ≤ a * unitsInOne / b) : ¬ x.isFinite := by
  have some : a * unitsInOne / b ≠ 0 :=
    Nat.ne_of_gt (Nat.lt_of_lt_of_le (Nat.two_pow_pos _) large)
  have digits : 1024 + leastPlace ≤ (a * unitsInOne / b).log2 := (Nat.le_log2 some).mpr large
  rw [leastPlace] at digits
  have bits := le_nearestBits (a := a) (b := b) (by omega)
  have magnitude := h.magnitude
  rw [isFinite_iff, magnitude]
  omega

theorem Rounds.whole (h : Rounds x negative (n, 1)) (few : n ≤ 2 ^ 53) :
    ∃ v, ofFloat? x = some v ∧ v.ratio.1 = n * v.ratio.2 := by
  have units : n * unitsInOne = n * 2 ^ leastPlace * 1 := by rw [unitsInOne_eq, Nat.mul_one]
  have below : n * 2 ^ leastPlace < 2 ^ (1024 + leastPlace) := by
    refine Nat.lt_of_le_of_lt (Nat.mul_le_mul_right _ few) ?_
    rw [← Nat.pow_add]
    exact (Nat.pow_lt_pow_iff_right (by decide)).mpr (by decide)
  obtain ⟨v, value, same⟩ := h.value Nat.one_pos units few below
  exact ⟨v, value, by rwa [Nat.mul_one] at same⟩

theorem ofInt_rounds (m : Int) : Rounds (ofInt m) (m < 0) (m.natAbs, 1) := by
  have rounds := nearest_rounds (m.natAbs, 1)
  unfold ofInt
  split
  · rename_i negative
    rw [decide_eq_true negative]
    exact rounds.neg
  · rename_i nonneg
    rw [decide_eq_false nonneg]
    exact rounds

/-- The second reading is so many times the first one, with the same sign. -/
def IsMultiple (n : Nat) (x y : Float) : Prop :=
  isNegative y = isNegative x ∧ ∃ v w, ofFloat? x = some v ∧ ofFloat? y = some w ∧
    w.ratio.1 * v.ratio.2 = n * v.ratio.1 * w.ratio.2

theorem IsMultiple.add (h : IsMultiple n x y) (next : IsMultiple (n + 1) x z) : y + x = z := by
  obtain ⟨sign, v, w, hv, hw, same⟩ := h
  obtain ⟨sign', v', u, hv', hu, same'⟩ := next
  obtain rfl : v = v' := Option.some.inj (hv.symm.trans hv')
  have sum := add_rounds hw hv sign.symm
  rw [sign, ← sign'] at sum
  refine Rounds.eq (sum.congr (Nat.mul_pos (ratio_pos w) (ratio_pos v)) (ratio_pos u) ?_)
    (value_rounds hu)
  calc (w.ratio.1 * v.ratio.2 + v.ratio.1 * w.ratio.2) * u.ratio.2
    _ = (n + 1) * v.ratio.1 * u.ratio.2 * w.ratio.2 := by rw [same]; ring
    _ = u.ratio.1 * (w.ratio.2 * v.ratio.2) := by rw [← same']; ring

theorem IsMultiple.div (h : IsMultiple n x y) (some : 0 < n) (few : n ≤ 2 ^ 53) :
    y / Float.ofNat n = x := by
  obtain ⟨sign, v, w, hv, hw, same⟩ := h
  obtain ⟨c, hc, count⟩ := (ofNat_rounds n).whole few
  have numerator : 0 < c.ratio.1 := by
    rw [count]
    exact Nat.mul_pos some (ratio_pos c)
  have notZero : c.significand ≠ 0 := fun zero => by
    rw [ratio, zero, Nat.zero_mul] at numerator
    exact Nat.lt_irrefl 0 numerator
  have quotient := div_rounds hw hc notZero
  rw [sign, (ofNat_rounds n).sign, Bool.xor_false] at quotient
  refine Rounds.eq (quotient.congr (Nat.mul_pos (ratio_pos w) numerator) (ratio_pos v) ?_)
    (value_rounds hv)
  calc w.ratio.1 * c.ratio.2 * v.ratio.2
    _ = n * v.ratio.1 * w.ratio.2 * c.ratio.2 := by rw [← same]; ring
    _ = v.ratio.1 * (w.ratio.2 * c.ratio.1) := by rw [count]; ring

theorem exists_rounds (negative : Bool) (r : Nat × Nat) : ∃ x, Rounds x negative r := by
  cases negative with
  | false => exact ⟨_, nearest_rounds r⟩
  | true => exact ⟨_, (nearest_rounds r).neg⟩

/-- Twice a reading is halved to it, unless it is too large for a reading. -/
theorem double_half (finite : x.isFinite) : (x + x) / 2.0 = x ∨ ¬ (x + x).isFinite := by
  obtain ⟨v, hv⟩ := exists_value finite
  obtain ⟨small, least, _⟩ := ofFloat?_bounds hv
  have sum := add_rounds hv hv rfl
  have sum : Rounds (x + x) (isNegative x) (2 * v.ratio.1, v.ratio.2) :=
    sum.congr (Nat.mul_pos (ratio_pos v) (ratio_pos v)) (ratio_pos v) (by ring)
  obtain ⟨k, place⟩ := Int.eq_ofNat_of_zero_le (a := v.exponent + leastPlace)
    (by rw [leastPlace]; omega)
  have units : 2 * v.ratio.1 * unitsInOne = v.significand * 2 ^ (k + 1) * v.ratio.2 := by
    have split := two_pow_split place
    dsimp only [ratio]
    rw [Nat.mul_assoc, Nat.mul_assoc, split]
    ring
  have two : (2.0 : Float) = Float.ofNat 2 :=
    eq_of_magnitude (by decide +kernel) (by decide +kernel)
  rcases Nat.lt_or_ge (v.significand * 2 ^ (k + 1)) (2 ^ (1024 + leastPlace)) with below | large
  · obtain ⟨w, hw, same⟩ := sum.value (ratio_pos v) units (Nat.le_of_lt small) below
    have multiple : IsMultiple 2 x (x + x) := ⟨sum.sign, v, w, hv, hw, same⟩
    rw [two]
    exact .inl (multiple.div (by decide) (by decide))
  · refine .inr (sum.infinite ?_)
    rwa [units, Nat.mul_div_cancel _ (ratio_pos v)]

/-- Multiples of a whole number are readings as far as they are not above `2 ^ 53`. -/
theorem exists_multiple_ofInt {m : Int} (few : m.natAbs ≤ 2 ^ 53) (few' : n * m.natAbs ≤ 2 ^ 53) :
    ∃ y, IsMultiple n (ofInt m) y := by
  obtain ⟨v, hv, value⟩ := (ofInt_rounds m).whole few
  obtain ⟨y, rounds⟩ := exists_rounds (isNegative (ofInt m)) (n * m.natAbs, 1)
  obtain ⟨w, hw, value'⟩ := rounds.whole few'
  refine ⟨y, rounds.sign, v, w, hv, hw, ?_⟩
  rw [value, value']
  ring

end Qualification.Binary64
