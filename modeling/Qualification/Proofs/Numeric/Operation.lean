import Qualification.Proofs.Numeric.Order
import Qualification.Proofs.Numeric.Rounding

/-! # Results of operations

The readings nearest to quotients are in the order of the quotients. Products of finite readings,
and sums of those with the same sign, are the readings nearest to the exact results, up to
infinity.
-/

namespace Qualification.Binary64

open Float.Model Float.Model.UnpackedFloat

variable {a b c d m n : Nat} {e : Int} {x y : Float} {v w : Binary64} {negative : Bool}
  {r : Nat × Nat}

theorem roundHalfEven_mono (less : a ≤ c) :
    roundHalfEven (a, b) ≤ roundHalfEven (c, b) := by
  rcases Nat.lt_or_ge (a / b) (c / b) with before | notBefore
  · have most := roundHalfEven_le (a, b)
    have least := le_roundHalfEven (c, b)
    dsimp only at most least
    omega
  · have same : a / b = c / b := Nat.le_antisymm (Nat.div_le_div_right less) notBefore
    have rests : a % b ≤ c % b := by
      have first := Nat.div_add_mod a b
      have second := Nat.div_add_mod c b
      rw [same] at first
      omega
    simp only [roundHalfEven, same, Bool.or_eq_true, Bool.and_eq_true, beq_iff_eq,
      decide_eq_true_eq]
    split
    · split <;> omega
    · split <;> omega

/-- A reading that is not subnormal uses up its digits. -/
theorem le_nearestBits (doubled : 52 < (a * unitsInOne / b).log2) :
    ((a * unitsInOne / b).log2 - 52 + 1) * 2 ^ 52 ≤ nearestBits (a, b) := by
  have some : a * unitsInOne / b ≠ 0 := by
    intro none
    rw [none, Nat.log2_zero] at doubled
    omega
  have digits := Nat.log2_self_le some
  have least := le_roundHalfEven
    (a * unitsInOne, b * Nat.pow 2 ((a * unitsInOne / b).log2 - 52))
  dsimp only at least
  rw [← Nat.div_div_eq_div_mul] at least
  have full : 2 ^ 52 ≤ a * unitsInOne / b / Nat.pow 2 ((a * unitsInOne / b).log2 - 52) := by
    rw [Nat.pow_eq, Nat.le_div_iff_mul_le (Nat.two_pow_pos _), ← Nat.pow_add]
    exact Nat.le_trans (Nat.pow_le_pow_right (by decide) (by omega)) digits
  rw [Nat.succ_mul]
  exact Nat.add_le_add_left (Nat.le_trans full least) _

theorem nearestBits_mono_of_le (less : a ≤ c) : nearestBits (a, b) ≤ nearestBits (c, b) := by
  have units : a * unitsInOne ≤ c * unitsInOne := Nat.mul_le_mul_right _ less
  have wholes := Nat.div_le_div_right (c := b) units
  have doublings : (a * unitsInOne / b).log2 ≤ (c * unitsInOne / b).log2 := by
    by_cases none : a * unitsInOne / b = 0
    · rw [none, Nat.log2_zero]
      exact Nat.zero_le _
    · have some : 0 < a * unitsInOne / b := Nat.pos_of_ne_zero none
      rw [Nat.le_log2 (Nat.ne_of_gt (Nat.lt_of_lt_of_le some wholes))]
      exact Nat.le_trans (Nat.log2_self_le none) wholes
  rcases Nat.lt_or_ge ((a * unitsInOne / b).log2 - 52) ((c * unitsInOne / b).log2 - 52)
    with fewer | asMany
  · have most := nearestBits_le (a, b)
    have least := le_nearestBits (a := c) (b := b) (by omega)
    have steps : ((a * unitsInOne / b).log2 - 52 + 1) * 2 ^ 52 + 2 ^ 52 ≤
        ((c * unitsInOne / b).log2 - 52 + 1) * 2 ^ 52 := by
      rw [← Nat.succ_mul]
      exact Nat.mul_le_mul_right _ (by omega)
    dsimp only at most
    omega
  · have same : (a * unitsInOne / b).log2 - 52 = (c * unitsInOne / b).log2 - 52 := by omega
    simp only [nearestBits, same]
    exact Nat.add_le_add_left (roundHalfEven_mono units) _

theorem nearestBits_mono (hb : 0 < b) (hd : 0 < d) (less : a * d ≤ c * b) :
    nearestBits (a, b) ≤ nearestBits (c, d) := by
  rw [← nearestBits_scale (a := a) (b := b) hd, ← nearestBits_scale (a := c) (b := d) hb,
    Nat.mul_comm d b]
  exact nearestBits_mono_of_le less

theorem nearestBits_congr (hb : 0 < b) (hd : 0 < d) (same : a * d = c * b) :
    nearestBits (a, b) = nearestBits (c, d) :=
  Nat.le_antisymm (nearestBits_mono hb hd (Nat.le_of_eq same))
    (nearestBits_mono hd hb (Nat.le_of_eq same.symm))

/-- A sign, by whether it is negative. -/
def toSign (negative : Bool) : Sign :=
  if negative then .negative else .positive

theorem toSign_false : toSign false = .positive :=
  rfl

/-- A reading has a sign, and its magnitude is nearest to a quotient. -/
structure Rounds (x : Float) (negative : Bool) (r : Nat × Nat) : Prop where
  sign : isNegative x = negative
  magnitude : magnitude x = min (nearestBits r) (2047 * 2 ^ 52)

theorem rounds_of_bits (bits : x.toBits.toNat =
    (toSign negative).toBitVec.toNat * 2 ^ 63 + min (nearestBits r) (2047 * 2 ^ 52)) :
    Rounds x negative r := by
  have below : min (nearestBits r) (2047 * 2 ^ 52) < 2 ^ 63 :=
    Nat.lt_of_le_of_lt (Nat.min_le_right _ _) (by decide)
  have top : (toSign negative).toBitVec.toNat = negative.toNat := by
    cases negative <;> rfl
  rw [top] at bits
  obtain ⟨sign, magnitude⟩ := isNegative_magnitude below bits
  exact ⟨sign, magnitude⟩

theorem nearest_rounds (r : Nat × Nat) : Rounds (nearest r) false r :=
  ⟨(nearest_spec r).1, (nearest_spec r).2⟩

theorem Rounds.isNumber (h : Rounds x negative r) : IsNumber x :=
  Nat.le_trans (Nat.le_of_eq h.magnitude) (Nat.min_le_right _ _)

theorem Rounds.neg (h : Rounds x negative r) : Rounds (-x) (!negative) r := by
  obtain ⟨sign, same⟩ := neg_spec h.isNumber
  exact ⟨by rw [sign, h.sign], same.trans h.magnitude⟩

theorem Rounds.congr (hb : 0 < b) (hd : 0 < d) (h : Rounds x negative (a, b))
    (same : a * d = c * b) : Rounds x negative (c, d) :=
  ⟨h.sign, by rw [h.magnitude, nearestBits_congr hb hd same]⟩

/-- A sign and a quotient have one nearest reading. -/
theorem Rounds.eq (hx : Rounds x negative r) (hy : Rounds y negative r) : x = y :=
  eq_of_magnitude (hx.sign.trans hy.sign.symm) (hx.magnitude.trans hy.magnitude.symm)

/-- Nearest readings are in the order of the quotients. -/
theorem Rounds.magnitude_le {s t : Bool} (hx : Rounds x s (a, b)) (hy : Rounds y t (c, d))
    (hb : 0 < b) (hd : 0 < d) (less : a * d ≤ c * b) :
    Binary64.magnitude x ≤ Binary64.magnitude y := by
  have bits := nearestBits_mono hb hd less
  rw [hx.magnitude, hy.magnitude]
  omega

theorem zero_rounds (positive : 0 < d) :
    Rounds (.ofModel (.pack (.zero (toSign negative)))) negative (0, d) := by
  have none : nearestBits (0, d) = 0 * 2 ^ 52 + 0 :=
    nearestBits_exact positive (by simp) (by decide) (.inl rfl)
  refine rounds_of_bits ((toNat_pack_zero (toSign negative)).trans ?_)
  rw [none, Nat.zero_mul, Nat.zero_add, Nat.zero_min, Nat.add_zero]

/-- What is rounded from a wide enough mantissa is nearest to the quotient that it stands for. -/
theorem roundWithAccuracy_rounds {accuracy : Accuracy} (hb : 0 < b) (hd : 0 < d)
    (located : Locates (.ofMantissaAndAccuracy m accuracy) a b)
    (wide : 52 ≤ m.log2 ∨ e ≤ -1074)
    (same : a * 2 ^ e.toNat * d = c * (b * 2 ^ (-e).toNat)) :
    Rounds (.ofModel (.pack (roundWithAccuracy .binary64 (toSign negative) m e accuracy)))
      negative (c, d) := by
  refine .congr (Nat.mul_pos hb (Nat.two_pow_pos _)) hd (rounds_of_bits ?_) same
  exact toNat_pack_nearest hb located wide

theorem log2_shifted (positive : 0 < m) (k : Nat) : (m * 2 ^ k).log2 = m.log2 + k := by
  have whole := log2_mul_two_pow (a := m) (b := 1) (by rwa [Nat.div_one]) k
  rwa [Nat.div_one, Nat.div_one] at whole

/-- Doublings of a mantissa are taken from its exponent. -/
theorem shifted_units (m : Nat) {t : Int} {k : Nat} (shift : t + k = e) :
    m * 2 ^ k * 2 ^ t.toNat * 2 ^ (-e).toNat = m * 2 ^ e.toNat * 2 ^ (-t).toNat := by
  have powers : k + t.toNat + (-e).toNat = e.toNat + (-t).toNat := by omega
  rw [Nat.mul_assoc, Nat.mul_assoc, ← Nat.pow_add, ← Nat.pow_add, ← Nat.add_assoc, powers,
    Nat.pow_add, Nat.mul_assoc]

/-- A whole number of units of any size is widened before it is rounded. -/
theorem round_rounds (positive : 0 < n) (hd : 0 < d)
    (same : n * 2 ^ e.toNat * d = c * 2 ^ (-e).toNat) :
    Rounds (.ofModel (.pack (UnpackedFloat.round .binary64 (toSign negative) n e)))
      negative (c, d) := by
  rw [UnpackedFloat.round]
  generalize target : Format.binary64.targetExponent (totalExponent n e) = t
  change Max.max ((n.log2 : Int) + 1 + e - 53) (-1074) = t at target
  dsimp only [decreaseExponent]
  generalize shift : (e - t).toNat = k
  rw [Nat.shiftLeft_eq]
  have digits := log2_shifted positive k
  refine roundWithAccuracy_rounds Nat.one_pos hd (locates_exact _) (by omega) ?_
  have units := shifted_units n (e := e) (t := e - k) (k := k) (by omega)
  refine Nat.eq_of_mul_eq_mul_right (Nat.two_pow_pos (-e).toNat) ?_
  calc n * 2 ^ k * 2 ^ (e - (k : Int)).toNat * d * 2 ^ (-e).toNat
    _ = n * 2 ^ k * 2 ^ (e - (k : Int)).toNat * 2 ^ (-e).toNat * d := by ring
    _ = n * 2 ^ e.toNat * d * 2 ^ (-(e - (k : Int))).toNat := by rw [units]; ring
    _ = c * (1 * 2 ^ (-(e - (k : Int))).toNat) * 2 ^ (-e).toNat := by rw [same]; ring

/-- A whole number of units with a sign is rounded to that sign. -/
theorem normalize_rounds (positive : 0 < n) (hd : 0 < d)
    (same : n * 2 ^ e.toNat * d = c * 2 ^ (-e).toNat) :
    Rounds (.ofModel (.pack (UnpackedFloat.normalize .binary64 ((toSign negative).apply n) e
      .positive))) negative (c, d) := by
  have rounds : Rounds (.ofModel (.pack (UnpackedFloat.round .binary64 (toSign negative) n e)))
      negative (c, d) := round_rounds positive hd same
  cases negative with
  | false =>
      have order : compare (n : Int) 0 = .gt := Int.compare_eq_gt.mpr (by omega)
      change Rounds (.ofModel (.pack (UnpackedFloat.normalize .binary64 n e .positive))) _ _
      rw [UnpackedFloat.normalize, order]
      exact rounds
  | true =>
      have order : compare (-(n : Int)) 0 = .lt := Int.compare_eq_lt.mpr (by omega)
      change Rounds (.ofModel (.pack (UnpackedFloat.normalize .binary64 (-n) e .positive))) _ _
      rw [UnpackedFloat.normalize, order]
      dsimp only
      rw [Int.neg_neg, Int.toNat_natCast]
      exact rounds

/-- What a finite reading with a sign stands for. -/
inductive Stands (negative : Bool) (v : Binary64) : UnpackedFloat → Prop where
  | zero : v.significand = 0 → Stands negative v (.zero (toSign negative))
  | finite (some : 0 < v.significand) :
      Stands negative v (.finite (toSign negative) v.significand v.exponent some)

theorem Stands.of_parts (positive : 0 < m) (significand : m = v.significand)
    (exponent : e = v.exponent) :
    Stands negative v (.finite (toSign negative) m e positive) := by
  subst significand exponent
  exact .finite positive

theorem signOf_toBits (x : Float) : signOf x.toBits.toBitVec = toSign (isNegative x) := by
  have top : x.toBits.toBitVec.toNat / 2 ^ 63 = 1 ↔ isNegative x := beq_iff_eq.symm
  simp only [signOf, toSign, top]

theorem stands_unpack (value : ofFloat? x = some v) :
    Stands (isNegative x) v x.toModel.unpack := by
  have unpacked := unpacked x
  rw [signOf_toBits] at unpacked
  have parts := ofFloat?_eq_some value
  generalize x.toModel.unpack = u at unpacked
  cases unpacked with
  | infinity all | notANumber all => omega
  | zero none empty =>
      rcases parts with ⟨_, rfl⟩ | ⟨least, _⟩
      · exact .zero (by dsimp only; omega)
      · omega
  | subnormal some none isFraction least =>
      rcases parts with ⟨small, rfl⟩ | ⟨large, _⟩
      · refine .of_parts some ?_ least
        dsimp only
        omega
      · omega
  | normal some notNone notAll whole biased =>
      rcases parts with ⟨small, _⟩ | ⟨_, _, rfl⟩
      · omega
      · exact .of_parts some (whole.trans (Nat.add_comm _ _)) biased

theorem exists_value (finite : x.isFinite) : ∃ v, ofFloat? x = some v :=
  Option.isSome_iff_exists.mp (ofFloat?_isSome.mpr finite)

theorem isFinite_of_value (value : ofFloat? x = some v) : x.isFinite :=
  ofFloat?_isSome.mp (by rw [value]; rfl)

/-- A finite reading is nearest to its own value. -/
theorem value_rounds (value : ofFloat? x = some v) : Rounds x (isNegative x) v.ratio := by
  refine ⟨rfl, ?_⟩
  rw [nearestBits_ratio value]
  exact (Nat.min_eq_left (isNumber_of_isFinite (isFinite_of_value value))).symm

theorem ratio_pos (v : Binary64) : 0 < v.ratio.2 :=
  Nat.two_pow_pos _

theorem ratio_le (hv : ofFloat? x = some v) (hw : ofFloat? y = some w)
    (less : magnitude x ≤ magnitude y) : v.ratio.1 * w.ratio.2 ≤ w.ratio.1 * v.ratio.2 := by
  by_contra more
  -- Then the magnitudes would be the same, and so the values.
  have back := nearestBits_mono (ratio_pos w) (ratio_pos v) (Nat.le_of_lt (Nat.not_le.mp more))
  rw [nearestBits_ratio hv, nearestBits_ratio hw] at back
  have same := Nat.le_antisymm less back
  have equal : v.ratio = w.ratio := by
    rcases ofFloat?_eq_some hv with ⟨small, rfl⟩ | ⟨large, _, rfl⟩
    · rcases ofFloat?_eq_some hw with ⟨_, rfl⟩ | ⟨large, _⟩
      · simp only [ratio, same]
      · omega
    · rcases ofFloat?_eq_some hw with ⟨small, _⟩ | ⟨_, _, rfl⟩
      · omega
      · simp only [ratio, same]
  rw [equal] at more
  exact more (Nat.le_refl _)

theorem pack_unpack (x : Float) : Float.ofModel (.pack x.toModel.unpack) = x := by
  obtain ⟨⟨bits, valid⟩⟩ := x
  simp only [Float.Model.pack, Float.Model.unpack, UnpackedFloat.pack_unpack_of_valid valid]

theorem toSign_mul (first second : Bool) :
    toSign first * toSign second = toSign (first ^^ second) := by
  cases first <;> cases second <;> rfl

/-- The digits of a product are wide enough, unless both factors are as fine as can be. -/
theorem product_wide (hv : ofFloat? x = some v) (hw : ofFloat? y = some w)
    (some : 0 < v.significand) (some' : 0 < w.significand) :
    52 ≤ (v.significand * w.significand).log2 ∨ v.exponent + w.exponent ≤ -1074 := by
  have digits (wide : 2 ^ 52 ≤ v.significand * w.significand) :
      52 ≤ (v.significand * w.significand).log2 :=
    (Nat.le_log2 (Nat.ne_of_gt (Nat.mul_pos some some'))).mpr wide
  rcases ofFloat?_eq_some hv with ⟨_, rfl⟩ | ⟨_, _, rfl⟩
  · rcases ofFloat?_eq_some hw with ⟨_, rfl⟩ | ⟨_, _, rfl⟩
    · exact .inr (by dsimp only; omega)
    · exact .inl (digits (Nat.le_trans (Nat.le_add_left _ _) (Nat.le_mul_of_pos_left _ some)))
  · exact .inl (digits (Nat.le_trans (Nat.le_add_left _ _) (Nat.le_mul_of_pos_right _ some')))

theorem mul_rounds (hv : ofFloat? x = some v) (hw : ofFloat? y = some w) :
    Rounds (x * y) (isNegative x ^^ isNegative y)
      (v.ratio.1 * w.ratio.1, v.ratio.2 * w.ratio.2) := by
  have scaled : 0 < v.ratio.2 * w.ratio.2 := Nat.mul_pos (ratio_pos v) (ratio_pos w)
  have first := stands_unpack hv
  have second := stands_unpack hw
  change Rounds (.ofModel (.pack (UnpackedFloat.mul .binary64 x.toModel.unpack
    y.toModel.unpack))) _ _
  generalize x.toModel.unpack = u at first
  generalize y.toModel.unpack = u' at second
  cases first with
  | zero none =>
      have numerator : v.ratio.1 = 0 := by rw [ratio, none, Nat.zero_mul]
      rw [numerator, Nat.zero_mul]
      cases second <;> rw [UnpackedFloat.mul, toSign_mul] <;> exact zero_rounds scaled
  | finite some =>
      cases second with
      | zero none =>
          have numerator : w.ratio.1 = 0 := by rw [ratio, none, Nat.zero_mul]
          rw [numerator, Nat.mul_zero, UnpackedFloat.mul, toSign_mul]
          exact zero_rounds scaled
      | finite some' =>
          rw [UnpackedFloat.mul, toSign_mul]
          refine roundWithAccuracy_rounds Nat.one_pos scaled (locates_exact _)
            (product_wide hv hw some some') ?_
          have powers : (v.exponent + w.exponent).toNat +
              ((-v.exponent).toNat + (-w.exponent).toNat) =
                v.exponent.toNat + w.exponent.toNat + (-(v.exponent + w.exponent)).toNat := by
            omega
          simp only [ratio, Nat.pow_eq]
          calc v.significand * w.significand * 2 ^ (v.exponent + w.exponent).toNat *
              (2 ^ (-v.exponent).toNat * 2 ^ (-w.exponent).toNat)
            _ = v.significand * w.significand * 2 ^ ((v.exponent + w.exponent).toNat +
                ((-v.exponent).toNat + (-w.exponent).toNat)) := by ring
            _ = v.significand * w.significand * 2 ^ (v.exponent.toNat + w.exponent.toNat +
                (-(v.exponent + w.exponent)).toNat) := by rw [powers]
            _ = v.significand * 2 ^ v.exponent.toNat * (w.significand * 2 ^ w.exponent.toNat) *
                (1 * 2 ^ (-(v.exponent + w.exponent)).toNat) := by ring

/-- Multiplying by a reading keeps the order of magnitudes. -/
theorem mul_mono {z : Float} {u : Binary64} (hz : ofFloat? z = some u) (hv : ofFloat? x = some v)
    (hw : ofFloat? y = some w) (less : magnitude x ≤ magnitude y) :
    magnitude (z * x) ≤ magnitude (z * y) := by
  have order := Nat.mul_le_mul_left (u.ratio.1 * u.ratio.2) (ratio_le hv hw less)
  refine (mul_rounds hz hv).magnitude_le (mul_rounds hz hw)
    (Nat.mul_pos (ratio_pos u) (ratio_pos v)) (Nat.mul_pos (ratio_pos u) (ratio_pos w)) ?_
  calc u.ratio.1 * v.ratio.1 * (u.ratio.2 * w.ratio.2)
    _ = u.ratio.1 * u.ratio.2 * (v.ratio.1 * w.ratio.2) := by ring
    _ ≤ u.ratio.1 * u.ratio.2 * (w.ratio.1 * v.ratio.2) := order
    _ = u.ratio.1 * w.ratio.1 * (u.ratio.2 * v.ratio.2) := by ring

theorem apply_add (s : Sign) (m n : Nat) : s.apply m + s.apply n = s.apply (m + n : Nat) := by
  cases s
  · change -(m : Int) + -(n : Int) = -((m + n : Nat) : Int)
    omega
  · rfl

/-- Readings with the same sign are added to the one nearest to their sum. -/
theorem add_rounds (hv : ofFloat? x = some v) (hw : ofFloat? y = some w)
    (signs : isNegative y = isNegative x) :
    Rounds (x + y) (isNegative x)
      (v.ratio.1 * w.ratio.2 + w.ratio.1 * v.ratio.2, v.ratio.2 * w.ratio.2) := by
  have hv₂ := ratio_pos v
  have hw₂ := ratio_pos w
  have scaled : 0 < v.ratio.2 * w.ratio.2 := Nat.mul_pos hv₂ hw₂
  have left : x + y = .ofModel (.pack (UnpackedFloat.add .binary64 x.toModel.unpack
    y.toModel.unpack)) := rfl
  have first := stands_unpack hv
  have second := stands_unpack hw
  have same := pack_unpack x
  have same' := pack_unpack y
  rw [signs] at second
  rw [left]
  generalize x.toModel.unpack = u at first same
  generalize y.toModel.unpack = u' at second same'
  cases first with
  | zero none =>
      have numerator : v.ratio.1 = 0 := by rw [ratio, none, Nat.zero_mul]
      have sum : UnpackedFloat.add .binary64 (.zero (toSign (isNegative x))) u' = u' := by
        cases second with
        | zero => rw [UnpackedFloat.add, beq_self_eq_true, if_pos rfl]
        | finite => rfl
      rw [sum, same', numerator, ← signs]
      exact Rounds.congr (a := w.ratio.1) hw₂ scaled (value_rounds hw) (by ring)
  | finite some =>
      cases second with
      | zero none =>
          have numerator : w.ratio.1 = 0 := by rw [ratio, none, Nat.zero_mul]
          change Rounds (.ofModel (.pack (.finite (toSign (isNegative x)) v.significand v.exponent
            some))) _ _
          rw [same, numerator]
          exact Rounds.congr (a := v.ratio.1) hv₂ scaled (value_rounds hv) (by ring)
      | finite some' =>
          simp only [UnpackedFloat.add, decreaseExponent, Nat.shiftLeft_eq]
          generalize least : min v.exponent w.exponent = t
          generalize shift : (v.exponent - t).toNat = k
          generalize shift' : (w.exponent - t).toNat = k'
          rw [apply_add]
          refine normalize_rounds (Nat.add_pos_left (Nat.mul_pos some (Nat.two_pow_pos k)) _)
            scaled ?_
          have first := shifted_units v.significand (e := v.exponent) (t := t) (k := k) (by omega)
          have second := shifted_units w.significand (e := w.exponent) (t := t) (k := k') (by omega)
          simp only [ratio, Nat.pow_eq]
          calc (v.significand * 2 ^ k + w.significand * 2 ^ k') * 2 ^ t.toNat *
              (2 ^ (-v.exponent).toNat * 2 ^ (-w.exponent).toNat)
            _ = v.significand * 2 ^ k * 2 ^ t.toNat * 2 ^ (-v.exponent).toNat *
                  2 ^ (-w.exponent).toNat +
                w.significand * 2 ^ k' * 2 ^ t.toNat * 2 ^ (-w.exponent).toNat *
                  2 ^ (-v.exponent).toNat := by ring
            _ = (v.significand * 2 ^ v.exponent.toNat * 2 ^ (-w.exponent).toNat +
                w.significand * 2 ^ w.exponent.toNat * 2 ^ (-v.exponent).toNat) *
                  2 ^ (-t).toNat := by rw [first, second]; ring

end Qualification.Binary64
