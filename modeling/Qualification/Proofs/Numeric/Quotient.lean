import Qualification.Proofs.Numeric.Operation

/-! # Quotients of readings

A natural number is converted to the reading nearest to it, and finite readings are divided to the
one nearest to their quotient. The nearest readings are in the order of the quotients, so both keep
the order, up to infinity.
-/

namespace Qualification.Binary64

open Float.Model Float.Model.UnpackedFloat

variable {m n : Nat} {x y z : Float} {v w : Binary64}

theorem ofNatModel_rounds (n : Nat) : Rounds (.ofModel (.ofNat n)) false (n, 1) := by
  change Rounds (.ofModel (.pack (UnpackedFloat.normalize .binary64 n 0 .positive))) _ _
  rcases Nat.eq_zero_or_pos n with rfl | positive
  · have none : UnpackedFloat.normalize .binary64 (0 : Nat) 0 .positive = .zero (toSign false) :=
      rfl
    rw [none]
    exact zero_rounds Nat.one_pos
  · have rounds : Rounds (.ofModel (.pack (UnpackedFloat.normalize .binary64
        ((toSign false).apply n) 0 .positive))) false (n, 1) :=
      normalize_rounds positive Nat.one_pos (Nat.mul_one _)
    exact rounds

theorem one_value : ofFloat? (Float.ofBits 0x3FF0000000000000) = some ⟨false, 2 ^ 52, -52⟩ := by
  decide +kernel

theorem mul_one_of_value (value : ofFloat? x = some v) :
    x * Float.ofBits 0x3FF0000000000000 = x := by
  have one : isNegative (Float.ofBits 0x3FF0000000000000) = false := by decide +kernel
  have product := mul_rounds value one_value
  rw [one, Bool.xor_false] at product
  refine Rounds.eq (product.congr (c := v.ratio.1) (Nat.mul_pos (ratio_pos v) (ratio_pos _))
    (ratio_pos v) ?_) (value_rounds value)
  change v.ratio.1 * (2 ^ 52 * 2 ^ 0) * v.ratio.2 = v.ratio.1 * (v.ratio.2 * 2 ^ 52)
  ring

theorem ofNat_rounds (n : Nat) : Rounds (Float.ofNat n) false (n, 1) := by
  change Rounds (Float.ofScientific n false 0) _ _
  rw [Float.ofScientific]
  split
  · rename_i small
    have below : n < 2 ^ 64 := Nat.lt_trans small.1 (by decide)
    have same : n.toUInt64.toNat = n := by
      rw [Nat.toUInt64_eq, UInt64.toNat_ofNat', Nat.mod_eq_of_lt below]
    change Rounds (Float.ofModel (.ofNat n.toUInt64.toNat) * Float.ofBits 0x3FF0000000000000) _ _
    rw [same]
    have natural : ofInt n = nearest (n, 1) := if_neg (by omega)
    have rounds := ofNatModel_rounds n
    have finite : (ofInt n).isFinite := ofInt_isFinite below
    rw [natural, ← rounds.eq (nearest_rounds (n, 1))] at finite
    obtain ⟨v, value⟩ := exists_value finite
    rw [mul_one_of_value value]
    exact rounds
  · rename_i large
    have large : 2 ^ 53 ≤ n := by simpa using large
    have some : n ≠ 0 := by omega
    have width : Format.binary64.exponentBits = 11 := rfl
    have scaled : UnpackedFloat.ofScientific .binary64 n 0 =
        roundWithAccuracy .binary64 (toSign false) (n * 2 ^ 53) (-53) .exact := by
      rw [UnpackedFloat.ofScientific, dif_neg some, if_neg (by decide),
        if_neg (by rw [width]; omega), if_pos (Int.le_refl 0)]
      change roundWithAccuracy .binary64 .positive (n <<< 53 * 1) (-53) .exact = _
      rw [Nat.mul_one, Nat.shiftLeft_eq, toSign_false]
    change Rounds (Float.ofModel (.pack (UnpackedFloat.ofScientific .binary64 n 0))) _ _
    rw [scaled]
    have digits := log2_shifted (Nat.pos_of_ne_zero some) 53
    refine roundWithAccuracy_rounds Nat.one_pos Nat.one_pos (locates_exact _) (.inl (by omega)) ?_
    change n * 2 ^ 53 * 2 ^ 0 * 1 = n * (1 * 2 ^ 53)
    ring

theorem ofNat_isFinite (below : n < 2 ^ 64) : (Float.ofNat n).isFinite := by
  have natural : ofInt n = nearest (n, 1) := if_neg (by omega)
  rw [(ofNat_rounds n).eq (nearest_rounds (n, 1)), ← natural]
  exact ofInt_isFinite below

/-- Division finds a wide enough mantissa. -/
theorem divCore_wide {m₁ m₂ k : Nat} {e₁ e₂ t : Int} (some : 0 < m₁) (positive : 0 < m₂)
    (target : min (e₁ - e₂) (Format.binary64.targetExponent
      (totalExponent m₁ e₁ - totalExponent m₂ e₂)) = t)
    (shift : (e₁ - e₂ - t).toNat = k) : 52 ≤ (m₁ * 2 ^ k / m₂).log2 ∨ t ≤ -1074 := by
  change min (e₁ - e₂) (Max.max ((m₁.log2 : Int) + 1 + e₁ - (m₂.log2 + 1 + e₂) - 53) (-1074)) = t
    at target
  by_cases least : t ≤ -1074
  · exact .inr least
  · left
    have digits : m₂.log2 + 53 ≤ m₁.log2 + k := by omega
    have numerator : 2 ^ (m₁.log2 + k) ≤ m₁ * 2 ^ k := by
      rw [Nat.pow_add]
      exact Nat.mul_le_mul_right _ (Nat.log2_self_le (Nat.ne_of_gt some))
    have denominator := Nat.lt_log2_self (n := m₂)
    have quotient : 2 ^ 52 ≤ m₁ * 2 ^ k / m₂ := by
      rw [Nat.le_div_iff_mul_le positive]
      calc 2 ^ 52 * m₂
        _ ≤ 2 ^ 52 * 2 ^ (m₂.log2 + 1) := Nat.mul_le_mul_left _ (Nat.le_of_lt denominator)
        _ = 2 ^ (m₂.log2 + 53) := by rw [← Nat.pow_add]; congr 1; omega
        _ ≤ 2 ^ (m₁.log2 + k) := Nat.pow_le_pow_right (by decide) digits
        _ ≤ m₁ * 2 ^ k := numerator
    exact (Nat.le_log2 (by omega)).mpr quotient

theorem toSign_div (first second : Bool) :
    toSign first / toSign second = toSign (first ^^ second) := by
  cases first <;> cases second <;> rfl

theorem div_rounds (hv : ofFloat? x = some v) (hw : ofFloat? y = some w)
    (some : w.significand ≠ 0) : Rounds (x / y) (isNegative x ^^ isNegative y)
      (v.ratio.1 * w.ratio.2, v.ratio.2 * w.ratio.1) := by
  have first := stands_unpack hv
  have second := stands_unpack hw
  have positive : 0 < w.significand := Nat.pos_of_ne_zero some
  have scaled : 0 < v.ratio.2 * w.ratio.1 :=
    Nat.mul_pos (ratio_pos v) (Nat.mul_pos positive (Nat.two_pow_pos _))
  change Rounds (.ofModel (.pack (UnpackedFloat.div .binary64 x.toModel.unpack
    y.toModel.unpack))) _ _
  generalize x.toModel.unpack = u at first
  generalize y.toModel.unpack = u' at second
  cases second with
  | zero none => exact absurd none some
  | finite =>
      cases first with
      | zero none =>
          have numerator : v.ratio.1 = 0 := by rw [ratio, none, Nat.zero_mul]
          rw [numerator, Nat.zero_mul, UnpackedFloat.div, toSign_div]
          exact zero_rounds scaled
      | finite some =>
          simp only [UnpackedFloat.div, divCore, toSign_div]
          generalize target : min (v.exponent - w.exponent) (Format.binary64.targetExponent
            (totalExponent v.significand v.exponent - totalExponent w.significand w.exponent)) = t
          generalize shift : (v.exponent - w.exponent - t).toNat = k
          rw [Nat.shiftLeft_eq]
          refine roundWithAccuracy_rounds positive scaled (locates_fraction positive)
            (divCore_wide some positive target shift) ?_
          have powers : k + t.toNat + ((-v.exponent).toNat + w.exponent.toNat) =
              v.exponent.toNat + (-w.exponent).toNat + (-t).toNat := by omega
          simp only [ratio, Nat.pow_eq]
          calc v.significand * 2 ^ k * 2 ^ t.toNat *
              (2 ^ (-v.exponent).toNat * (w.significand * 2 ^ w.exponent.toNat))
            _ = v.significand * w.significand *
                2 ^ (k + t.toNat + ((-v.exponent).toNat + w.exponent.toNat)) := by ring
            _ = v.significand * w.significand *
                2 ^ (v.exponent.toNat + (-w.exponent).toNat + (-t).toNat) := by rw [powers]
            _ = v.significand * 2 ^ v.exponent.toNat * 2 ^ (-w.exponent).toNat *
                (w.significand * 2 ^ (-t).toNat) := by ring

theorem unpack_infinite (hx : isNegative x = false) (infinite : magnitude x = 2047 * 2 ^ 52) :
    x.toModel.unpack = .infinity .positive := by
  have unpacked := unpacked x
  rw [signOf_toBits, hx, infinite] at unpacked
  generalize x.toModel.unpack = u at unpacked
  cases unpacked with
  | infinity => rfl
  | notANumber _ some | zero none | subnormal _ none | normal _ _ notAll => omega

/-- A finite divisor above zero. -/
structure Divides (z : Float) (w : Binary64) : Prop where
  value : ofFloat? z = some w
  nonneg : isNegative z = false
  notZero : w.significand ≠ 0

theorem Divides.infinite (hz : Divides z w) (hx : isNegative x = false)
    (infinite : magnitude x = 2047 * 2 ^ 52) :
    isNegative (x / z) = false ∧ magnitude (x / z) = 2047 * 2 ^ 52 := by
  have divisor := stands_unpack hz.value
  rw [hz.nonneg] at divisor
  refine isNegative_magnitude (by decide) ?_
  change (UnpackedFloat.pack .binary64
    (UnpackedFloat.div .binary64 x.toModel.unpack z.toModel.unpack)).toNat = _
  rw [unpack_infinite hx infinite]
  generalize z.toModel.unpack = u at divisor
  cases divisor with
  | zero none => exact absurd none hz.notZero
  | finite => exact toNat_pack_infinity .positive

theorem Divides.rounds (hz : Divides z w) (hx : isNegative x = false)
    (hv : ofFloat? x = some v) :
    Rounds (x / z) false (v.ratio.1 * w.ratio.2, v.ratio.2 * w.ratio.1) := by
  have rounds := div_rounds hv hz.value hz.notZero
  rwa [hx, hz.nonneg] at rounds

theorem Divides.isNumber (hz : Divides z w) (hx : isNegative x = false) (number : IsNumber x) :
    isNegative (x / z) = false ∧ IsNumber (x / z) := by
  rcases Nat.eq_or_lt_of_le number with infinite | finite
  · obtain ⟨nonneg, same⟩ := hz.infinite hx infinite
    exact ⟨nonneg, Nat.le_of_eq same⟩
  · obtain ⟨v, hv⟩ := exists_value (isFinite_iff.mpr finite)
    have rounds := hz.rounds hx hv
    exact ⟨rounds.sign, rounds.isNumber⟩

/-- Dividing by a positive reading keeps the order of readings not below zero, infinity
    included. -/
theorem Divides.mono (hz : Divides z w) (hx : isNegative x = false) (hy : isNegative y = false)
    (number : IsNumber y) (less : magnitude x ≤ magnitude y) :
    magnitude (x / z) ≤ magnitude (y / z) := by
  rcases Nat.eq_or_lt_of_le number with infinite | finite
  · rw [(hz.infinite hy infinite).2]
    exact (hz.isNumber hx (Nat.le_trans less number)).2
  · have finite' := Nat.lt_of_le_of_lt less finite
    obtain ⟨u, hu⟩ := exists_value (isFinite_iff.mpr finite)
    obtain ⟨v, hv⟩ := exists_value (isFinite_iff.mpr finite')
    have positive : 0 < w.ratio.1 :=
      Nat.mul_pos (Nat.pos_of_ne_zero hz.notZero) (Nat.two_pow_pos _)
    have order := Nat.mul_le_mul_right (w.ratio.1 * w.ratio.2) (ratio_le hv hu less)
    refine (hz.rounds hx hv).magnitude_le (hz.rounds hy hu) (Nat.mul_pos (ratio_pos v) positive)
      (Nat.mul_pos (ratio_pos u) positive) ?_
    calc v.ratio.1 * w.ratio.2 * (u.ratio.2 * w.ratio.1)
      _ = v.ratio.1 * u.ratio.2 * (w.ratio.1 * w.ratio.2) := by ring
      _ ≤ u.ratio.1 * v.ratio.2 * (w.ratio.1 * w.ratio.2) := order
      _ = u.ratio.1 * w.ratio.2 * (v.ratio.2 * w.ratio.1) := by ring

theorem le_of_magnitude (hx : isNegative x = false) (hy : isNegative y = false)
    (number : IsNumber y) (less : magnitude x ≤ magnitude y) : x ≤ y := by
  rw [le_iff_level (Nat.le_trans less number) number, level, level, hx, hy]
  exact Int.ofNat_le.mpr less

/-- Dividing by a positive reading keeps the order of readings not below zero. -/
theorem Divides.le (hz : Divides z w) (hx : isNegative x = false) (hy : isNegative y = false)
    (number : IsNumber y) (less : magnitude x ≤ magnitude y) : x / z ≤ y / z := by
  obtain ⟨nonneg, _⟩ := hz.isNumber hx (Nat.le_trans less number)
  obtain ⟨nonneg', number'⟩ := hz.isNumber hy number
  exact le_of_magnitude nonneg nonneg' number' (hz.mono hx hy number less)

theorem magnitude_ofNat_mono (less : m ≤ n) :
    magnitude (Float.ofNat m) ≤ magnitude (Float.ofNat n) :=
  (ofNat_rounds m).magnitude_le (ofNat_rounds n) Nat.one_pos Nat.one_pos
    (Nat.mul_le_mul_right 1 less)

theorem Divides.ofNat_mono (hz : Divides z w) (less : m ≤ n) :
    Float.ofNat m / z ≤ Float.ofNat n / z :=
  hz.le (ofNat_rounds m).sign (ofNat_rounds n).sign (ofNat_rounds n).isNumber
    (magnitude_ofNat_mono less)

theorem exists_divides_of_isFinite (some : 0 < n) (finite : (Float.ofNat n).isFinite) :
    ∃ w, Divides (Float.ofNat n) w := by
  obtain ⟨w, value⟩ := exists_value finite
  refine ⟨w, value, (ofNat_rounds n).sign, fun zero => ?_⟩
  have one : magnitude (Float.ofNat 1) ≠ 0 := by decide +kernel
  have least := magnitude_ofNat_mono (m := 1) some
  rw [significand_eq_zero value] at zero
  omega

theorem exists_divides_ofNat (some : 0 < n) (below : n < 2 ^ 64) :
    ∃ w, Divides (Float.ofNat n) w :=
  exists_divides_of_isFinite some (ofNat_isFinite below)

/-- A share in percent grows with what it is a share of. -/
theorem percentage_mono {whole : Nat} (some : 0 < whole) (below : whole < 2 ^ 64) (less : m ≤ n)
    (part : n ≤ whole) : 100.0 * Float.ofNat m / Float.ofNat whole ≤
      100.0 * Float.ofNat n / Float.ofNat whole := by
  obtain ⟨w, divides⟩ := exists_divides_ofNat some below
  have hundred : ofFloat? 100.0 = .some ⟨false, 7036874417766400, -46⟩ := by decide +kernel
  have nonneg : isNegative 100.0 = false := by decide +kernel
  have finite {k : Nat} (less : k ≤ whole) : (Float.ofNat k).isFinite :=
    ofNat_isFinite (Nat.lt_of_le_of_lt less below)
  obtain ⟨u, hu⟩ := exists_value (finite (Nat.le_trans less part))
  obtain ⟨v, hv⟩ := exists_value (finite part)
  have first := mul_rounds hundred hu
  have second := mul_rounds hundred hv
  rw [nonneg, (ofNat_rounds _).sign] at first second
  exact divides.le first.sign second.sign second.isNumber
    (mul_mono hundred hu hv (magnitude_ofNat_mono less))

end Qualification.Binary64
