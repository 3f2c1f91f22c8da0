import Qualification.Proofs.Numeric.Quotient
import Qualification.Proofs.Numeric.Vanishing

/-! # Scaled readings

A number that is multiplied or divided by a finite reading other than zero may overflow, but it
stays a number. A finite reading that is divided by a count stays finite, and so a share in
percent is.
-/

namespace Qualification.Binary64

open Float.Model Float.Model.UnpackedFloat

variable {u v : UnpackedFloat} {x y : Float} {n : Nat}

/-- A finite number other than zero. -/
inductive Proper : UnpackedFloat → Prop where
  | finite (s : Sign) (m : Nat) (e : Int) (positive : 0 < m) : Proper (.finite s m e positive)

theorem magnitude_ne_zero (notZero : ¬ x == 0.0) : magnitude x ≠ 0 := by
  intro zero
  have number : IsNumber x := by
    rw [IsNumber, zero]
    exact Nat.zero_le _
  exact notZero (Vanishes.beq_zero (vanishes_iff.mpr (.inr zero)) number)

theorem proper_unpack (finite : x.isFinite) (notZero : ¬ x == 0.0) :
    Proper x.toModel.unpack := by
  obtain ⟨v, value⟩ := exists_value finite
  have stands := stands_unpack value
  generalize x.toModel.unpack = u at stands
  cases stands with
  | zero none => exact absurd ((significand_eq_zero value).mp none) (magnitude_ne_zero notZero)
  | finite positive => exact .finite _ _ _ positive

theorem unpack_ne_notANumber (number : IsNumber x) : x.toModel.unpack ≠ .notANumber := fun nan =>
  isNaN_iff.mp (UnpackedFloat.isNaN_iff.mpr nan) number

theorem Proper.mul (hu : Proper u) (number : v ≠ .notANumber) :
    u.mul .binary64 v ≠ .notANumber := by
  cases hu with
  | finite =>
      cases v with
      | notANumber => exact absurd rfl number
      | zero | infinity => nofun
      | finite => exact roundWithAccuracy_ne_notANumber _

theorem Proper.div (hv : Proper v) (number : u ≠ .notANumber) :
    u.div .binary64 v ≠ .notANumber := by
  cases hv with
  | finite =>
      cases u with
      | notANumber => exact absurd rfl number
      | zero | infinity => nofun
      | finite => exact roundWithAccuracy_ne_notANumber _

theorem isNumber_mul (finite : x.isFinite) (notZero : ¬ x == 0.0) (number : IsNumber y) :
    IsNumber (x * y) :=
  isNumber_pack ((proper_unpack finite notZero).mul (unpack_ne_notANumber number))

theorem isNumber_div (number : IsNumber x) (finite : y.isFinite) (notZero : ¬ y == 0.0) :
    IsNumber (x / y) :=
  isNumber_pack ((proper_unpack finite notZero).div (unpack_ne_notANumber number))

theorem isFinite_div_of_infinite (finite : x.isFinite) (hy : isNegative y = false)
    (infinite : magnitude y = 2047 * 2 ^ 52) : (x / y).isFinite := by
  have zero (s : Sign) : (Float.ofModel (.pack (.zero s))).isFinite := by
    cases s <;> decide +kernel
  change (Float.ofModel (.pack (UnpackedFloat.div .binary64 x.toModel.unpack
    y.toModel.unpack))).isFinite
  change x.toModel.unpack.isFinite at finite
  rw [unpack_infinite hy infinite]
  generalize x.toModel.unpack = u at finite
  cases u with
  | notANumber | infinity => cases finite
  | zero | finite => exact zero _

/-- A count other than zero is one at least. -/
theorem Divides.one_le {w : Binary64} (hz : Divides (Float.ofNat n) w) (some : 0 < n) :
    w.ratio.2 ≤ w.ratio.1 := by
  have one : ofFloat? (Float.ofNat 1) = .some ⟨false, 2 ^ 52, -52⟩ := by decide +kernel
  have least : 2 ^ 52 * 2 ^ 0 * w.ratio.2 ≤ w.ratio.1 * 2 ^ 52 :=
    ratio_le one hz.value (magnitude_ofNat_mono some)
  omega

/-- A finite reading that is divided by a count stays finite. -/
theorem isFinite_div_ofNat (finite : x.isFinite) (some : 0 < n) :
    (x / Float.ofNat n).isFinite := by
  have count := ofNat_rounds n
  rcases Nat.eq_or_lt_of_le count.isNumber with infinite | countable
  · exact isFinite_div_of_infinite finite count.sign infinite
  · obtain ⟨v, value⟩ := exists_value finite
    obtain ⟨w, divides⟩ := exists_divides_of_isFinite some (isFinite_iff.mpr countable)
    have positive : 0 < w.ratio.1 :=
      Nat.mul_pos (Nat.pos_of_ne_zero divides.notZero) (Nat.two_pow_pos _)
    have smaller : magnitude (x / Float.ofNat n) ≤ magnitude x := by
      refine (div_rounds value divides.value divides.notZero).magnitude_le (value_rounds value)
        (Nat.mul_pos (ratio_pos v) positive) (ratio_pos v) ?_
      calc v.ratio.1 * w.ratio.2 * v.ratio.2
        _ = v.ratio.1 * (v.ratio.2 * w.ratio.2) := by ring
        _ ≤ v.ratio.1 * (v.ratio.2 * w.ratio.1) :=
            Nat.mul_le_mul_left _ (Nat.mul_le_mul_left _ (divides.one_le some))
    exact isFinite_iff.mpr (Nat.lt_of_le_of_lt smaller (isFinite_iff.mp finite))

/-- A share in percent is finite. -/
theorem percentage_isFinite {whole : Nat} (some : 0 < whole) (below : n < 2 ^ 64) :
    (100.0 * Float.ofNat n / Float.ofNat whole).isFinite := by
  have hundred : ofFloat? 100.0 = .some ⟨false, 7036874417766400, -46⟩ := by decide +kernel
  obtain ⟨v, hv⟩ := exists_value (ofNat_isFinite below)
  obtain ⟨w, hw⟩ := exists_value (ofNat_isFinite (n := 2 ^ 64 - 1) (by decide))
  have less := mul_mono hundred hv hw (magnitude_ofNat_mono (Nat.le_sub_one_of_lt below))
  have most : (100.0 * Float.ofNat (2 ^ 64 - 1)).isFinite := by decide +kernel
  have finite : (100.0 * Float.ofNat n).isFinite :=
    isFinite_iff.mpr (Nat.lt_of_le_of_lt less (isFinite_iff.mp most))
  exact isFinite_div_ofNat finite some

end Qualification.Binary64
