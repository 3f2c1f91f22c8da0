import Mathlib
import Qualification.Numeric.Binary64

/-! # The bits of a reading

A reading is its sign bit and the other bits, its magnitude. Turning the sign around and
dropping it leave the magnitude alone; whether a reading is finite, and whether two are
equal, can be read off their magnitudes and signs.
-/

namespace Qualification.Binary64

open Float.Model Float.Model.UnpackedFloat

def mapSign (f : Sign → Sign) : UnpackedFloat → UnpackedFloat
  | .notANumber => .notANumber
  | .infinity s => .infinity (f s)
  | .zero s => .zero (f s)
  | .finite s m e positive => .finite (f s) m e positive

theorem neg_eq_mapSign (u : UnpackedFloat) : u.neg = mapSign (- ·) u := by
  cases u <;> rfl

theorem abs_eq_mapSign (u : UnpackedFloat) : u.abs = mapSign (fun _ => .positive) u := by
  cases u <;> rfl

theorem eq_mapSign (u : UnpackedFloat) : u = mapSign id u := by
  cases u <;> rfl

theorem toNat_packComponents (s : Sign) (e : BitVec 11) (m : BitVec 52) :
    (packComponents Format.binary64 s e m).toNat =
      s.toBitVec.toNat * 2 ^ 63 + e.toNat * 2 ^ 52 + m.toNat := by
  have he := e.isLt
  have hm := m.isLt
  simp only [packComponents, BitVec.toNat_append]
  rw [← Nat.shiftLeft_add_eq_or_of_lt he, ← Nat.shiftLeft_add_eq_or_of_lt hm]
  simp only [Nat.shiftLeft_eq]
  omega

theorem toNat_unpackExponent (b : BitVec Format.binary64.numBits) :
    (unpackExponent b).toNat = b.toNat % 2 ^ 63 / 2 ^ 52 := by
  simp [unpackExponent, BitVec.extractLsb_toNat, Nat.shiftRight_eq_div_pow]
  omega

theorem toNat_unpackMantissa (b : BitVec Format.binary64.numBits) :
    (unpackMantissa b).toNat = b.toNat % 2 ^ 52 := by
  simp [unpackMantissa, BitVec.extractLsb_toNat]

theorem toNat_unpackSign (b : BitVec Format.binary64.numBits) :
    (unpackSign b).toNat = b.toNat / 2 ^ 63 := by
  have whole : b.toNat < 2 ^ 64 := b.isLt
  simp [unpackSign, BitVec.extractLsb_toNat, Nat.shiftRight_eq_div_pow]
  omega

theorem toNat_implicit (m : BitVec 52) : (1#1 ++ m).toNat = 2 ^ 52 + m.toNat := by
  rw [BitVec.toNat_append, ← Nat.shiftLeft_add_eq_or_of_lt m.isLt]
  rfl

theorem pack_finite (s : Sign) {m : Nat} {e : Int} (positive : 0 < m) :
    UnpackedFloat.pack .binary64 (.finite s m e positive) =
      if 2047 ≤ (e + 1075).toNat then packedInfinity .binary64 s
      else if m.log2 = 52 then packComponents .binary64 s (.ofNat 11 (e + 1075).toNat) (.ofNat 52 m)
      else packComponents .binary64 s 0#11 (.ofNat 52 m) := by
  have biased : (e + (Format.binary64.exponentBias : Nat) + (52 : Nat)).toNat =
      (e + 1075).toNat := by
    rw [show Format.binary64.exponentBias = 1023 from rfl]
    omega
  have infinite : 2 ^ Format.binary64.exponentBits ≤ (e + 1075).toNat + 1 ↔
      2047 ≤ (e + 1075).toNat := by
    show 2048 ≤ _ ↔ _
    omega
  have full : m.log2 + 1 = Format.binary64.mantissaBits ↔ m.log2 = 52 := by
    show _ = 53 ↔ _
    omega
  simp only [UnpackedFloat.pack, biased, infinite, full]

def signOf (b : BitVec Format.binary64.numBits) : Sign :=
  if b.toNat / 2 ^ 63 = 1 then .negative else .positive

theorem ofBitVec_unpackSign (b : BitVec Format.binary64.numBits) :
    Sign.ofBitVec (unpackSign b) = signOf b := by
  have top := toNat_unpackSign b
  have whole : b.toNat < 2 ^ 64 := b.isLt
  have zero : unpackSign b = 0#1 ↔ ¬ b.toNat / 2 ^ 63 = 1 := by
    rw [← BitVec.toNat_inj, top]
    show _ = 0 ↔ _
    omega
  rw [Sign.ofBitVec, signOf]
  simp only [zero, ite_not]

/-- What a sign, an exponent and a fraction stand for. -/
inductive Unpacked (s : Sign) (exponent fraction : Nat) : UnpackedFloat → Prop where
  | infinity : exponent = 2047 → fraction = 0 → Unpacked s exponent fraction (.infinity s)
  | notANumber : exponent = 2047 → 0 < fraction → Unpacked s exponent fraction .notANumber
  | zero : exponent = 0 → fraction = 0 → Unpacked s exponent fraction (.zero s)
  | subnormal {m : Nat} {e : Int} (positive : 0 < m) : exponent = 0 → m = fraction → e = -1074 →
      Unpacked s exponent fraction (.finite s m e positive)
  | normal {m : Nat} {e : Int} (positive : 0 < m) :
      0 < exponent → exponent < 2047 → m = 2 ^ 52 + fraction → e = exponent - 1075 →
      Unpacked s exponent fraction (.finite s m e positive)

theorem unpack_unpacked (b : BitVec Format.binary64.numBits) :
    Unpacked (signOf b) (b.toNat % 2 ^ 63 / 2 ^ 52) (b.toNat % 2 ^ 52)
      (UnpackedFloat.unpack .binary64 b) := by
  have exponent := toNat_unpackExponent b
  have mantissa := toNat_unpackMantissa b
  have full : unpackExponent b = -1#_ ↔ b.toNat % 2 ^ 63 / 2 ^ 52 = 2047 := by
    rw [← BitVec.toNat_inj, exponent]
    rfl
  have empty : unpackExponent b = 0#_ ↔ b.toNat % 2 ^ 63 / 2 ^ 52 = 0 := by
    rw [← BitVec.toNat_inj, exponent]
    rfl
  have nothing : unpackMantissa b = 0#_ ↔ b.toNat % 2 ^ 52 = 0 := by
    rw [← BitVec.toNat_inj, mantissa]
    rfl
  have bias : ((Format.binary64.exponentBias : Nat) : Int) = 1023 := rfl
  have width : ((Format.binary64.mantissaBitsWithoutImplicit : Nat) : Int) = 52 := rfl
  rw [UnpackedFloat.unpack, ofBitVec_unpackSign]
  split
  · rename_i all
    split
    · exact .infinity (full.mp all) (nothing.mp ‹_›)
    · rename_i some
      exact .notANumber (full.mp all) (Nat.pos_of_ne_zero fun zero => some (nothing.mpr zero))
  · rename_i notAll
    rw [full] at notAll
    split
    · rename_i none
      split
      · exact .zero (empty.mp none) (nothing.mp ‹_›)
      · refine .subnormal _ (empty.mp none) mantissa ?_
        rw [exponent, empty.mp none, bias, width]
        omega
    · rename_i some
      rw [empty] at some
      refine .normal _ (Nat.pos_of_ne_zero some) (by omega) ?_ ?_
      · rw [toNat_implicit, mantissa]
      · rw [exponent, bias, width]
        omega

theorem toNat_pack_infinity (s : Sign) :
    (UnpackedFloat.pack .binary64 (.infinity s)).toNat =
      s.toBitVec.toNat * 2 ^ 63 + 2047 * 2 ^ 52 := by
  have full : (-1#11).toNat = 2047 := by decide
  refine (toNat_packComponents s (-1#11) 0#52).trans ?_
  rw [full, BitVec.toNat_zero, Nat.add_zero]

theorem toNat_pack_zero (s : Sign) :
    (UnpackedFloat.pack .binary64 (.zero s)).toNat = s.toBitVec.toNat * 2 ^ 63 := by
  refine (toNat_packComponents s 0#11 0#52).trans ?_
  rw [BitVec.toNat_zero, BitVec.toNat_zero, Nat.zero_mul, Nat.add_zero]

theorem toNat_pack_subnormal (s : Sign) {m : Nat} (positive : 0 < m) (small : m < 2 ^ 52) :
    (UnpackedFloat.pack .binary64 (.finite s m (-1074) positive)).toNat =
      s.toBitVec.toNat * 2 ^ 63 + m := by
  have short := (Nat.log2_lt (Nat.ne_of_gt positive)).mpr small
  rw [pack_finite, if_neg (by decide), if_neg (by omega), toNat_packComponents,
    BitVec.toNat_zero, BitVec.toNat_ofNat, Nat.mod_eq_of_lt small, Nat.zero_mul, Nat.add_zero]

theorem toNat_pack_normal (s : Sign) {exponent fraction : Nat} (positive : 0 < 2 ^ 52 + fraction)
    (below : exponent < 2047) (small : fraction < 2 ^ 52) :
    (UnpackedFloat.pack .binary64
      (.finite s (2 ^ 52 + fraction) (exponent - 1075) positive)).toNat =
        s.toBitVec.toNat * 2 ^ 63 + (exponent * 2 ^ 52 + fraction) := by
  have long : (2 ^ 52 + fraction).log2 = 52 := by
    rw [Nat.log2_eq_iff (Nat.ne_of_gt positive)]
    omega
  have exponents : ((exponent : Int) - 1075 + 1075).toNat = exponent := by omega
  have rest : (2 ^ 52 + fraction) % 2 ^ 52 = fraction := by omega
  rw [pack_finite, exponents, if_neg (by omega), if_pos long, toNat_packComponents,
    BitVec.toNat_ofNat, BitVec.toNat_ofNat, rest, Nat.mod_eq_of_lt (by omega), Nat.add_assoc]

/-- Packing what was unpacked changes nothing but the sign. -/
theorem toNat_pack_mapSign (f : Sign → Sign) {b : BitVec Format.binary64.numBits}
    (number : b.toNat % 2 ^ 63 ≤ 2047 * 2 ^ 52) :
    (UnpackedFloat.pack .binary64 (mapSign f (UnpackedFloat.unpack .binary64 b))).toNat =
      (f (signOf b)).toBitVec.toNat * 2 ^ 63 + b.toNat % 2 ^ 63 := by
  have unpacked := unpack_unpacked b
  have parts : b.toNat % 2 ^ 63 = b.toNat % 2 ^ 63 / 2 ^ 52 * 2 ^ 52 + b.toNat % 2 ^ 52 := by omega
  have small : b.toNat % 2 ^ 52 < 2 ^ 52 := Nat.mod_lt _ (by decide)
  rw [parts] at number ⊢
  generalize UnpackedFloat.unpack .binary64 b = u at unpacked
  generalize b.toNat % 2 ^ 63 / 2 ^ 52 = exponent at *
  generalize b.toNat % 2 ^ 52 = fraction at *
  generalize signOf b = s at *
  cases unpacked with
  | infinity all zero =>
      rw [all, zero, Nat.add_zero]
      exact toNat_pack_infinity (f s)
  -- What is not a number lies beyond infinity.
  | notANumber all positive => omega
  | zero none zero =>
      rw [none, zero, Nat.zero_mul, Nat.add_zero]
      exact toNat_pack_zero (f s)
  | subnormal positive none isFraction least =>
      subst isFraction least
      rw [none, Nat.zero_mul, Nat.zero_add]
      exact toNat_pack_subnormal (f s) positive small
  | normal positive some notAll whole biased =>
      subst whole biased
      exact toNat_pack_normal (f s) positive notAll small

variable {x y : Float}

/-- A number, finite or not. -/
def IsNumber (x : Float) : Prop :=
  magnitude x ≤ 2047 * 2 ^ 52

theorem toNat_toBits (x : Float) :
    x.toBits.toNat = (isNegative x).toNat * 2 ^ 63 + magnitude x := by
  have whole : x.toBits.toNat < 2 ^ 64 := x.toBits.toNat_lt
  unfold isNegative magnitude
  rw [show Nat.pow 2 63 = 2 ^ 63 from rfl]
  by_cases top : x.toBits.toNat / 2 ^ 63 = 1
  · simp only [top, beq_self_eq_true, Bool.toNat_true]
    omega
  · simp only [beq_eq_false_iff_ne.mpr top, Bool.toNat_false]
    omega

/-- A reading is its sign and its magnitude. -/
theorem eq_of_magnitude (sign : isNegative x = isNegative y)
    (magnitudes : magnitude x = magnitude y) : x = y := by
  refine Float.toBits_inj.mp (UInt64.toNat_inj.mp ?_)
  rw [toNat_toBits, toNat_toBits, sign, magnitudes]

theorem magnitude_lt (x : Float) : magnitude x < 2 ^ 63 :=
  Nat.mod_lt _ (by decide)

/-- The sign and the magnitude of given bits. -/
theorem isNegative_magnitude {negative : Bool} {m : Nat} (below : m < 2 ^ 63)
    (bits : x.toBits.toNat = negative.toNat * 2 ^ 63 + m) :
    isNegative x = negative ∧ magnitude x = m := by
  unfold isNegative magnitude
  rw [bits, show Nat.pow 2 63 = 2 ^ 63 from rfl]
  cases negative
  · simp only [Bool.toNat_false, beq_eq_false_iff_ne]
    omega
  · simp only [Bool.toNat_true, beq_iff_eq]
    omega

theorem neg_spec (number : IsNumber x) :
    isNegative (-x) = !isNegative x ∧ magnitude (-x) = magnitude x := by
  refine isNegative_magnitude (magnitude_lt x) ?_
  have bits := toNat_pack_mapSign (- ·) number
  rw [← neg_eq_mapSign] at bits
  refine bits.trans (congrArg (· * 2 ^ 63 + magnitude x) ?_)
  rw [isNegative, show Nat.pow 2 63 = 2 ^ 63 from rfl]
  change (-(if x.toBits.toNat / 2 ^ 63 = 1 then Sign.negative else .positive)).toBitVec.toNat = _
  by_cases top : x.toBits.toNat / 2 ^ 63 = 1
  · rw [if_pos top, top]
    rfl
  · rw [if_neg top, beq_eq_false_iff_ne.mpr top]
    rfl

theorem abs_spec (number : IsNumber x) :
    isNegative x.abs = false ∧ magnitude x.abs = magnitude x := by
  refine isNegative_magnitude (magnitude_lt x) ?_
  have bits := toNat_pack_mapSign (fun _ => .positive) number
  rw [← abs_eq_mapSign] at bits
  exact bits

theorem ofBits_spec {m : Nat} (number : m ≤ 2047 * 2 ^ 52) :
    isNegative (Float.ofBits m.toUInt64) = false ∧ magnitude (Float.ofBits m.toUInt64) = m := by
  have same : m.toUInt64.toNat = m := by
    rw [Nat.toUInt64_eq, UInt64.toNat_ofNat']
    omega
  have whole : m.toUInt64.toBitVec.toNat = m := same
  have bits := toNat_pack_mapSign id (b := m.toUInt64.toBitVec) (by omega)
  rw [← eq_mapSign, signOf, whole, if_neg (by omega), Nat.mod_eq_of_lt (by omega)] at bits
  exact isNegative_magnitude (by omega) bits

theorem unpacked (x : Float) : Unpacked (signOf x.toBits.toBitVec) (magnitude x / 2 ^ 52)
    (magnitude x % 2 ^ 52) x.toModel.unpack := by
  have fraction : magnitude x % 2 ^ 52 = x.toBits.toNat % 2 ^ 52 := by
    change x.toBits.toNat % 2 ^ 63 % 2 ^ 52 = _
    omega
  rw [fraction]
  exact unpack_unpacked x.toBits.toBitVec

theorem isFinite_iff : x.isFinite ↔ magnitude x < 2047 * 2 ^ 52 := by
  have below := magnitude_lt x
  have unpacked := unpacked x
  change x.toModel.unpack.isFinite ↔ _
  generalize x.toModel.unpack = u at unpacked
  cases unpacked with
  | infinity all | notANumber all => exact iff_of_false nofun (by omega)
  | zero none | subnormal _ none => exact iff_of_true rfl (by omega)
  | normal _ _ notAll => exact iff_of_true rfl (by omega)

theorem isNaN_iff : x.isNaN ↔ ¬ IsNumber x := by
  have below := magnitude_lt x
  have unpacked := unpacked x
  unfold IsNumber
  change x.toModel.unpack.isNaN ↔ _
  generalize x.toModel.unpack = u at unpacked
  cases unpacked with
  | infinity all zero => exact iff_of_false nofun (by omega)
  | notANumber all positive => exact iff_of_true rfl (by omega)
  | zero none | subnormal _ none => exact iff_of_false nofun (by omega)
  | normal _ _ notAll => exact iff_of_false nofun (by omega)

theorem isNumber_of_isFinite (finite : x.isFinite) : IsNumber x :=
  Nat.le_of_lt (isFinite_iff.mp finite)

theorem not_isNaN (finite : x.isFinite) : ¬ x.isNaN := fun nan =>
  isNaN_iff.mp nan (isNumber_of_isFinite finite)

theorem beq_self (finite : x.isFinite) : x == x := by
  have number := not_isNaN finite
  rw [Float.isNaN_eq_decide_eq_nan, decide_eq_true_eq] at number
  exact Float.beq_self_iff.mpr number

/-- Readings that compare as equal are the same, unless they are zeros. -/
theorem eq_or_zero_of_beq (h : x == y) : x = y ∨ magnitude x = 0 ∧ magnitude y = 0 := by
  obtain ⟨-, -, same | ⟨rfl, rfl⟩ | ⟨rfl, rfl⟩⟩ := Float.beq_iff_ne_nan_and_eq.mp h
  · exact .inl same
  · exact .inr (by decide +kernel)
  · exact .inr (by decide +kernel)

end Qualification.Binary64
