import Qualification.Proofs.Numeric.Nearest

/-! # Rounding

An operation finds the exact quotient as far as a mantissa goes and keeps of the rest whether it
is nothing, below, at or above a half. That is enough to round to the nearest reading, if the
mantissa is wide enough to begin with.
-/

namespace Qualification.Binary64

open Float.Model Float.Model.UnpackedFloat

/-- Two bits tell whether a rest is nothing, below, at or above the half of a whole. -/
inductive Tells (rest whole : Nat) : Bool → Bool → Prop where
  | nothing : rest = 0 → Tells rest whole false false
  | below : 0 < rest → 2 * rest < whole → Tells rest whole false true
  | half : 0 < rest → 2 * rest = whole → Tells rest whole true false
  | above : whole < 2 * rest → rest < whole → Tells rest whole true true

/-- A quotient has a mantissa before the point, and the two bits behind it tell the rest. -/
def Locates (em : ExtendedMantissa) (a b : Nat) : Prop :=
  ∃ rest, a = em.mantissa * b + rest ∧ Tells rest b em.roundBit em.stickyBit

variable {em : ExtendedMantissa} {s : Sign} {a b m n k rest : Nat} {e : Int} {x y : Float}
  {u v : UnpackedFloat}

theorem Tells.lt {round sticky : Bool} (positive : 0 < b) (h : Tells rest b round sticky) :
    rest < b := by
  cases h <;> omega

theorem Locates.div_mod (positive : 0 < b) (h : Locates em a b) :
    em.mantissa = a / b ∧ Tells (a % b) b em.roundBit em.stickyBit := by
  obtain ⟨rest, rfl, told⟩ := h
  have less := told.lt positive
  rw [Nat.mul_comm, Nat.mul_add_div positive, Nat.mul_add_mod, Nat.div_eq_of_lt less,
    Nat.mod_eq_of_lt less]
  exact ⟨rfl, told⟩

theorem Locates.eq_div {accuracy : Accuracy} (positive : 0 < b)
    (h : Locates (.ofMantissaAndAccuracy m accuracy) a b) : m = a / b := by
  rw [← (h.div_mod positive).1]
  cases accuracy with
  | exact => rfl
  | inexact order => cases order <;> rfl

theorem Locates.shiftRightOne (positive : 0 < b) (h : Locates em a b) :
    Locates em.shiftRightOne a (b * 2) := by
  obtain ⟨m, round, sticky⟩ := em
  obtain ⟨rest, rfl, told⟩ := h
  refine ⟨m % 2 * b + rest, ?_, ?_⟩
  · have parts := Nat.div_add_mod m 2
    change m * b + rest = m / 2 * (b * 2) + (m % 2 * b + rest)
    conv_lhs => rw [← parts]
    ring
  · dsimp only [ExtendedMantissa.shiftRightOne] at told ⊢
    -- An odd mantissa leaves half of the new whole.
    rcases Nat.mod_two_eq_zero_or_one m with even | odd
    · rw [even, Nat.zero_mul, Nat.zero_add]
      cases told with
      | nothing none => exact .nothing none
      | below some small => exact .below some (by omega)
      | half some middle => exact .below some (by omega)
      | above large less => exact .below (by omega) (by omega)
    · rw [odd, Nat.one_mul]
      cases told with
      | nothing none => exact .half (by omega) (by omega)
      | below some small => exact .above (by omega) (by omega)
      | half some middle => exact .above (by omega) (by omega)
      | above large less => exact .above (by omega) (by omega)

theorem Locates.shiftRight (positive : 0 < b) (h : Locates em a b) (n : Nat) :
    Locates (em >>> n) a (b * 2 ^ n) := by
  change Locates (n.repeat ExtendedMantissa.shiftRightOne em) a _
  induction n with
  | zero => simpa [Nat.repeat] using h
  | succ n ih =>
      rw [Nat.repeat, Nat.pow_succ, ← Nat.mul_assoc]
      exact ih.shiftRightOne (Nat.mul_pos positive (Nat.two_pow_pos n))

/-- Rounding the mantissa is rounding the quotient. -/
theorem Locates.rounded (positive : 0 < b) (h : Locates em a b) :
    em.roundedMantissa = roundHalfEven (a, b) := by
  obtain ⟨mantissa, round, sticky⟩ := em
  obtain ⟨whole, told⟩ := h.div_mod positive
  dsimp only at whole told
  simp only [roundHalfEven, ← whole, Bool.or_eq_true, Bool.and_eq_true, beq_iff_eq,
    decide_eq_true_eq]
  cases told with
  | nothing none =>
      rw [if_pos (by omega)]
      rfl
  | below some small =>
      rw [if_pos (by omega)]
      rfl
  | half some middle =>
      change mantissa + mantissa % 2 = _
      split <;> omega
  | above large less =>
      rw [if_neg (by omega)]
      rfl

theorem locates_fraction (positive : 0 < b) : Locates
    (.ofMantissaAndAccuracy (a / b) (accuracyOfFraction (a % b) b)) a b := by
  have parts : a = a / b * b + a % b := (Nat.div_add_mod' a b).symm
  have less := Nat.mod_lt a positive
  unfold accuracyOfFraction
  split
  · rename_i none
    exact ⟨a % b, parts, .nothing none⟩
  · rename_i some
    have some : 0 < a % b := Nat.pos_of_ne_zero some
    cases order : compare (2 * (a % b)) b with
    | lt => exact ⟨a % b, parts, .below some (Nat.compare_eq_lt.mp order)⟩
    | eq => exact ⟨a % b, parts, .half some (Nat.compare_eq_eq.mp order)⟩
    | gt => exact ⟨a % b, parts, .above (Nat.compare_eq_gt.mp order) less⟩

theorem locates_exact (m : Nat) : Locates (.ofMantissaAndAccuracy m .exact) m 1 :=
  ⟨0, (Nat.mul_one m).symm, .nothing rfl⟩

/-- How often the smallest unit is doubled for a mantissa to have its digits, and no more. -/
def doublingsOf (m : Nat) (e : Int) : Nat :=
  (m.log2 + e + 1022).toNat

theorem shiftToTargetExponent_eq (m : Nat) (e : Int) (accuracy : Accuracy) :
    shiftToTargetExponent .binary64 m e accuracy =
      (ExtendedMantissa.ofMantissaAndAccuracy m accuracy >>> (doublingsOf m e - 1074 - e).toNat,
        e + (doublingsOf m e - 1074 - e).toNat) := by
  have target : Format.binary64.targetExponent (totalExponent m e) =
      doublingsOf m e - 1074 := by
    change Max.max ((m.log2 : Int) + 1 + e - 53) (-1074) = _
    rw [doublingsOf]
    omega
  rw [shiftToTargetExponent, target, shiftToExponent]

theorem toNat_pack_scaled (s : Sign) (positive : 0 < m) (small : m < 2 ^ 53)
    (full : k = 0 ∨ 2 ^ 52 ≤ m) :
    (UnpackedFloat.pack .binary64 (.finite s m (k - 1074) positive)).toNat =
      s.toBitVec.toNat * 2 ^ 63 + min (k * 2 ^ 52 + m) (2047 * 2 ^ 52) := by
  by_cases subnormal : m < 2 ^ 52
  · obtain rfl : k = 0 := by omega
    refine (toNat_pack_subnormal s positive subnormal).trans ?_
    omega
  · obtain ⟨fraction, rfl⟩ := Nat.exists_eq_add_of_le (Nat.not_lt.mp subnormal)
    by_cases finite : k + 1 < 2047
    · have exponent : ((k + 1 : Nat) : Int) - 1075 = k - 1074 := by omega
      have packed := toNat_pack_normal s positive finite (by omega)
      rw [exponent] at packed
      refine packed.trans ?_
      omega
    · rw [pack_finite, if_pos (by omega)]
      refine (toNat_pack_infinity s).trans ?_
      omega

/-- A rounded mantissa has its digits already, or one too many. -/
theorem shiftToTargetExponent_rounded (most : m ≤ 2 ^ 53) (k : Nat) :
    shiftToTargetExponent .binary64 m (k - 1074) .exact =
      if m < 2 ^ 53 then (ExtendedMantissa.mk m false false, (k : Int) - 1074)
      else (ExtendedMantissa.mk (2 ^ 52) false false, ((k + 1 : Nat) : Int) - 1074) := by
  rw [shiftToTargetExponent_eq]
  split
  · rename_i small
    have digits : m.log2 < 53 := by
      by_cases zero : m = 0
      · rw [zero]
        decide
      · exact (Nat.log2_lt zero).mpr small
    have none : ((doublingsOf m (k - 1074) : Int) - 1074 - (k - 1074)).toNat = 0 := by
      rw [doublingsOf]
      omega
    rw [none]
    exact Prod.ext rfl (Int.add_zero _)
  · obtain rfl : m = 2 ^ 53 := by omega
    have one : ((doublingsOf (2 ^ 53) (k - 1074) : Int) - 1074 - (k - 1074)).toNat = 1 := by
      rw [doublingsOf, Nat.log2_two_pow]
      omega
    rw [one]
    refine Prod.ext rfl ?_
    dsimp only
    omega

theorem le_roundHalfEven (r : Nat × Nat) : r.1 / r.2 ≤ roundHalfEven r := by
  unfold roundHalfEven
  dsimp only
  split
  · exact Nat.le_refl _
  · exact Nat.le_succ _

/-- A rounded mantissa is packed with its digits. -/
theorem toNat_pack_rounded {em : ExtendedMantissa} (s : Sign)
    (final : shiftToTargetExponent .binary64 m (k - 1074) .exact = (em, e))
    (most : m ≤ 2 ^ 53) (full : k = 0 ∨ 2 ^ 52 ≤ m) :
    (UnpackedFloat.pack .binary64 (if h : em.mantissa = 0 then .zero s
      else .finite s em.mantissa e (Nat.pos_of_ne_zero h))).toNat =
        s.toBitVec.toNat * 2 ^ 63 + min (k * 2 ^ 52 + m) (2047 * 2 ^ 52) := by
  rw [shiftToTargetExponent_rounded most] at final
  by_cases fits : m < 2 ^ 53
  · rw [if_pos fits] at final
    obtain ⟨rfl, rfl⟩ := Prod.mk.inj final
    by_cases zero : m = 0
    · obtain rfl : k = 0 := by omega
      rw [dif_pos zero]
      refine (toNat_pack_zero s).trans ?_
      omega
    · rw [dif_neg zero]
      exact toNat_pack_scaled s (Nat.pos_of_ne_zero zero) fits full
  · rw [if_neg fits] at final
    obtain ⟨rfl, rfl⟩ := Prod.mk.inj final
    have some : 0 < 2 ^ 52 := Nat.two_pow_pos 52
    rw [dif_neg (Nat.ne_of_gt some)]
    refine (toNat_pack_scaled s some (by omega) (.inr (Nat.le_refl _))).trans ?_
    omega

/-- A mantissa, cut off behind its digits. -/
theorem cut_bounds (wide : 52 ≤ m.log2 ∨ e ≤ -1074)
    (shift : (doublingsOf m e - 1074 - e).toNat = n) :
    m / 2 ^ n < 2 ^ 53 ∧ (doublingsOf m e = 0 ∨ 2 ^ 52 ≤ m / 2 ^ n) := by
  rw [doublingsOf] at *
  have most := Nat.lt_log2_self (n := m)
  constructor
  · refine Nat.div_lt_of_lt_mul (Nat.lt_of_lt_of_le most ?_)
    rw [← Nat.pow_add]
    exact Nat.pow_le_pow_right (by decide) (by omega)
  · by_cases none : (m.log2 + e + 1022).toNat = 0
    · exact .inl none
    · right
      have some : m ≠ 0 := by
        rintro rfl
        simp at *
        omega
      refine (Nat.le_div_iff_mul_le (Nat.two_pow_pos n)).mpr ?_
      rw [← Nat.pow_add]
      exact Nat.le_trans (Nat.pow_le_pow_right (by decide) (by omega)) (Nat.log2_self_le some)

theorem toNat_pack_round (positive : 0 < b) {accuracy : Accuracy}
    (located : Locates (.ofMantissaAndAccuracy m accuracy) a b)
    (wide : 52 ≤ m.log2 ∨ e ≤ -1074) :
    (UnpackedFloat.pack .binary64 (roundWithAccuracy .binary64 s m e accuracy)).toNat =
      s.toBitVec.toNat * 2 ^ 63 + min (doublingsOf m e * 2 ^ 52 +
        roundHalfEven (a, b * 2 ^ (doublingsOf m e - 1074 - e).toNat)) (2047 * 2 ^ 52) := by
  generalize shift : (doublingsOf m e - 1074 - e).toNat = n
  have shifted := located.shiftRight positive n
  have unit : 0 < b * 2 ^ n := Nat.mul_pos positive (Nat.two_pow_pos n)
  have target : e + n = doublingsOf m e - 1074 := by
    rw [doublingsOf] at shift ⊢
    omega
  have whole : a / (b * 2 ^ n) = m / 2 ^ n := by
    rw [← Nat.div_div_eq_div_mul, ← located.eq_div positive]
  obtain ⟨small, full⟩ := cut_bounds wide shift
  have most := roundHalfEven_le (a, b * 2 ^ n)
  have least := le_roundHalfEven (a, b * 2 ^ n)
  dsimp only at most least
  rw [whole] at most least
  rw [roundWithAccuracy, shiftToTargetExponent_eq, shift]
  dsimp only
  rw [shifted.rounded unit, target]
  exact toNat_pack_rounded s rfl (Nat.le_trans most small)
    (full.imp_right fun digits => Nat.le_trans digits least)

theorem log2_div_two_pow (m n : Nat) : (m / 2 ^ n).log2 = m.log2 - n := by
  induction n with
  | zero => simp
  | succ n ih =>
      rw [Nat.pow_succ, ← Nat.div_div_eq_div_mul, ← Nat.sub_sub, ← ih]
      generalize m / 2 ^ n = m
      by_cases digits : 2 ≤ m
      · rw [Nat.log2_def m, if_pos digits, Nat.add_sub_cancel]
      · have none : m / 2 = 0 := by omega
        rw [Nat.log2_def m, if_neg digits, none, Nat.log2_zero]

theorem log2_mul_two_pow (some : 0 < a / b) (n : Nat) :
    (a * 2 ^ n / b).log2 = (a / b).log2 + n := by
  have positive : 0 < b := by
    refine Nat.pos_of_ne_zero fun zero => ?_
    rw [zero, Nat.div_zero] at some
    exact Nat.lt_irrefl 0 some
  have least := Nat.log2_self_le (Nat.ne_of_gt some)
  have most := Nat.lt_log2_self (n := a / b)
  rw [Nat.le_div_iff_mul_le positive] at least
  rw [Nat.div_lt_iff_lt_mul positive] at most
  generalize (a / b).log2 = digits at least most
  have least : 2 ^ (digits + n) ≤ a * 2 ^ n / b := by
    rw [Nat.le_div_iff_mul_le positive, Nat.pow_add, Nat.mul_right_comm]
    exact Nat.mul_le_mul_right _ least
  refine (Nat.log2_eq_iff (Nat.ne_of_gt (Nat.lt_of_lt_of_le (Nat.two_pow_pos _) least))).mpr
    ⟨least, ?_⟩
  rw [Nat.div_lt_iff_lt_mul positive, Nat.add_right_comm, Nat.pow_add, Nat.mul_right_comm]
  exact Nat.mul_lt_mul_of_pos_right most (Nat.two_pow_pos n)

theorem log2_scaled {p q : Nat} (wide : 0 < a / b ∨ p ≤ q) :
    (a * 2 ^ p / (b * 2 ^ q)).log2 = (a / b).log2 + p - q := by
  rcases Nat.le_total p q with less | more
  · obtain ⟨r, rfl⟩ := Nat.exists_eq_add_of_le less
    rw [Nat.pow_add, ← Nat.mul_assoc, Nat.mul_right_comm,
      Nat.mul_div_mul_right _ _ (Nat.two_pow_pos p), ← Nat.div_div_eq_div_mul, log2_div_two_pow]
    omega
  · obtain ⟨r, rfl⟩ := Nat.exists_eq_add_of_le more
    rw [Nat.pow_add, ← Nat.mul_assoc, Nat.mul_right_comm,
      Nat.mul_div_mul_right _ _ (Nat.two_pow_pos q)]
    by_cases none : r = 0
    · subst none
      simp
    · rw [log2_mul_two_pow (wide.resolve_right (by omega))]
      omega

/-- The bits nearest to a quotient times a power of two. -/
theorem nearestBits_wide (wide : 52 ≤ (a / b).log2 ∨ e ≤ -1074) :
    nearestBits (a * 2 ^ e.toNat, b * 2 ^ (-e).toNat) =
      doublingsOf (a / b) e * 2 ^ 52 +
        roundHalfEven (a, b * 2 ^ (doublingsOf (a / b) e - 1074 - e).toNat) := by
  have units : a * 2 ^ e.toNat * unitsInOne = a * 2 ^ (e.toNat + 1074) := by
    rw [unitsInOne_eq, Nat.mul_assoc, ← Nat.pow_add, leastPlace]
  have some : 0 < a / b ∨ e.toNat + 1074 ≤ (-e).toNat := by
    rcases wide with digits | small
    · left
      refine Nat.pos_of_ne_zero fun zero => ?_
      rw [zero, Nat.log2_zero] at digits
      omega
    · right
      omega
  have doublings : (a * 2 ^ (e.toNat + 1074) / (b * 2 ^ (-e).toNat)).log2 - 52 =
      doublingsOf (a / b) e := by
    rw [log2_scaled some, doublingsOf]
    omega
  have powers : (doublingsOf (a / b) e - 1074 - e).toNat + (e.toNat + 1074) =
      (-e).toNat + doublingsOf (a / b) e := by
    rw [doublingsOf]
    omega
  simp only [nearestBits, units, doublings, Nat.pow_eq]
  rw [Nat.mul_assoc b, ← Nat.pow_add, ← powers, Nat.pow_add _ _ (e.toNat + 1074), ← Nat.mul_assoc b,
    roundHalfEven_scale (Nat.two_pow_pos _)]

/-- An operation that finds a wide enough mantissa gives the reading nearest to its result. -/
theorem toNat_pack_nearest (positive : 0 < b) {accuracy : Accuracy}
    (located : Locates (.ofMantissaAndAccuracy m accuracy) a b)
    (wide : 52 ≤ m.log2 ∨ e ≤ -1074) :
    (UnpackedFloat.pack .binary64 (roundWithAccuracy .binary64 s m e accuracy)).toNat =
      s.toBitVec.toNat * 2 ^ 63 +
        min (nearestBits (a * 2 ^ e.toNat, b * 2 ^ (-e).toNat)) (2047 * 2 ^ 52) := by
  have whole := located.eq_div positive
  rw [toNat_pack_round positive located wide]
  rw [whole] at wide ⊢
  rw [nearestBits_wide wide]

theorem packComponents_isNumber (s : Sign) {exponent : BitVec 11} (fraction : BitVec 52)
    (below : exponent.toNat < 2047) :
    (packComponents Format.binary64 s exponent fraction).toNat % 2 ^ 63 ≤ 2047 * 2 ^ 52 := by
  have small := fraction.isLt
  rw [toNat_packComponents]
  omega

theorem pack_isNumber (number : u ≠ .notANumber) :
    (UnpackedFloat.pack .binary64 u).toNat % 2 ^ 63 ≤ 2047 * 2 ^ 52 := by
  cases u with
  | notANumber => exact absurd rfl number
  | infinity s =>
      rw [toNat_pack_infinity]
      omega
  | zero s =>
      rw [toNat_pack_zero]
      omega
  | finite s m e positive =>
      have infinity := toNat_pack_infinity s
      rw [pack_finite]
      split
      · change (UnpackedFloat.pack .binary64 (.infinity s)).toNat % 2 ^ 63 ≤ _
        omega
      · split
        · refine packComponents_isNumber s _ ?_
          rw [BitVec.toNat_ofNat]
          omega
        · exact packComponents_isNumber s _ (by decide)

theorem isNumber_pack (number : u ≠ .notANumber) : IsNumber (.ofModel (.pack u)) :=
  pack_isNumber number

theorem roundWithAccuracy_ne_notANumber (accuracy : Accuracy) :
    roundWithAccuracy .binary64 s m e accuracy ≠ .notANumber := by
  unfold roundWithAccuracy
  dsimp only
  split <;> nofun

theorem normalize_ne_notANumber (m e : Int) (s : Sign) :
    UnpackedFloat.normalize .binary64 m e s ≠ .notANumber := by
  unfold UnpackedFloat.normalize
  split
  · exact roundWithAccuracy_ne_notANumber _
  · nofun
  · exact roundWithAccuracy_ne_notANumber _

theorem sub_ne_notANumber (hu : u.isFinite) (hv : v.isFinite) :
    u.sub .binary64 v ≠ .notANumber := by
  cases u with
  | infinity | notANumber => cases hu
  | zero =>
    cases v with
    | infinity | notANumber => cases hv
    | zero =>
        simp only [UnpackedFloat.sub]
        split <;> nofun
    | finite => nofun
  | finite =>
    cases v with
    | infinity | notANumber => cases hv
    | zero => nofun
    | finite => exact normalize_ne_notANumber _ _ _

/-- The difference of finite readings may be infinite, but is a number. -/
theorem isNumber_sub (hx : x.isFinite) (hy : y.isFinite) : IsNumber (x - y) :=
  isNumber_pack (sub_ne_notANumber hx hy)

end Qualification.Binary64
