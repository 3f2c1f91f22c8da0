import Qualification.Proofs.Numeric.Bits

/-! # The reading nearest to a quotient

It depends on the quotient alone and not on how that is written. A quotient that is a finite
reading already is nearest to itself.
-/

namespace Qualification.Binary64

variable {a b k : Nat}

theorem roundHalfEven_scale (positive : 0 < k) :
    roundHalfEven (a * k, b * k) = roundHalfEven (a, b) := by
  have twice : 2 * (a * k % (b * k)) = 2 * (a % b) * k := by
    rw [Nat.mul_mod_mul_right, Nat.mul_assoc]
  have less : 2 * (a % b) * k < b * k ↔ 2 * (a % b) < b := Nat.mul_lt_mul_right positive
  have same : 2 * (a % b) * k = b * k ↔ 2 * (a % b) = b :=
    Nat.mul_left_inj (Nat.ne_of_gt positive)
  have equal : (2 * (a % b) * k == b * k) = (2 * (a % b) == b) := by
    rw [Bool.eq_iff_iff, beq_iff_eq, beq_iff_eq, same]
  simp only [roundHalfEven, Nat.mul_div_mul_right a b positive, twice, less, equal]

theorem roundHalfEven_exact (positive : 0 < b) : roundHalfEven (a * b, b) = a := by
  simp [roundHalfEven, Nat.mul_div_cancel a positive, positive]

theorem roundHalfEven_le (r : Nat × Nat) : roundHalfEven r ≤ r.1 / r.2 + 1 := by
  unfold roundHalfEven
  dsimp only
  split
  · exact Nat.le_succ _
  · exact Nat.le_refl _

theorem nearestBits_scale (positive : 0 < k) :
    nearestBits (a * k, b * k) = nearestBits (a, b) := by
  have units : a * k * unitsInOne = a * unitsInOne * k := Nat.mul_right_comm _ _ _
  have whole : a * unitsInOne * k / (b * k) = a * unitsInOne / b :=
    Nat.mul_div_mul_right _ _ positive
  simp only [nearestBits, units, whole, Nat.mul_right_comm b k, roundHalfEven_scale positive]

theorem log2_doubled {s doublings : Nat} (small : s < 2 ^ 53)
    (full : doublings = 0 ∨ 2 ^ 52 ≤ s) :
    Nat.log2 (s * 2 ^ doublings) - 52 = doublings := by
  by_cases zero : s = 0
  · subst zero
    simp_all
  have positive : s * 2 ^ doublings ≠ 0 := Nat.mul_ne_zero zero (Nat.ne_of_gt (Nat.two_pow_pos _))
  have most : Nat.log2 (s * 2 ^ doublings) < 53 + doublings := by
    rw [Nat.log2_lt positive, Nat.pow_add]
    exact Nat.mul_lt_mul_of_pos_right small (Nat.two_pow_pos _)
  rcases full with none | full
  · omega
  · have least : 52 + doublings ≤ Nat.log2 (s * 2 ^ doublings) := by
      rw [Nat.le_log2 positive, Nat.pow_add]
      exact Nat.mul_le_mul_right _ full
    omega

/-- The bits nearest to a quotient that is a reading already. -/
theorem nearestBits_exact {s doublings : Nat} (positive : 0 < b)
    (units : a * unitsInOne = s * 2 ^ doublings * b) (small : s < 2 ^ 53)
    (full : doublings = 0 ∨ 2 ^ 52 ≤ s) : nearestBits (a, b) = doublings * 2 ^ 52 + s := by
  have whole : a * unitsInOne / b = s * 2 ^ doublings := by
    rw [units, Nat.mul_div_cancel _ positive]
  have exact : roundHalfEven (s * 2 ^ doublings * b, b * 2 ^ doublings) = s := by
    rw [Nat.mul_assoc, Nat.mul_comm (2 ^ doublings)]
    exact roundHalfEven_exact (Nat.mul_pos positive (Nat.two_pow_pos _))
  have doubled : Nat.log2 (a * unitsInOne / b) - 52 = doublings := by
    rw [whole, log2_doubled small full]
  simp only [nearestBits, doubled]
  rw [units]
  exact congrArg _ exact

theorem nearestBits_le (r : Nat × Nat) : nearestBits r ≤
    (Nat.log2 (r.1 * unitsInOne / r.2) - 52) * 2 ^ 52 + 2 ^ 53 := by
  refine Nat.add_le_add_left (Nat.le_trans (roundHalfEven_le _) (Nat.succ_le_of_lt ?_)) _
  dsimp only
  generalize r.1 * unitsInOne = units
  rw [← Nat.div_div_eq_div_mul]
  refine Nat.div_lt_of_lt_mul (Nat.lt_of_lt_of_le Nat.lt_log2_self ?_)
  rw [Nat.pow_eq, ← Nat.pow_add]
  exact Nat.pow_le_pow_right (by decide) (by omega)

theorem nearest_spec (r : Nat × Nat) : isNegative (nearest r) = false ∧
    magnitude (nearest r) = min (nearestBits r) (2047 * 2 ^ 52) :=
  ofBits_spec (Nat.min_le_right _ _)

theorem unitsInOne_eq : unitsInOne = 2 ^ leastPlace := by
  delta unitsInOne
  rw [Nat.pow_eq]

theorem two_pow_split {e : Int} {n : Nat} (h : e + leastPlace = n) :
    Nat.pow 2 e.toNat * unitsInOne = 2 ^ n * Nat.pow 2 (-e).toNat := by
  have exponents : e.toNat + leastPlace = n + (-e).toNat := by omega
  rw [unitsInOne_eq, Nat.pow_eq, Nat.pow_eq, ← Nat.pow_add, ← Nat.pow_add, exponents]

theorem nearestBits_scaled {b : Binary64} {doublings : Nat}
    (h : b.exponent + leastPlace = doublings) (small : b.significand < 2 ^ 53)
    (full : doublings = 0 ∨ 2 ^ 52 ≤ b.significand) :
    nearestBits b.ratio = doublings * 2 ^ 52 + b.significand := by
  refine nearestBits_exact (Nat.two_pow_pos _) ?_ small full
  rw [Nat.mul_assoc, two_pow_split h, Nat.mul_assoc]

theorem log2_units {n m : Nat} (small : n < 2 ^ m) (positive : 0 < n) :
    Nat.log2 (n * unitsInOne) < m + leastPlace := by
  have one : 0 < 2 ^ leastPlace := Nat.two_pow_pos _
  rw [unitsInOne_eq, Nat.log2_lt (Nat.ne_of_gt (Nat.mul_pos positive one)), Nat.pow_add]
  exact Nat.mul_lt_mul_of_pos_right small one

/-- The exact value of a finite reading, by its magnitude. -/
theorem ofFloat?_eq_some {x : Float} {b : Binary64} (h : ofFloat? x = some b) :
    (magnitude x < 2 ^ 52 ∧ b = ⟨isNegative x, magnitude x, -1074⟩) ∨
      (2 ^ 52 ≤ magnitude x ∧ magnitude x < 2047 * 2 ^ 52 ∧
        b = ⟨isNegative x, magnitude x % 2 ^ 52 + 2 ^ 52,
          (magnitude x / 2 ^ 52 : Nat) - 1075⟩) := by
  have below := magnitude_lt x
  rw [ofFloat?, show Nat.pow 2 52 = 2 ^ 52 from rfl] at h
  split at h
  · cases h
  · split at h
    · left
      have small : magnitude x < 2 ^ 52 := by omega
      rw [Nat.mod_eq_of_lt small] at h
      exact ⟨small, (Option.some.inj h).symm⟩
    · right
      exact ⟨by omega, by omega, (Option.some.inj h).symm⟩

theorem ofFloat?_isSome {x : Float} : (ofFloat? x).isSome ↔ x.isFinite := by
  have below := magnitude_lt x
  rw [isFinite_iff, ofFloat?, show Nat.pow 2 52 = 2 ^ 52 from rfl]
  split
  · exact iff_of_false nofun (by omega)
  · split
    · exact iff_of_true rfl (by omega)
    · exact iff_of_true rfl (by omega)

theorem ofFloat?_bounds {x : Float} {b : Binary64} (h : ofFloat? x = some b) :
    b.significand < 2 ^ 53 ∧ -1074 ≤ b.exponent ∧ b.exponent ≤ 971 := by
  rcases ofFloat?_eq_some h with ⟨_, rfl⟩ | ⟨_, _, rfl⟩ <;> dsimp only <;> omega

theorem significand_eq_zero {x : Float} {b : Binary64} (h : ofFloat? x = some b) :
    b.significand = 0 ↔ magnitude x = 0 := by
  rcases ofFloat?_eq_some h with ⟨_, rfl⟩ | ⟨_, _, rfl⟩ <;> dsimp only <;> omega

/-- A finite reading is the one nearest to its own value. -/
theorem nearestBits_ratio {x : Float} {b : Binary64} (h : ofFloat? x = some b) :
    nearestBits b.ratio = magnitude x := by
  rcases ofFloat?_eq_some h with ⟨small, rfl⟩ | ⟨least, most, rfl⟩
  · have exponent : (-1074 : Int) + leastPlace = (0 : Nat) := rfl
    rw [nearestBits_scaled exponent (Nat.lt_trans small (by decide)) (.inl rfl), Nat.zero_mul,
      Nat.zero_add]
  · have exponent : ((magnitude x / 2 ^ 52 : Nat) : Int) - 1075 + leastPlace =
        (magnitude x / 2 ^ 52 - 1 : Nat) := by
      rw [leastPlace]
      omega
    rw [nearestBits_scaled exponent (by dsimp only; omega) (.inr (Nat.le_add_left _ _))]
    dsimp only
    omega

theorem nearest_ratio {x : Float} {b : Binary64} (h : ofFloat? x = some b) :
    nearest b.ratio = x.abs := by
  have finite : magnitude x < 2047 * 2 ^ 52 :=
    isFinite_iff.mp (ofFloat?_isSome.mp (by simp [h]))
  obtain ⟨positive, bits⟩ := nearest_spec b.ratio
  obtain ⟨positive', bits'⟩ := abs_spec (Nat.le_of_lt finite)
  refine eq_of_magnitude (positive.trans positive'.symm) ?_
  rw [bits, bits', nearestBits_ratio h]
  exact Nat.min_eq_left (Nat.le_of_lt finite)

theorem zero_spec : isNegative 0.0 = false ∧ magnitude 0.0 = 0 := by
  decide +kernel

theorem abs_of_zero {x : Float} (zero : magnitude x = 0) : x.abs = 0.0 := by
  obtain ⟨positive, same⟩ := abs_spec (x := x) (by rw [IsNumber, zero]; exact Nat.zero_le _)
  exact eq_of_magnitude (positive.trans zero_spec.1.symm) (same.trans (zero.trans zero_spec.2.symm))

theorem ofInt_isFinite {n : Int} (small : n.natAbs < 2 ^ 64) : (ofInt n).isFinite := by
  have digits : Nat.log2 (n.natAbs * unitsInOne / 1) < 64 + leastPlace := by
    rw [Nat.div_one]
    by_cases zero : n.natAbs = 0
    · rw [zero, Nat.zero_mul]
      decide
    · exact log2_units small (Nat.pos_of_ne_zero zero)
  have bits : nearestBits (n.natAbs, 1) < 2047 * 2 ^ 52 := by
    refine Nat.lt_of_le_of_lt (nearestBits_le _) ?_
    rw [leastPlace] at digits
    dsimp only
    omega
  obtain ⟨_, magnitude⟩ := nearest_spec (n.natAbs, 1)
  rw [Nat.min_eq_left (Nat.le_of_lt bits)] at magnitude
  rw [isFinite_iff, ofInt]
  split
  · rw [(neg_spec (by rw [IsNumber, magnitude]; exact Nat.le_of_lt bits)).2, magnitude]
    exact bits
  · rw [magnitude]
    exact bits

end Qualification.Binary64
