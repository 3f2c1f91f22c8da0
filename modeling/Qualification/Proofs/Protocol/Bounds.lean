import Qualification.Proofs.Numeric.Exact
import Qualification.Proofs.Protocol.Layout

/-! # Declared bounds

A number that is given for a parameter is compared with the declared bounds as the reading nearest
to it. So the check is exact for a number that is a reading itself. An integer of more than 53
digits also passes a bound that it is rounded to, and a bound that is not a number, which the rules
for protocols do not exclude, keeps nothing out.
-/

namespace Qualification

open Binary64

namespace Json

variable {v : Json} {q : ℚ} {bound : Float}

/-- The number that a value is: an integer that fits a word, or a finite reading. -/
inductive Denotes : Json → ℚ → Prop where
  | integer {n : Int} : Word.holds 64 n → Denotes (.integer n) n
  | float {x : Float} {b : Binary64} : Binary64.ofFloat? x = some b → Denotes (.float x) b.toRat

/-- How a value gets past a bound unseen: the bound is not a number, or it is the reading that the
    value is rounded to. -/
inductive Evades : Json → Float → Prop where
  | nan {v : Json} {bound : Float} : bound.isNaN → Evades v bound
  | rounded {n : Int} {bound : Float} : RoundedTo n bound → Evades (.integer n) bound

theorem evades_integer_iff {n : Int} (number : IsNumber bound) :
    Evades (.integer n) bound ↔ RoundedTo n bound := by
  refine ⟨fun evades => ?_, .rounded⟩
  cases evades with
  | nan nan => exact absurd number (isNaN_iff.mp nan)
  | rounded rounded => exact rounded

theorem not_evades_float {x : Float} (number : IsNumber bound) :
    ¬ Evades (.float x) bound := by
  rintro ⟨nan⟩
  exact isNaN_iff.mp nan number

/-- A reading stands in for a number in every comparison. -/
structure ComparedAs (v : Json) (q : ℚ) (x : Float) : Prop where
  reading : v.toFloat? = some x
  whole : ParameterDef.isWhole x ↔ ∃ z : Int, q = z
  low : ∀ bound, ¬ x < bound ↔ AtLeast bound q ∨ v.Evades bound
  high : ∀ bound, ¬ bound < x ↔ AtMost bound q ∨ v.Evades bound

theorem not_lt_of_isNaN {x : Float} (nan : bound.isNaN) : ¬ x < bound ∧ ¬ bound < x :=
  ⟨fun below => isNaN_iff.mp nan (isNumber_of_le (le_of_lt below)).2,
    fun above => isNaN_iff.mp nan (isNumber_of_le (le_of_lt above)).1⟩

/-- Comparisons with a bound that is not a number are never true, so that only the others need
    to be looked at. -/
theorem ComparedAs.of_numbers {x : Float} (reading : v.toFloat? = some x)
    (whole : ParameterDef.isWhole x ↔ ∃ z : Int, q = z)
    (low : ∀ bound, IsNumber bound → (¬ x < bound ↔ AtLeast bound q ∨ v.Evades bound))
    (high : ∀ bound, IsNumber bound → (¬ bound < x ↔ AtMost bound q ∨ v.Evades bound)) :
    ComparedAs v q x := by
  refine ⟨reading, whole, fun bound => ?_, fun bound => ?_⟩
  · by_cases nan : bound.isNaN
    · exact iff_of_true (not_lt_of_isNaN nan).1 (.inr (.nan nan))
    · exact low bound (not_not.mp (mt isNaN_iff.mpr nan))
  · by_cases nan : bound.isNaN
    · exact iff_of_true (not_lt_of_isNaN nan).2 (.inr (.nan nan))
    · exact high bound (not_not.mp (mt isNaN_iff.mpr nan))

/-- Every number has a reading that is compared in its place. -/
theorem Denotes.exists_comparedAs (h : Denotes v q) : ∃ x, ComparedAs v q x := by
  cases h with
  | @integer n held =>
      obtain ⟨b, value, whole⟩ := exists_whole_ofInt held
      refine ⟨ofInt n, .of_numbers rfl ?_ (fun bound number => ?_) fun bound number => ?_⟩
      · rw [ParameterDef.isWhole, value]
        exact iff_of_true whole ⟨n, rfl⟩
      · rw [evades_integer_iff number]
        exact not_ofInt_lt_iff number
      · rw [evades_integer_iff number]
        exact not_lt_ofInt_iff number
  | @float x b value =>
      refine ⟨x, .of_numbers rfl ?_ (fun bound number => ?_) fun bound number => ?_⟩
      · rw [ParameterDef.isWhole, value]
        exact isWhole_iff
      · rw [or_iff_left (not_evades_float number)]
        exact not_lt_bound_iff value number
      · rw [or_iff_left (not_evades_float number)]
        exact not_bound_lt_iff value number

end Json

namespace ParameterDef

variable {d : ParameterDef} {v : Json} {q : ℚ} {x low : Float}

theorem checkBounds_ok : d.checkBounds x = .ok () ↔
    (∀ low, d.min = some low → ¬ x < low) ∧ ∀ high, d.max = some high → ¬ high < x := by
  unfold checkBounds
  split
  · rename_i below
    obtain ⟨low, given, less⟩ := (Option.any_eq_true ..).mp below
    exact iff_of_false nofun fun h => h.1 low given (of_decide_eq_true less)
  · rename_i notBelow
    split
    · rename_i above
      obtain ⟨high, given, less⟩ := (Option.any_eq_true ..).mp above
      exact iff_of_false nofun fun h => h.2 high given (of_decide_eq_true less)
    · rename_i notAbove
      refine iff_of_true rfl ⟨fun low given less => notBelow ?_, fun high given less => notAbove ?_⟩
      · rw [given]
        exact decide_eq_true less
      · rw [given]
        exact decide_eq_true less

/-- Has the parameter a number as its value? -/
def Numeric (d : ParameterDef) : Prop :=
  d.type = .float ∨ d.type = .integer

theorem check_ok_of_reading (numeric : d.Numeric) (reading : v.toFloat? = some x) :
    d.check v = .ok () ↔ (d.type = .integer → isWhole x) ∧ d.checkBounds x = .ok () := by
  unfold check
  rcases numeric with type | type
  · rw [type, reading]
    exact (and_iff_right (by simp)).symm
  · rw [type, reading]
    dsimp only
    split
    · rename_i whole
      exact (and_iff_right fun _ => whole).symm
    · rename_i fraction
      exact iff_of_false nofun fun h => fraction (h.1 rfl)

/-- A number is of the declared type and within the declared bounds exactly. -/
structure Within (d : ParameterDef) (q : ℚ) : Prop where
  whole : d.type = .integer → ∃ z : Int, q = z
  min : ∀ low, d.min = some low → AtLeast low q
  max : ∀ high, d.max = some high → AtMost high q

/-- A number is of the declared type, and within those of the declared bounds that see it. -/
structure Admits (d : ParameterDef) (v : Json) (q : ℚ) : Prop where
  whole : d.type = .integer → ∃ z : Int, q = z
  min : ∀ low, d.min = some low → AtLeast low q ∨ v.Evades low
  max : ∀ high, d.max = some high → AtMost high q ∨ v.Evades high

theorem Within.admits (h : d.Within q) (v : Json) : d.Admits v q :=
  ⟨h.whole, fun low given => .inl (h.min low given), fun high given => .inl (h.max high given)⟩

theorem Admits.within (h : d.Admits v q)
    (seen : ∀ bound, d.min = some bound ∨ d.max = some bound → ¬ v.Evades bound) :
    d.Within q where
  whole := h.whole
  min low given := (h.min low given).resolve_right (seen low (.inl given))
  max high given := (h.max high given).resolve_right (seen high (.inr given))

theorem check_ok_iff_admits (numeric : d.Numeric) (number : v.Denotes q) :
    d.check v = .ok () ↔ d.Admits v q := by
  obtain ⟨x, compared⟩ := number.exists_comparedAs
  rw [check_ok_of_reading numeric compared.reading, checkBounds_ok]
  constructor
  · rintro ⟨whole, low, high⟩
    exact ⟨fun type => compared.whole.mp (whole type),
      fun bound given => (compared.low bound).mp (low bound given),
      fun bound given => (compared.high bound).mp (high bound given)⟩
  · rintro ⟨whole, low, high⟩
    exact ⟨fun type => compared.whole.mpr (whole type),
      fun bound given => (compared.low bound).mpr (low bound given),
      fun bound given => (compared.high bound).mpr (high bound given)⟩

/-- The check passes a number that is within the bounds exactly, and one that is not just if a
    bound does not see it. -/
theorem check_enforces (numeric : d.Numeric) (number : v.Denotes q) :
    (d.check v = .ok () ↔ d.Admits v q) ∧
      ((∀ bound, d.min = some bound ∨ d.max = some bound → ¬ v.Evades bound) →
        (d.check v = .ok () ↔ d.Within q)) := by
  have admitted := check_ok_iff_admits numeric number
  exact ⟨admitted, fun seen => admitted.trans ⟨fun h => h.within seen, fun h => h.admits v⟩⟩

/-- A bound that is not a number is as good as none, though no number is within it. -/
theorem check_of_isNaN (nan : low.isNaN) (v : Json) (q : ℚ) :
    { d with min := some low }.check v = { d with min := none }.check v ∧
      ¬ { d with min := some low }.Within q := by
  constructor
  · have bounds (x : Float) :
        { d with min := some low }.checkBounds x = { d with min := none }.checkBounds x := by
      simp only [checkBounds, Option.any_some, Option.any_none, (Json.not_lt_of_isNaN nan).1,
        decide_false, Bool.false_eq_true, if_false]
    simp only [check, bounds]
  · intro within
    exact isNaN_iff.mp nan (isNumber_of_atLeast (within.min low rfl))

/-- An illustration: a count whose largest value is the last one before integers are rounded. -/
def pulses : ParameterDef :=
  ⟨"pulses", .integer, none, some 0.0, some 9007199254740992.0, none⟩

theorem pulses_enforced : pulses.Numeric ∧ (Json.integer 40).Denotes (40 : Int) ∧
    (∀ bound, pulses.min = some bound ∨ pulses.max = some bound →
      ¬ (Json.integer 40).Evades bound) ∧
    pulses.check (.integer 40) = .ok () ∧ pulses.Within (40 : Int) := by
  have number : (Json.integer 40).Denotes (40 : Int) := .integer (Word.holds_iff.mpr (by decide))
  have seen : ∀ bound, pulses.min = some bound ∨ pulses.max = some bound →
      ¬ (Json.integer 40).Evades bound := by
    rintro bound given (nan | ⟨many, -⟩)
    · rcases given with given | given
      · rw [← Option.some.inj given] at nan
        exact absurd nan (by decide +kernel)
      · rw [← Option.some.inj given] at nan
        exact absurd nan (by decide +kernel)
    · exact absurd many (by decide)
  have passes : pulses.check (.integer 40) = .ok () := by decide +kernel
  exact ⟨.inr rfl, number, seen, passes,
    ((check_enforces (.inr rfl) number).2 seen).mp passes⟩

theorem pulses_valid : pulses.Valid where
  named := by decide +kernel
  ordered low high given given' := by
    rw [← Option.some.inj given, ← Option.some.inj given']
    decide +kernel
  default := nofun

/-- The valid protocol of two phases stays valid with a valid parameter. -/
theorem withParameter_valid (valid : d.Valid) :
    Validation.check { ProtocolDefinition.twoPhases with parameters := [d] } = .ok () :=
  (Validation.check_ok_iff_valid _).mpr { Validation.valid_of_check twoPhases_valid with
    parameterNames := List.nodup_singleton _
    parameters := List.forall_mem_singleton.mpr valid }

/-- A count one above its largest value passes the check. -/
theorem pulses_exceeded :
    Validation.check { ProtocolDefinition.twoPhases with parameters := [pulses] } = .ok () ∧
      (Json.integer 9007199254740993).Denotes (9007199254740993 : Int) ∧
      pulses.check (.integer 9007199254740993) = .ok () ∧
      ¬ pulses.Within (9007199254740993 : Int) := by
  refine ⟨withParameter_valid pulses_valid, .integer (Word.holds_iff.mpr (by decide)),
    by decide +kernel, fun within => ?_⟩
  have most := within.max _ rfl
  have bound : Binary64.ofFloat? 9007199254740992.0 = some ⟨false, 2 ^ 52, 1⟩ := by decide +kernel
  have unit : (-1 : Int).toNat = 0 := rfl
  rw [AtMost, bound] at most
  norm_num [toRat, signed, ratio, unit] at most

end ParameterDef

end Qualification
