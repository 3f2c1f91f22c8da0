import Qualification.Acceptance.Evaluation
import Qualification.Proofs.Numeric.Order
import Qualification.Proofs.Protocol.Layout

/-! # Comparisons

Under a threshold of a valid protocol every value is decided, but for one that stands for no
number where a number is asked for. The comparisons of one value fit together: by order, by
equality, and within a range.

Equality is the exception that text makes. Text that reads as a number is in order to a number
and still equal to none.
-/

namespace Qualification

variable {v : MeasuredValue} {op : Operator} {t : ThresholdValue} {s : ScalarValue}
  {x y low high : Float} {b : Bool}

/-- The finite number that a value stands for. -/
inductive MeasuredValue.StandsFor : MeasuredValue → Float → Prop where
  | reading {x : Float} : x.isFinite → StandsFor (.numeric x) x
  | text {s : String} {x : Float} : Decimal.read? (Text.trim s) = some x → x.isFinite →
      StandsFor (.text s) x
  | json {j : Json} {x : Float} : j.toFloat? = some x → x.isFinite → StandsFor (.json j) x

/-- Does the comparison ask for a number? -/
def Operator.AsksNumber (op : Operator) : Prop :=
  op.isOrdering ∨ op = .between

/-- The threshold that is a single number. -/
abbrev ThresholdValue.number (x : Float) : ThresholdValue :=
  .scalar (.number x)

namespace MeasuredValue

theorem number?_eq_some : v.number? = some x ↔ v.StandsFor x := by
  rw [number?, Option.filter_eq_some_iff]
  constructor
  · rintro ⟨raw, finite⟩
    cases v with
    | numeric =>
        cases raw
        exact .reading finite
    | text => exact .text raw finite
    | boolean => cases raw
    | json => exact .json raw finite
  · rintro (finite | ⟨raw, finite⟩ | ⟨raw, finite⟩)
    · exact ⟨rfl, finite⟩
    · exact ⟨raw, finite⟩
    · exact ⟨raw, finite⟩

theorem number?_eq_none : v.number? = none ↔ ∀ x, ¬ v.StandsFor x := by
  simp only [Option.eq_none_iff_forall_ne_some, ne_eq, number?_eq_some]

theorem StandsFor.finite (h : v.StandsFor x) : x.isFinite := by
  cases h <;> assumption

theorem StandsFor.unique (hx : v.StandsFor x) (hy : v.StandsFor y) : x = y :=
  Option.some.inj ((number?_eq_some.mpr hx).symm.trans (number?_eq_some.mpr hy))

end MeasuredValue

namespace Acceptance

open Binary64

theorem numberOf_ok : numberOf v = .ok x ↔ v.StandsFor x := by
  rw [← MeasuredValue.number?_eq_some, numberOf]
  split <;> simp [*]

theorem numberOf_error {e : ComparisonError} :
    numberOf v = .error e ↔ e = .notNumeric ∧ ∀ x, ¬ v.StandsFor x := by
  rw [← MeasuredValue.number?_eq_none, numberOf]
  split <;> simp [*, eq_comm]

theorem compare_ordering (orders : op.isOrdering) :
    compare v op (.number y) = (numberOf v).map fun x => ordered op x y := by
  cases op <;> first | rfl | cases orders

theorem compare_between (inOrder : ¬ high < low) :
    compare v .between (.range [low, high]) =
      (numberOf v).map fun x => decide (low ≤ x) && decide (x ≤ high) := by
  rw [compare, within, if_neg inOrder]

/-- What comes of a comparison under a threshold of the right shape. -/
structure Decided (v : MeasuredValue) (op : Operator) (t : ThresholdValue) : Prop where
  shaped : ∀ reason, compare v op t ≠ .error (.invalidThreshold reason)
  undecided : compare v op t = .error .notNumeric ↔ op.AsksNumber ∧ ∀ x, ¬ v.StandsFor x
  decided : (∃ b, compare v op t = .ok b) ↔ ¬ (op.AsksNumber ∧ ∀ x, ¬ v.StandsFor x)

theorem decided_of_number {f : Float → Bool} (asks : op.AsksNumber)
    (told : compare v op t = (numberOf v).map f) : Decided v op t := by
  refine ⟨fun reason => ?_, ?_, ?_⟩
  · rw [told, ne_eq, map_error_iff, numberOf_error]
    exact fun h => nomatch h.1
  · rw [told, map_error_iff, numberOf_error]
    simp [asks]
  · simp only [told, map_ok_iff, numberOf_ok, asks, true_and, not_forall, not_not]
    constructor
    · rintro ⟨_, x, stands, _⟩
      exact ⟨x, stands⟩
    · rintro ⟨x, stands⟩
      exact ⟨_, x, stands, rfl⟩

theorem decided_of_ok (asks : ¬ op.AsksNumber) (told : compare v op t = .ok b) :
    Decided v op t := by
  refine ⟨fun reason => ?_, ?_, ?_⟩
  · rw [told]
    nofun
  · rw [told]
    exact iff_of_false nofun fun h => asks h.1
  · exact iff_of_true ⟨b, told⟩ fun h => asks h.1

theorem decided_of_admits (admits : op.Admits t) (v : MeasuredValue) : Decided v op t := by
  cases admits with
  | between inOrder =>
      exact decided_of_number (.inr rfl) (compare_between (not_lt_of_le inOrder))
  | ordering orders _ => exact decided_of_number (.inl orders) (compare_ordering orders)
  | eq s => exact decided_of_ok (by simp [Operator.AsksNumber, Operator.isOrdering]) rfl
  | ne s => exact decided_of_ok (by simp [Operator.AsksNumber, Operator.isOrdering]) rfl

/-- A valid protocol never has a threshold that a value cannot be compared with for its
    shape. -/
theorem compare_decided {p : ProtocolDefinition} (valid : Validation.check p = .ok ())
    {c : AcceptanceCriterion} (member : c ∈ p.acceptanceCriteria) (v : MeasuredValue) :
    Decided v c.threshold.operator c.threshold.value :=
  decided_of_admits ((Validation.valid_of_check valid).criteria c member).shaped v

/-- An illustration: a resistance of forty or more, with no bound above. -/
def insulation : AcceptanceCriterion :=
  ⟨"insulation", "", .critical, ⟨"resistance", .between, .range [40, infinity]⟩⟩

/-- An illustration: the two phases under that criterion. -/
def insulated : ProtocolDefinition :=
  { ProtocolDefinition.twoPhases with acceptanceCriteria := [insulation] }

theorem insulated_valid : Validation.check insulated = .ok () := by
  have passed := Validation.check_ok.mp twoPhases_valid
  exact Validation.check_ok.mpr ⟨passed.id, passed.name, passed.category, passed.version,
    passed.parameters, passed.peopled, passed.phases, passed.specs, by decide +kernel,
    passed.limits, passed.settings⟩

theorem insulation_decided :
    Validation.check insulated = .ok () ∧ insulation ∈ insulated.acceptanceCriteria ∧
      Decided (.text "wet") insulation.threshold.operator insulation.threshold.value ∧
      compare (.text "wet") insulation.threshold.operator insulation.threshold.value =
        .error .notNumeric ∧
      Decided (.text " 55 ") insulation.threshold.operator insulation.threshold.value ∧
      compare (.text " 55 ") insulation.threshold.operator insulation.threshold.value =
        .ok true :=
  ⟨insulated_valid, List.mem_singleton_self _,
    compare_decided insulated_valid (List.mem_singleton_self _) _, by decide +kernel,
    compare_decided insulated_valid (List.mem_singleton_self _) _, by decide +kernel⟩

/-- How the comparisons of a value with numbers fit together, and with two bounds. -/
structure Coherent (v : MeasuredValue) (low high : Float) : Prop where
  between : ∀ b, compare v .between (.range [low, high]) = .ok b ↔
    ∃ above below, compare v .ge (.number low) = .ok above ∧
      compare v .le (.number high) = .ok below ∧ b = (above && below)
  undecided : compare v .between (.range [low, high]) = .error .notNumeric ↔
    compare v .ge (.number low) = .error .notNumeric ∧
      compare v .le (.number high) = .error .notNumeric
  gt : ∀ y, y.isFinite → ∀ b,
    compare v .gt (.number y) = .ok b ↔ compare v .le (.number y) = .ok !b
  lt : ∀ y, y.isFinite → ∀ b,
    compare v .lt (.number y) = .ok b ↔ compare v .ge (.number y) = .ok !b
  ne : ∀ s, ∃ b, compare v .eq (.scalar s) = .ok b ∧ compare v .ne (.scalar s) = .ok !b
  eq : v.kind = .numeric ∨ v.kind = .json → ∀ y, y.isFinite →
    (compare v .eq (.number y) = .ok true ↔
      compare v .ge (.number y) = .ok true ∧ compare v .le (.number y) = .ok true)
  unlike : v.kind = .text ∨ v.kind = .boolean → ∀ y, compare v .eq (.number y) = .ok false

theorem compare_between_ok (inOrder : ¬ high < low) :
    compare v .between (.range [low, high]) = .ok b ↔
      ∃ above below, compare v .ge (.number low) = .ok above ∧
        compare v .le (.number high) = .ok below ∧ b = (above && below) := by
  rw [compare_between inOrder, compare_ordering rfl, compare_ordering rfl]
  cases numberOf v <;> simp [Except.map, ordered, eq_comm]

theorem compare_between_error (inOrder : ¬ high < low) :
    compare v .between (.range [low, high]) = .error .notNumeric ↔
      compare v .ge (.number low) = .error .notNumeric ∧
        compare v .le (.number high) = .error .notNumeric := by
  rw [compare_between inOrder, compare_ordering rfl, compare_ordering rfl, map_error_iff,
    map_error_iff, map_error_iff, and_self]

/-- Where a comparison is the opposite of another one on finite numbers, it is on values. -/
theorem compare_opposite {op' : Operator} (orders : op.isOrdering) (orders' : op'.isOrdering)
    (opposite : ∀ x, x.isFinite → ordered op x y = !ordered op' x y) :
    compare v op (.number y) = .ok b ↔ compare v op' (.number y) = .ok !b := by
  rw [compare_ordering orders, compare_ordering orders', map_ok_iff, map_ok_iff]
  refine exists_congr fun x => and_congr_right fun told => ?_
  rw [opposite x (numberOf_ok.mp told).finite, Bool.not_eq_eq_eq_not]

theorem compare_gt_iff (finite : y.isFinite) :
    compare v .gt (.number y) = .ok b ↔ compare v .le (.number y) = .ok !b := by
  refine compare_opposite rfl rfl fun x x_finite => ?_
  change decide (y < x) = !decide (x ≤ y)
  rw [← decide_not, decide_eq_decide, ← not_lt_iff finite x_finite, not_not]

theorem compare_lt_iff (finite : y.isFinite) :
    compare v .lt (.number y) = .ok b ↔ compare v .ge (.number y) = .ok !b := by
  refine compare_opposite rfl rfl fun x x_finite => ?_
  change decide (x < y) = !decide (y ≤ x)
  rw [← decide_not, decide_eq_decide, ← not_lt_iff x_finite finite, not_not]

/-- A value other than text is equal to a finite number if it stands for an equal one. -/
theorem equals_number (kind : v.kind = .numeric ∨ v.kind = .json) (finite : y.isFinite) :
    equals v (.number y) ↔ ∃ x, v.StandsFor x ∧ x == y := by
  cases v with
  | text | boolean => simp [MeasuredValue.kind] at kind
  | numeric x =>
      constructor
      · exact fun same => ⟨x, .reading (isFinite_of_beq finite same), same⟩
      · rintro ⟨_, ⟨_⟩, same⟩
        exact same
  | json j =>
      rw [equals]
      constructor
      · intro same
        split at same
        · rename_i x told
          exact ⟨x, .json told (isFinite_of_beq finite same), same⟩
        · cases same
      · rintro ⟨x, told | told | ⟨told, _⟩, same⟩
        rw [told]
        exact same

theorem compare_eq_iff (kind : v.kind = .numeric ∨ v.kind = .json) (finite : y.isFinite) :
    compare v .eq (.number y) = .ok true ↔
      compare v .ge (.number y) = .ok true ∧ compare v .le (.number y) = .ok true := by
  have told : compare v .eq (.number y) = .ok true ↔ equals v (.number y) := by
    rw [compare, Except.ok.injEq]
  rw [told, equals_number kind finite, compare_ordering rfl, compare_ordering rfl, map_ok_iff,
    map_ok_iff]
  simp only [numberOf_ok, ordered, decide_eq_true_eq]
  constructor
  · rintro ⟨x, stands, same⟩
    obtain ⟨above, below⟩ := (beq_iff_le_le stands.finite finite).mp same
    exact ⟨⟨x, stands, above⟩, x, stands, below⟩
  · rintro ⟨⟨x, stands, above⟩, _, stands', below⟩
    cases stands.unique stands'
    exact ⟨x, stands, (beq_iff_le_le stands.finite finite).mpr ⟨above, below⟩⟩

/-- All comparisons of a value fit together. -/
theorem compare_coherent (v : MeasuredValue) (inOrder : low ≤ high) : Coherent v low high where
  between _ := compare_between_ok (not_lt_of_le inOrder)
  undecided := compare_between_error (not_lt_of_le inOrder)
  gt _ finite _ := compare_gt_iff finite
  lt _ finite _ := compare_lt_iff finite
  ne s := ⟨equals v s, rfl, rfl⟩
  eq kind _ finite := compare_eq_iff kind finite
  unlike kind y := by
    cases v with
    | numeric | json => simp [MeasuredValue.kind] at kind
    | text | boolean => rfl

theorem text_coherent :
    (1 : Float) ≤ 10 ∧ Coherent (.text "5.0") 1 10 ∧
      compare (.text "5.0") .between (.range [1, 10]) = .ok true ∧
      compare (.text "5.0") .eq (.number 5) = .ok false :=
  have inOrder : (1 : Float) ≤ 10 := by decide +kernel
  ⟨inOrder, compare_coherent _ inOrder, by decide +kernel, rfl⟩

end Acceptance
end Qualification
