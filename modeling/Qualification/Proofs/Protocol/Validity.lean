import Mathlib.Data.List.Permutation
import Qualification.Proofs.Fresh
import Qualification.Proofs.Refusal
import Qualification.Protocol.Validation

/-! # Valid protocols

What a protocol must be like, said of its parts and not of the order in which they are
looked at. The checks of a protocol stop at the first rule that is broken and carry along
what they have seen; they pass exactly the valid protocols.
-/

namespace Qualification

namespace Version

/-- A row of digits without a leading zero, unless it is zero alone. -/
inductive Number : List Char → Prop where
  | zero : Number ['0']
  | row {first : Char} {rest : List Char} : '1' ≤ first → first ≤ '9' →
      (∀ c ∈ rest, Text.isDecimalDigit c) → Number (first :: rest)

/-- Three numbers with points between them. -/
def Written (s : String) : Prop :=
  ∃ major minor patch : List Char, Number major ∧ Number minor ∧ Number patch ∧
    s.toList = major ++ '.' :: (minor ++ '.' :: patch)

theorem isNumber_iff {cs : List Char} : isNumber cs ↔ Number cs := by
  constructor
  · intro h
    unfold isNumber at h
    split at h
    · exact .zero
    · simp only [Bool.and_eq_true, decide_eq_true_eq, List.all_eq_true] at h
      exact .row h.1.1 h.1.2 h.2
    · cases h
  · intro h
    cases h with
    | zero => rfl
    | row low high digits =>
        unfold isNumber
        split
        · rfl
        · rename_i same
          cases same
          simpa only [Bool.and_eq_true, decide_eq_true_eq, List.all_eq_true]
            using ⟨⟨low, high⟩, digits⟩
        · contradiction

theorem Number.no_point {cs : List Char} (h : Number cs) : '.' ∉ cs := by
  cases h with
  | zero => decide
  | row low high digits =>
      rintro (_ | ⟨_, point⟩)
      · exact absurd low (by decide)
      · exact absurd (digits _ point) (by decide)

theorem isValid_iff {s : String} : isValid s ↔ Written s := by
  constructor
  · intro h
    unfold isValid at h
    split at h
    · rename_i major minor patch cut
      simp only [Bool.and_eq_true, isNumber_iff] at h
      refine ⟨major, minor, patch, h.1.1, h.1.2, h.2, ?_⟩
      rw [← Text.unite_parts '.' s.toList, cut]
      rfl
    · cases h
  · rintro ⟨major, minor, patch, isMajor, isMinor, isPatch, written⟩
    rw [isValid, written, Text.parts_append_cons isMajor.no_point,
      Text.parts_append_cons isMinor.no_point, Text.parts_of_not_mem isPatch.no_point]
    simp only [isNumber_iff.mpr isMajor, isNumber_iff.mpr isMinor, isNumber_iff.mpr isPatch,
      Bool.and_self]

end Version

/-- A parameter has a name, ordered bounds if it has two, and admits its own default. -/
@[mk_iff]
structure ParameterDef.Valid (d : ParameterDef) : Prop where
  named : ¬ Text.isBlank d.name
  ordered : ∀ low high, d.min = some low → d.max = some high → ¬ high < low
  default : ∀ value, d.default = some value → d.check value = .ok ()

/-- A step has an identity and an action, and a finite duration not below zero if any. -/
@[mk_iff]
structure StepDef.Valid (s : StepDef) : Prop where
  named : ¬ Text.isBlank s.id
  acting : ¬ Text.isBlank s.action
  duration : ∀ x, s.durationHours = some x → x.isFinite ∧ ¬ x < 0.0

/-- A phase has an identity, and steps that are numbered from one in some order. -/
@[mk_iff]
structure PhaseDef.Valid (p : PhaseDef) : Prop where
  named : ¬ Text.isBlank p.id
  peopled : p.steps ≠ []
  numbered : (p.steps.map (·.sequence)).Perm (List.range' 1 p.steps.length)
  steps : ∀ s ∈ p.steps, s.Valid

/-- An expected measurement has a parameter and expects a reading at least. -/
@[mk_iff]
structure MeasurementSpec.Valid (s : MeasurementSpec) : Prop where
  named : ¬ Text.isBlank s.parameter
  expected : 1 ≤ s.expectedCount

/-- What an operator can be compared with. -/
inductive Operator.Admits : Operator → ThresholdValue → Prop where
  | between {low high : Float} : low ≤ high → Admits .between (.range [low, high])
  | ordering {op : Operator} {x : Float} : op.isOrdering → x.isFinite →
      Admits op (.scalar (.number x))
  | eq (v : ScalarValue) : Admits .eq (.scalar v)
  | ne (v : ScalarValue) : Admits .ne (.scalar v)

/-- A criterion has a parameter, and a threshold that suits its operator. -/
@[mk_iff]
structure AcceptanceCriterion.Valid (c : AcceptanceCriterion) : Prop where
  named : ¬ Text.isBlank c.threshold.parameter
  shaped : c.threshold.operator.Admits c.threshold.value

/-- The multiplier of outlier screening is finite and positive; standard scores need one. -/
@[mk_iff]
structure OutlierSettings.Valid (s : OutlierSettings) : Prop where
  given : s.method = .zScore → s.threshold ≠ none
  positive : ∀ k, s.threshold = some k → k.isFinite ∧ 0.0 < k

/-- The thresholds of quality control lie in their ranges. -/
@[mk_iff]
structure QcSettings.Valid (s : QcSettings) : Prop where
  completion : 0.0 ≤ s.minCompletionRate ∧ s.minCompletionRate ≤ 100.0
  variation : s.maxCv.isFinite ∧ 0.0 < s.maxCv
  irradiance : ∀ t, s.irradiance = some t →
    (t.nominal.isFinite ∧ 0.0 < t.nominal) ∧ t.tolerancePct.isFinite ∧ 0.0 ≤ t.tolerancePct
  temperature : ∀ t, s.temperature = some t →
    t.nominal.isFinite ∧ t.tolerance.isFinite ∧ 0.0 ≤ t.tolerance
  outlier : s.outlier.Valid

/-- A protocol whose parts are valid, each under an identity of its own: steps in the whole
    protocol, other parts among their kind. -/
@[mk_iff]
structure ProtocolDefinition.Valid (p : ProtocolDefinition) : Prop where
  id : ¬ Text.isBlank p.id
  name : ¬ Text.isBlank p.name
  category : ¬ Text.isBlank p.category
  version : Version.Written p.version
  parameterNames : (p.parameters.map (·.name)).Nodup
  parameters : ∀ d ∈ p.parameters, d.Valid
  peopled : p.phases ≠ []
  phaseIds : (p.phases.map (·.id)).Nodup
  stepIds : (p.steps.map (·.id)).Nodup
  phases : ∀ ph ∈ p.phases, ph.Valid
  specIds : (p.measurementSpecs.map (·.id)).Nodup
  specs : ∀ s ∈ p.measurementSpecs, s.Valid
  criterionIds : (p.acceptanceCriteria.map (·.id)).Nodup
  criteria : ∀ c ∈ p.acceptanceCriteria, c.Valid
  limits : ∀ e ∈ p.safetyLimits, e.2.value.isFinite
  settings : ∀ qc, p.qc = some qc → qc.Valid

namespace Validation

theorem require_ok {holds : Bool} {part message : String} :
    require holds part message = .ok () ↔ holds := by
  cases holds <;> simp [require]

theorem requireText_ok {part value : String} :
    requireText part value = .ok () ↔ ¬ Text.isBlank value := by
  rw [requireText, require_ok, Bool.not_eq_true', Bool.not_eq_true]

theorem requireNew_ok {kind : Identified} {id scope : String} {seen : List String} :
    requireNew kind id scope seen = .ok () ↔ id ∉ seen := by
  unfold requireNew
  split
  · rename_i old
    simpa using old
  · rename_i new
    simpa using new

/-- A list passes if its identities are new and its entries pass what else is asked of
    them, wherever they stand. -/
theorem checkEach_ok {α : Type} {idOf : α → String} {check : Nat → List String → α → Check}
    {rule : α → Prop}
    (meaning : ∀ index seen a, check index seen a = .ok () ↔ idOf a ∉ seen ∧ rule a)
    {index : Nat} {seen : List String} {entries : List α} :
    checkEach idOf check index seen entries = .ok () ↔
      Fresh seen (entries.map idOf) ∧ ∀ a ∈ entries, rule a := by
  induction entries generalizing index seen with
  | nil => simp [checkEach, fresh_nil]
  | cons a rest ih =>
      rw [checkEach, both_ok, meaning, ih, List.map_cons, fresh_cons, List.forall_mem_cons]
      tauto

theorem isPositive_iff {x : Float} : isPositive x ↔ x.isFinite ∧ 0.0 < x := by
  rw [isPositive, Bool.and_eq_true, decide_eq_true_eq]

theorem isNonNegative_iff {x : Float} : isNonNegative x ↔ x.isFinite ∧ 0.0 ≤ x := by
  rw [isNonNegative, Bool.and_eq_true, decide_eq_true_eq]

theorem checkParameter_ok {scope : String} {index : Nat} {seen : List String}
    {d : ParameterDef} :
    checkParameter scope index seen d = .ok () ↔ d.name ∉ seen ∧ d.Valid := by
  simp only [checkParameter, both_ok, requireNew_ok, requireText_ok, ParameterDef.valid_iff]
  refine and_congr_right fun _ => and_congr_right fun _ => ?_
  cases low : d.min <;> cases high : d.max <;> cases given : d.default with
  | none => simp [both_ok, require_ok]
  | some value => cases passed : d.check value <;> simp [both_ok, require_ok, passed]

theorem isDuration_iff {x : Float} : isDuration x ↔ x.isFinite ∧ ¬ x < 0.0 := by
  rw [isDuration, Bool.and_eq_true, Bool.not_eq_true', decide_eq_false_iff_not]

theorem checkStep_ok {scope phaseScope part : String} {ids : List String}
    {sequences : List Nat} {s : StepDef} :
    checkStep scope phaseScope part ids sequences s = .ok () ↔
      s.id ∉ ids ∧ s.sequence ∉ sequences ∧ s.Valid := by
  simp only [checkStep, both_ok, requireNew_ok, requireText_ok, StepDef.valid_iff]
  by_cases old : s.sequence ∈ sequences
  · simp [old, both_ok]
  · have duration : s.durationHours.all isDuration ↔
        ∀ x, s.durationHours = some x → x.isFinite ∧ ¬ x < 0.0 := by
      cases s.durationHours <;> simp [isDuration_iff]
    simp only [old, List.contains_eq_mem, decide_false, Bool.false_eq_true, if_false, require_ok,
      duration]
    tauto

theorem checkSteps_ok {scope phaseScope part : String} {index : Nat} {ids : List String}
    {sequences : List Nat} {steps : List StepDef} :
    checkSteps scope phaseScope part index ids sequences steps = .ok () ↔
      Fresh ids (steps.map (·.id)) ∧ Fresh sequences (steps.map (·.sequence)) ∧
        ∀ s ∈ steps, s.Valid := by
  induction steps generalizing index ids sequences with
  | nil => simp [checkSteps, fresh_nil]
  | cons s rest ih =>
      rw [checkSteps, both_ok, checkStep_ok, ih, List.map_cons, List.map_cons, fresh_cons,
        fresh_cons, List.forall_mem_cons]
      tauto

theorem mergeSort_ordered {α : Type} (number : α → Nat) (entries : List α) :
    (entries.mergeSort fun a b => number a ≤ number b).Pairwise
      fun a b => number a ≤ number b := by
  have sorted : (entries.mergeSort fun a b => number a ≤ number b).Pairwise
      fun a b => decide (number a ≤ number b) = true :=
    List.pairwise_mergeSort
      (fun a b c => by simpa only [decide_eq_true_eq] using Nat.le_trans)
      (fun a b => by simpa only [Bool.or_eq_true, decide_eq_true_eq] using Nat.le_total _ _)
      entries
  exact sorted.imp of_decide_eq_true

/-- Sorted numbers run from one without gaps if they are those numbers in some order. -/
theorem sortedSequences_eq {steps : List StepDef} :
    sortedSequences steps = List.range' 1 steps.length ↔
      (steps.map (·.sequence)).Perm (List.range' 1 steps.length) := by
  constructor
  · intro h
    rw [← h]
    exact (List.mergeSort_perm _ _).symm
  · intro h
    have sorted : (sortedSequences steps).Pairwise (· ≤ ·) := mergeSort_ordered id _
    have counted : (List.range' 1 steps.length).Pairwise (· ≤ ·) := List.pairwise_le_range' _
    exact List.Perm.eq_of_pairwise (fun _ _ _ _ => Nat.le_antisymm) sorted counted
      ((List.mergeSort_perm _ _).trans h)

theorem checkPhase_ok {scope : String} {index : Nat} {phaseIds stepIds : List String}
    {p : PhaseDef} :
    checkPhase scope index phaseIds stepIds p = .ok () ↔
      p.id ∉ phaseIds ∧ Fresh stepIds (p.steps.map (·.id)) ∧ p.Valid := by
  simp only [checkPhase, both_ok, requireText_ok, requireNew_ok, require_ok, checkSteps_ok,
    beq_iff_eq, sortedSequences_eq, PhaseDef.valid_iff, fresh_of_nothing, Bool.not_eq_true',
    List.isEmpty_eq_false_iff]
  constructor
  · rintro ⟨named, new, peopled, ⟨stepIds, _, steps⟩, numbered⟩
    exact ⟨new, stepIds, named, peopled, numbered, steps⟩
  · rintro ⟨new, stepIds, named, peopled, numbered, steps⟩
    have sequences : (p.steps.map (·.sequence)).Nodup :=
      numbered.nodup_iff.mpr List.nodup_range'
    exact ⟨named, new, peopled, ⟨stepIds, sequences, steps⟩, numbered⟩

theorem checkPhases_ok {scope : String} {index : Nat} {phaseIds stepIds : List String}
    {phases : List PhaseDef} :
    checkPhases scope index phaseIds stepIds phases = .ok () ↔
      Fresh phaseIds (phases.map (·.id)) ∧
        Fresh stepIds (phases.flatMap fun p => p.steps.map (·.id)) ∧
          ∀ p ∈ phases, p.Valid := by
  induction phases generalizing index phaseIds stepIds with
  | nil => simp [checkPhases, fresh_nil]
  | cons p rest ih =>
      rw [checkPhases, both_ok, checkPhase_ok, ih, List.map_cons, fresh_cons,
        List.flatMap_cons, fresh_append, List.forall_mem_cons]
      tauto

theorem checkSpec_ok {scope : String} {index : Nat} {seen : List String}
    {s : MeasurementSpec} :
    checkSpec scope index seen s = .ok () ↔ s.id ∉ seen ∧ s.Valid := by
  simp only [checkSpec, both_ok, requireNew_ok, requireText_ok, require_ok,
    MeasurementSpec.valid_iff, decide_eq_true_eq, Nat.one_le_iff_ne_zero]

theorem checkBetween_ok {part : String} {v : ThresholdValue} :
    checkThreshold part .between v = .ok () ↔ Operator.Admits .between v := by
  constructor
  · intro h
    unfold checkThreshold at h
    split at h
    · exact .between (of_decide_eq_true (require_ok.mp h))
    · simp [require] at h
    · simp [require] at h
    · contradiction
    · contradiction
  · intro h
    cases h with
    | between ordered => exact require_ok.mpr (decide_eq_true ordered)
    | ordering orders _ => cases orders

theorem checkSingle_ok {part : String} {op : Operator} {v : ThresholdValue}
    (single : op ≠ .between) :
    checkThreshold part op v = .ok () ↔ op.Admits v := by
  constructor
  · intro h
    cases v with
    | range bounds => cases op <;> contradiction
    | scalar v =>
        cases op with
        | between => contradiction
        | eq => exact .eq v
        | ne => exact .ne v
        | gt | ge | lt | le =>
            cases v with
            | number x => exact .ordering rfl (require_ok.mp h)
            | bool | text => simp [checkThreshold, Operator.isOrdering, require] at h
  · intro h
    cases h with
    | between _ => contradiction
    | ordering orders finite =>
        cases op with
        | between => contradiction
        | eq | ne => rfl
        | gt | ge | lt | le => exact require_ok.mpr finite
    | eq | ne => rfl

theorem checkCriterion_ok {scope : String} {index : Nat} {seen : List String}
    {c : AcceptanceCriterion} :
    checkCriterion scope index seen c = .ok () ↔ c.id ∉ seen ∧ c.Valid := by
  have threshold {part : String} :
      checkThreshold part c.threshold.operator c.threshold.value = .ok () ↔
        c.threshold.operator.Admits c.threshold.value := by
    by_cases between : c.threshold.operator = .between
    · rw [between, checkBetween_ok]
    · exact checkSingle_ok between
  simp only [checkCriterion, both_ok, requireNew_ok, requireText_ok, threshold,
    AcceptanceCriterion.valid_iff]

theorem checkLimits_ok {limits : Dictionary SafetyLimit} :
    checkLimits limits = .ok () ↔ ∀ e ∈ limits, e.2.value.isFinite := by
  induction limits with
  | nil => simp [checkLimits]
  | cons e rest ih => rw [checkLimits, both_ok, require_ok, ih, List.forall_mem_cons]

theorem checkOutlier_ok {part : String} {s : OutlierSettings} :
    checkOutlier part s = .ok () ↔ s.Valid := by
  rw [OutlierSettings.valid_iff, checkOutlier]
  cases method : s.method <;> cases given : s.threshold <;>
    simp [require_ok, isPositive_iff, Bool.false_eq_true]

theorem checkQc_ok {part : String} {qc : QcSettings} :
    checkQc part qc = .ok () ↔ qc.Valid := by
  simp only [checkQc, both_ok, require_ok, checkOutlier_ok, QcSettings.valid_iff,
    Bool.and_eq_true, decide_eq_true_eq, isPositive_iff, isNonNegative_iff, Option.all_eq_true]

/-- The checks that a valid protocol passes, one for each of its parts. -/
@[mk_iff]
structure Passed (p : ProtocolDefinition) : Prop where
  id : requireText "id" p.id = .ok ()
  name : requireText "name" p.name = .ok ()
  category : requireText "category" p.category = .ok ()
  version : require (Version.isValid p.version) "version"
    ("'" ++ p.version ++ "' is not a MAJOR.MINOR.PATCH version") = .ok ()
  parameters : checkEach ParameterDef.name (checkParameter ("protocol '" ++ p.id ++ "'")) 0 []
    p.parameters = .ok ()
  peopled : require (!p.phases.isEmpty) "phases" "at least one phase is required" = .ok ()
  phases : checkPhases ("protocol '" ++ p.id ++ "'") 0 [] [] p.phases = .ok ()
  specs : checkEach MeasurementSpec.id (checkSpec ("protocol '" ++ p.id ++ "'")) 0 []
    p.measurementSpecs = .ok ()
  criteria : checkEach AcceptanceCriterion.id (checkCriterion ("protocol '" ++ p.id ++ "'")) 0 []
    p.acceptanceCriteria = .ok ()
  limits : checkLimits p.safetyLimits = .ok ()
  settings : ∀ qc, p.qc = some qc → checkQc "qc" qc = .ok ()

theorem check_ok {p : ProtocolDefinition} : check p = .ok () ↔ Passed p := by
  simp only [check, both_ok, passed_iff]
  cases p.qc <;> simp

theorem passed_iff_valid {p : ProtocolDefinition} : Passed p ↔ p.Valid := by
  have parameters {scope : String} :
      checkEach ParameterDef.name (checkParameter scope) 0 [] p.parameters = .ok () ↔
        Fresh [] (p.parameters.map (·.name)) ∧ ∀ d ∈ p.parameters, d.Valid :=
    checkEach_ok fun _ _ _ => by exact checkParameter_ok
  have specs {scope : String} :
      checkEach MeasurementSpec.id (checkSpec scope) 0 [] p.measurementSpecs = .ok () ↔
        Fresh [] (p.measurementSpecs.map (·.id)) ∧ ∀ s ∈ p.measurementSpecs, s.Valid :=
    checkEach_ok fun _ _ _ => by exact checkSpec_ok
  have criteria {scope : String} :
      checkEach AcceptanceCriterion.id (checkCriterion scope) 0 [] p.acceptanceCriteria = .ok () ↔
        Fresh [] (p.acceptanceCriteria.map (·.id)) ∧ ∀ c ∈ p.acceptanceCriteria, c.Valid :=
    checkEach_ok fun _ _ _ => by exact checkCriterion_ok
  simp only [passed_iff, p.valid_iff, requireText_ok, require_ok, Version.isValid_iff,
    parameters, specs, criteria, checkPhases_ok, checkLimits_ok, checkQc_ok, fresh_of_nothing,
    Bool.not_eq_true', List.isEmpty_eq_false_iff, ProtocolDefinition.steps, List.map_flatMap]
  tauto

theorem valid_of_check {p : ProtocolDefinition} (h : check p = .ok ()) : p.Valid :=
  passed_iff_valid.mp (check_ok.mp h)

/-- The checks pass exactly the valid protocols. -/
theorem check_ok_iff_valid (p : ProtocolDefinition) : check p = .ok () ↔ p.Valid :=
  check_ok.trans passed_iff_valid

end Validation
end Qualification
