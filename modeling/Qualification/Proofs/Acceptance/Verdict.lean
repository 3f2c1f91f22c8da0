import Mathlib.Data.List.Basic
import Qualification.Acceptance.Evaluation

/-! # Verdicts

A criterion is judged by the measurement of its parameter that was recorded last and is not
bad, or by the run parameter if there is none. What the criteria come to is said here
without the evaluation: which of them have a value, and which values pass.
-/

namespace Qualification

variable {l : Ledger} {parameters : Dictionary Json} {parameter : String} {m : Measurement}
  {v : MeasuredValue} {c : AcceptanceCriterion} {criteria : List AcceptanceCriterion}

/-- The entry of a parameter that was recorded last, of those that are not bad. -/
structure Ledger.Latest (l : Ledger) (parameter : String) (m : Measurement) : Prop where
  named : m.parameter = parameter
  trusted : m.flag ≠ .bad
  last : ∃ earlier later, l.entries = earlier ++ m :: later ∧
    ∀ e ∈ later, e.parameter = parameter → e.flag = .bad

theorem Measurement.isUsable_iff : m.isUsable ↔ m.flag ≠ .bad := by
  simp [Measurement.isUsable, QualityFlag.isUsable]

theorem Ledger.latest?_eq_some : l.latest? parameter = some m ↔ l.Latest parameter m := by
  -- The last entry that counts is the first one from behind.
  rw [Ledger.latest?, Ledger.usable, List.getLast?_filter, List.find?_eq_some_iff_append]
  constructor
  · rintro ⟨counts, later, earlier, split, bad⟩
    obtain ⟨same, usable⟩ : m.parameter = parameter ∧ m.isUsable := by simpa using counts
    refine ⟨same, Measurement.isUsable_iff.mp usable, earlier.reverse, later.reverse, ?_, ?_⟩
    · rw [← List.reverse_reverse l.entries, split]
      simp
    · intro e member same
      by_contra trusted
      have := bad e (List.mem_reverse.mp member)
      simp [same, Measurement.isUsable_iff.mpr trusted] at this
  · rintro ⟨same, trusted, earlier, later, split, bad⟩
    refine ⟨by simp [same, Measurement.isUsable_iff.mpr trusted], later.reverse,
      earlier.reverse, by simp [split], fun e member => ?_⟩
    by_cases same : e.parameter = parameter
    · have isBad := bad e (List.mem_reverse.mp member) same
      simp [Measurement.isUsable, QualityFlag.isUsable, isBad]
    · simp [same]

theorem Ledger.latest?_eq_none : l.latest? parameter = none ↔
    ∀ m ∈ l.entries, m.parameter = parameter → m.flag = .bad := by
  rw [Ledger.latest?, Ledger.usable, List.getLast?_eq_none_iff, List.filter_eq_nil_iff]
  simp [Measurement.isUsable, QualityFlag.isUsable]

namespace Acceptance

/-- The value by which a parameter is judged. -/
inductive HasValue (l : Ledger) (parameters : Dictionary Json) (parameter : String) :
    MeasuredValue → Prop where
  | measured {m : Measurement} :
      l.Latest parameter m → HasValue l parameters parameter m.value
  /-- No measurement of the parameter counts, and the run has a parameter of the name. -/
  | preset {json : Json} :
      (∀ m ∈ l.entries, m.parameter = parameter → m.flag = .bad) →
      Dictionary.get? parameter parameters = some json →
      HasValue l parameters parameter (.ofJson json)

theorem valueOf?_eq_some :
    valueOf? l parameters parameter = some v ↔ HasValue l parameters parameter v := by
  cases latest : l.latest? parameter with
  | some m =>
      rw [valueOf?, latest]
      constructor
      · rintro ⟨⟩
        exact .measured (Ledger.latest?_eq_some.mp latest)
      · rintro (isLatest | ⟨bad, _⟩)
        · rw [Ledger.latest?_eq_some.mpr isLatest] at latest
          cases latest
          rfl
        · rw [Ledger.latest?_eq_none.mpr bad] at latest
          cases latest
  | none =>
      have bad := Ledger.latest?_eq_none.mp latest
      rw [valueOf?, latest, Option.map_none, Option.none_or, Option.map_eq_some_iff]
      constructor
      · rintro ⟨json, found, rfl⟩
        exact .preset bad found
      · rintro (isLatest | ⟨_, found⟩)
        · rw [Ledger.latest?_eq_some.mpr isLatest] at latest
          cases latest
        · exact ⟨_, found, rfl⟩

/-- A criterion with a value that satisfies its threshold. -/
def Passes (l : Ledger) (parameters : Dictionary Json) (c : AcceptanceCriterion) : Prop :=
  ∃ v, HasValue l parameters c.threshold.parameter v ∧
    compare v c.threshold.operator c.threshold.value = .ok true

/-- A criterion with a value that does not satisfy its threshold, or cannot be compared. -/
def Fails (l : Ledger) (parameters : Dictionary Json) (c : AcceptanceCriterion) : Prop :=
  ∃ v, HasValue l parameters c.threshold.parameter v ∧
    compare v c.threshold.operator c.threshold.value ≠ .ok true

/-- What criteria come to. -/
structure Verdict (criteria : List AcceptanceCriterion) (l : Ledger)
    (parameters : Dictionary Json) (result : TestResult) : Prop where
  notEvaluated : result = .notEvaluated ↔ criteria = []
  fail : result = .fail ↔
    ∃ c ∈ criteria, (c.severity = .error ∨ c.severity = .critical) ∧ Fails l parameters c
  pass : result = .pass ↔ criteria ≠ [] ∧ ∀ c ∈ criteria, Passes l parameters c
  conditional : result = .conditional ↔ criteria ≠ [] ∧
    (∀ c ∈ criteria, c.severity = .error ∨ c.severity = .critical → ¬ Fails l parameters c) ∧
      ∃ c ∈ criteria, ¬ Passes l parameters c

theorem judge_fst (t : Threshold) (v : MeasuredValue) :
    (judge t v).1 = true ↔ compare v t.operator t.value = .ok true := by
  unfold judge
  split <;> simp [*]

theorem evaluateOne_passed :
    (evaluateOne l parameters c).passed = some true ↔ Passes l parameters c := by
  cases value : valueOf? l parameters c.threshold.parameter with
  | none => simp [evaluateOne, Passes, ← valueOf?_eq_some, value]
  | some v => simp [evaluateOne, Passes, ← valueOf?_eq_some, value, judge_fst]

theorem evaluateOne_failed : (evaluateOne l parameters c).isFailure ↔ Fails l parameters c := by
  cases value : valueOf? l parameters c.threshold.parameter with
  | none => simp [evaluateOne, Fails, ← valueOf?_eq_some, value, Evaluation.isFailure]
  | some v =>
      simp [evaluateOne, Fails, ← valueOf?_eq_some, value, Evaluation.isFailure, ← judge_fst]

theorem not_passed {e : Evaluation} : e.isUndetermined ∨ e.isFailure ↔ e.passed ≠ some true := by
  cases passed : e.passed with
  | none => simp [Evaluation.isUndetermined, passed]
  | some good => cases good <;> simp [Evaluation.isUndetermined, Evaluation.isFailure, passed]

theorem severity_blocking {s : Severity} : s.isBlocking ↔ s = .error ∨ s = .critical := by
  cases s <;> simp [Severity.isBlocking]

theorem evaluateOne_severity : (evaluateOne l parameters c).severity = c.severity := by
  cases value : valueOf? l parameters c.threshold.parameter <;> simp [evaluateOne, value]

theorem any_blocking : ((evaluate criteria l parameters).any fun e =>
    e.isFailure && e.severity.isBlocking) ↔
      ∃ c ∈ criteria, (c.severity = .error ∨ c.severity = .critical) ∧ Fails l parameters c := by
  simp [evaluate, evaluateOne_severity, evaluateOne_failed, severity_blocking, and_comm]

theorem any_not_passed : ((evaluate criteria l parameters).any fun e =>
    e.isUndetermined || e.isFailure) ↔ ¬ ∀ c ∈ criteria, Passes l parameters c := by
  simp [evaluate, not_passed, evaluateOne_passed]

theorem Passes.not_fails (h : Passes l parameters c) : ¬ Fails l parameters c := by
  obtain ⟨v, hasValue, passes⟩ := h
  rintro ⟨w, alsoValue, fails⟩
  have same := valueOf?_eq_some.mpr hasValue
  rw [valueOf?_eq_some.mpr alsoValue] at same
  cases same
  exact fails passes

/-- The evaluation of criteria comes to what they come to. -/
theorem aggregate_verdict (criteria : List AcceptanceCriterion) (l : Ledger)
    (parameters : Dictionary Json) :
    Verdict criteria l parameters (aggregate (evaluate criteria l parameters)) := by
  have isEmpty : (evaluate criteria l parameters).isEmpty ↔ criteria = [] := by simp [evaluate]
  unfold aggregate
  split
  · rename_i empty
    cases isEmpty.mp empty
    exact ⟨by simp, by simp, by simp, by simp⟩
  · rename_i some
    rw [isEmpty] at some
    split
    · rename_i blocked
      obtain ⟨c, member, grave, fails⟩ := any_blocking.mp blocked
      refine ⟨iff_of_false nofun some, iff_of_true rfl ⟨c, member, grave, fails⟩,
        iff_of_false nofun ?_, iff_of_false nofun ?_⟩
      · rintro ⟨_, passes⟩
        exact (passes c member).not_fails fails
      · rintro ⟨_, harmless, _⟩
        exact harmless c member grave fails
    · rename_i free
      rw [any_blocking] at free
      split
      · rename_i unmet
        have unmet := any_not_passed.mp unmet
        refine ⟨iff_of_false nofun some, iff_of_false nofun free,
          iff_of_false nofun fun h => unmet h.2, iff_of_true rfl ⟨some, ?_, by simpa using unmet⟩⟩
        exact fun c member grave fails => free ⟨c, member, grave, fails⟩
      · rename_i met
        rw [any_not_passed, not_not] at met
        refine ⟨iff_of_false nofun some, iff_of_false nofun free, iff_of_true rfl ⟨some, met⟩,
          iff_of_false nofun ?_⟩
        rintro ⟨_, _, c, member, unmet⟩
        exact unmet (met c member)

end Acceptance
end Qualification
