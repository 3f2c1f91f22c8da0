import Qualification.Acceptance.Evaluation

/-! # The worst of the verdicts

The result of a run is the worst of what its evaluations come to one by one. So neither their
order nor a repetition matters, one more evaluation never improves a result, and a milder one
never makes it worse.
-/

namespace Qualification

namespace TestResult

variable {r s t : TestResult}

/-- The quality of a result; a run that was not evaluated has none. -/
def quality? : TestResult → Option Nat
  | fail => some 0
  | conditional => some 1
  | pass => some 2
  | notEvaluated => none

/-- The worse of two results; a run that was not evaluated does not count. -/
def worse (r s : TestResult) : TestResult :=
  match r.quality?, s.quality? with
  | some m, some n => if m ≤ n then r else s
  | some _, none => r
  | none, _ => s

/-- Both are results of evaluated runs, and the first one is not the better one. -/
def AtMost (r s : TestResult) : Prop :=
  ∃ m n, r.quality? = some m ∧ s.quality? = some n ∧ m ≤ n

theorem worse_comm (r s : TestResult) : worse r s = worse s r := by
  cases r <;> cases s <;> rfl

theorem worse_assoc (r s t : TestResult) : worse (worse r s) t = worse r (worse s t) := by
  cases r <;> cases s <;> cases t <;> rfl

theorem notEvaluated_worse (r : TestResult) : worse notEvaluated r = r :=
  rfl

theorem worse_notEvaluated (r : TestResult) : worse r notEvaluated = r := by
  cases r <;> rfl

theorem worse_eq_notEvaluated :
    worse r s = notEvaluated ↔ r = notEvaluated ∧ s = notEvaluated := by
  cases r <;> cases s <;> decide

theorem worse_atMost_right (evaluated : s ≠ notEvaluated) : (worse r s).AtMost s := by
  cases r <;> cases s <;> simp [AtMost, worse, quality?] at evaluated ⊢

theorem atMost_self (evaluated : r ≠ notEvaluated) : r.AtMost r := by
  cases r <;> simp [AtMost, quality?] at evaluated ⊢

theorem atMost_pass (evaluated : r ≠ notEvaluated) : r.AtMost pass := by
  cases r <;> simp [AtMost, quality?] at evaluated ⊢

theorem fail_atMost (evaluated : r ≠ notEvaluated) : fail.AtMost r := by
  cases r <;> simp [AtMost, quality?] at evaluated ⊢

theorem AtMost.worse_right (h : r.AtMost s) (t : TestResult) :
    (worse r t).AtMost (worse s t) := by
  cases r <;> cases s <;> cases t <;> simp [AtMost, worse, quality?] at h ⊢

end TestResult

open TestResult

theorem Severity.isBlocking_mono {s t : Severity} (h : s.rank ≤ t.rank)
    (blocking : s.isBlocking) : t.isBlocking := by
  cases s <;> cases t <;> simp [rank, isBlocking] at h blocking ⊢

namespace Evaluation

variable {e e' : Evaluation}

/-- What an evaluation comes to on its own. -/
def outcome (e : Evaluation) : TestResult :=
  match e.passed with
  | some true => .pass
  | some false => if e.severity.isBlocking then .fail else .conditional
  | none => .conditional

/-- An evaluation that is milder than another one: it passed, or the same came of it at a
    severity that is not higher. -/
def Milder (e' e : Evaluation) : Prop :=
  e'.passed = some true ∨ e'.passed = e.passed ∧ e'.severity.rank ≤ e.severity.rank

theorem outcome_evaluated (e : Evaluation) : e.outcome ≠ .notEvaluated := by
  unfold outcome
  split
  · nofun
  · split <;> nofun
  · nofun

theorem outcome_fail (e : Evaluation) :
    (e.isFailure && e.severity.isBlocking) = (e.outcome == .fail) := by
  unfold isFailure outcome
  cases e.passed with
  | none => rfl
  | some passed => cases passed <;> cases e.severity <;> rfl

theorem outcome_pass (e : Evaluation) :
    (e.isUndetermined || e.isFailure) = (e.outcome != .pass) := by
  unfold isUndetermined isFailure outcome
  cases e.passed with
  | none => rfl
  | some passed => cases passed <;> cases e.severity <;> rfl

/-- What does not fail a run at a severity comes to the same at a lower one. -/
theorem outcome_lower (same : e'.passed = e.passed) (lower : e'.severity.rank ≤ e.severity.rank)
    (harmless : e.outcome ≠ .fail) : e'.outcome = e.outcome := by
  unfold outcome at harmless ⊢
  rw [same]
  cases verdict : e.passed with
  | none => rfl
  | some passed =>
      cases passed with
      | true => rfl
      | false =>
          have free : ¬ e.severity.isBlocking := by simpa [verdict] using harmless
          have lowerFree : ¬ e'.severity.isBlocking := fun blocking =>
            free (Severity.isBlocking_mono lower blocking)
          simp only [free, lowerFree]

/-- A milder evaluation comes to nothing worse. -/
theorem Milder.atMost (h : e'.Milder e) : e.outcome.AtMost e'.outcome := by
  rcases h with passed | ⟨same, lower⟩
  · have pass : e'.outcome = .pass := by rw [outcome, passed]
    rw [pass]
    exact atMost_pass e.outcome_evaluated
  · by_cases fails : e.outcome = .fail
    · rw [fails]
      exact fail_atMost e'.outcome_evaluated
    · rw [outcome_lower same lower fails]
      exact atMost_self e.outcome_evaluated

end Evaluation

namespace Acceptance

open Evaluation

variable {e e' : Evaluation} {xs ys : List Evaluation}

theorem aggregate_nil : aggregate [] = .notEvaluated :=
  rfl

theorem aggregate_cons (e : Evaluation) (es : List Evaluation) :
    aggregate (e :: es) = worse e.outcome (aggregate es) := by
  have evaluated := e.outcome_evaluated
  simp only [aggregate, List.any_cons, List.isEmpty_cons, Bool.false_eq_true, if_false,
    outcome_fail, outcome_pass]
  cases es with
  | nil =>
      cases outcome : e.outcome with
      | notEvaluated => exact absurd outcome evaluated
      | pass | fail | conditional => rfl
  | cons d rest =>
      rw [List.isEmpty_cons]
      generalize (d :: rest).any (fun e => e.outcome == .fail) = failed
      generalize (d :: rest).any (fun e => e.outcome != .pass) = unmet
      cases outcome : e.outcome with
      | notEvaluated => exact absurd outcome evaluated
      | pass | fail | conditional => cases failed <;> cases unmet <;> rfl

theorem aggregate_append (xs ys : List Evaluation) :
    aggregate (xs ++ ys) = worse (aggregate xs) (aggregate ys) := by
  induction xs with
  | nil => rw [List.nil_append, aggregate_nil, notEvaluated_worse]
  | cons e rest ih => rw [List.cons_append, aggregate_cons, aggregate_cons, ih, worse_assoc]

theorem aggregate_insert (xs ys : List Evaluation) (e : Evaluation) :
    aggregate (xs ++ e :: ys) = worse e.outcome (aggregate (xs ++ ys)) := by
  rw [aggregate_append, aggregate_cons, aggregate_append, ← worse_assoc, ← worse_assoc,
    worse_comm (aggregate xs)]

theorem aggregate_eq_notEvaluated : aggregate xs = .notEvaluated ↔ xs = [] := by
  cases xs with
  | nil => exact iff_of_true rfl rfl
  | cons e rest =>
      rw [aggregate_cons, worse_eq_notEvaluated]
      exact iff_of_false (fun h => e.outcome_evaluated h.1) nofun

/-- Only which evaluations there are matters. -/
theorem aggregate_members (same : ∀ e, e ∈ xs ↔ e ∈ ys) : aggregate xs = aggregate ys := by
  have any (kind : Evaluation → Bool) : xs.any kind = ys.any kind := by
    rw [Bool.eq_iff_iff, List.any_eq_true, List.any_eq_true]
    simp only [same]
  have empty : xs.isEmpty = ys.isEmpty := by
    rw [Bool.eq_iff_iff, List.isEmpty_iff, List.isEmpty_iff]
    simp only [List.eq_nil_iff_forall_not_mem, same]
  simp only [aggregate, any, empty]

theorem aggregate_milder (xs ys : List Evaluation) (h : e'.Milder e) :
    (aggregate (xs ++ e :: ys)).AtMost (aggregate (xs ++ e' :: ys)) := by
  rw [aggregate_insert, aggregate_insert]
  exact h.atMost.worse_right _

/-- What a summary of evaluations keeps to if it gives the worst of their outcomes. -/
structure Worst (summary : List Evaluation → TestResult) : Prop where
  empty : summary [] = .notEvaluated
  single : ∀ e, summary [e] = e.outcome
  append : ∀ xs ys, summary (xs ++ ys) = worse (summary xs) (summary ys)
  permuted : ∀ xs ys, xs.Perm ys → summary xs = summary ys
  repeated : ∀ xs e, e ∈ xs → summary (e :: xs) = summary xs
  added : ∀ xs e ys, xs ++ ys ≠ [] → (summary (xs ++ e :: ys)).AtMost (summary (xs ++ ys))
  milder : ∀ xs e e' ys, e'.Milder e →
    (summary (xs ++ e :: ys)).AtMost (summary (xs ++ e' :: ys))

/-- The result of a run is the worst that its evaluations come to. -/
theorem aggregate_worst : Worst aggregate where
  empty := aggregate_nil
  single e := by rw [aggregate_cons, aggregate_nil, worse_notEvaluated]
  append := aggregate_append
  permuted xs ys h := aggregate_members fun e => h.mem_iff
  repeated xs e member := aggregate_members fun d => by
    rw [List.mem_cons, or_iff_right_of_imp]
    rintro rfl
    exact member
  added xs e ys nonempty := by
    rw [aggregate_insert]
    exact worse_atMost_right fun none => nonempty (aggregate_eq_notEvaluated.mp none)
  milder xs e e' ys h := aggregate_milder xs ys h

end Acceptance
end Qualification
