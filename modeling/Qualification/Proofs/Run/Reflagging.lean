import Qualification.Proofs.Run.Result
import Qualification.Proofs.Run.Review

/-! # Flags and verdicts

The verdicts of a completed run depend on which of its measurements are bad, and not on the
reviews that made them so. A review concerns the criteria on the parameter of its measurement
and no others; and these only where that measurement is the last of its parameter that
counts, before the review or after it. Once all is bad again that was bad, and no more, the
verdicts are the old ones.
-/

namespace Qualification

variable {l k : Ledger} {parameters : Dictionary Json} {parameter id : String}
  {m : Measurement} {earlier later : List Measurement} {flag : QualityFlag}
  {notes : Option String} {c : AcceptanceCriterion}

/-- A measurement after reviews, of the same weight as before where a parameter is judged. -/
structure Measurement.CountsAs (parameter : String) (before after : Measurement) : Prop where
  reviewed : before.Reviewed after
  counts : before.parameter = parameter → (after.flag = .bad ↔ before.flag = .bad)

/-- Is a measurement the last of its parameter that counts, if these are recorded later? -/
def Measurement.CountsLast (m : Measurement) (later : List Measurement) : Prop :=
  m.flag ≠ .bad ∧ ∀ e ∈ later, e.parameter = m.parameter → e.flag = .bad

namespace Measurement

variable {mid after : Measurement}

theorem CountsAs.refl (parameter : String) (m : Measurement) : m.CountsAs parameter m :=
  ⟨rfl, fun _ => Iff.rfl⟩

theorem CountsAs.trans (h : m.CountsAs parameter mid) (k : mid.CountsAs parameter after) :
    m.CountsAs parameter after :=
  ⟨h.reviewed.trans k.reviewed, fun named =>
    (k.counts (h.reviewed.parameter_eq.trans named)).trans (h.counts named)⟩

end Measurement

namespace Ledger

/-- A ledger after reviews, with entries of the same weight where a parameter is judged. -/
def CountsAs (parameter : String) (before after : Ledger) : Prop :=
  List.Forall₂ (Measurement.CountsAs parameter) before.entries after.entries

/-- A ledger in which the same entries are bad as before. -/
def SameBad (before after : Ledger) : Prop :=
  List.Forall₂ (fun a b : Measurement => b.flag = .bad ↔ a.flag = .bad)
    before.entries after.entries

theorem CountsAs.refl (parameter : String) (l : Ledger) : l.CountsAs parameter l :=
  List.forall₂_same.mpr fun m _ => .refl parameter m

theorem CountsAs.trans {mid : Ledger} (h : l.CountsAs parameter mid)
    (h' : mid.CountsAs parameter k) : l.CountsAs parameter k :=
  forall₂_trans (R := Measurement.CountsAs parameter) (fun _ _ _ => .trans) h h'

/-- The entry that an identity finds, between those recorded before it and after it. -/
structure Finds (l : Ledger) (id : String) (earlier : List Measurement) (m : Measurement)
    (later : List Measurement) : Prop where
  split : l.entries = earlier ++ m :: later
  owner : m.id = id
  first : ∀ e ∈ earlier, e.id ≠ id

theorem Finds.eq (h : l.Finds id earlier m later) : l = ⟨earlier ++ m :: later⟩ := by
  rw [← h.split]

theorem Finds.get? (h : l.Finds id earlier m later) : l.get? id = some m := by
  refine List.find?_eq_some_iff_append.mpr ⟨by simp [h.owner], earlier, later, h.split, ?_⟩
  intro e member
  simp [h.first e member]

theorem Finds.setFlag (h : l.Finds id earlier m later) (flag : QualityFlag)
    (notes : Option String) :
    l.setFlag id flag notes = ⟨earlier ++ reflag flag notes m :: later⟩ := by
  rw [Ledger.setFlag, h.split, Keyed.changeFirst_append _ h.first h.owner]

/-- What an identity finds among reviewed entries is the review of what it found before. -/
theorem get?_reviewed {before after : List Measurement}
    (reviews : List.Forall₂ Measurement.Reviewed before after) (found : get? ⟨after⟩ id = some m) :
    ∃ old, get? ⟨before⟩ id = some old ∧ old.Reviewed m := by
  unfold get? at found ⊢
  induction reviews with
  | nil => cases found
  | @cons a b _ _ reviewed _ ih =>
      have owner : b.id = a.id := by rw [reviewed]
      by_cases same : a.id = id
      · obtain rfl : b = m := by simpa [owner, same] using found
        exact ⟨a, by simp [same], reviewed⟩
      · obtain ⟨old, isEntry, alsoReviewed⟩ := ih (by simpa [owner, same] using found)
        exact ⟨old, by simpa [same] using isEntry, alsoReviewed⟩

theorem latest?_append (earlier later : List Measurement) (parameter : String) :
    latest? ⟨earlier ++ later⟩ parameter =
      (latest? ⟨later⟩ parameter).or (latest? ⟨earlier⟩ parameter) := by
  simp only [latest?, usable, List.filter_append, List.getLast?_append]

theorem usable_countsAs (alike : l.CountsAs parameter k) :
    List.Forall₂ (Measurement.CountsAs parameter) (l.usable parameter) (k.usable parameter) := by
  refine List.rel_filter (fun a b same => ?_) alike
  change (_ && _) = true ↔ (_ && _) = true
  rw [Bool.and_eq_true, Bool.and_eq_true, Measurement.isUsable_iff, Measurement.isUsable_iff,
    same.reviewed.parameter_eq, beq_iff_eq]
  exact and_congr_right fun named => (not_congr (same.counts named)).symm

/-- A parameter is judged by the same value where all its entries count as before. -/
theorem latest?_countsAs (alike : l.CountsAs parameter k) :
    (k.latest? parameter).map (·.value) = (l.latest? parameter).map (·.value) := by
  have values := map_eq_of_forall₂ (fun _ _ same => Measurement.Reviewed.value_eq same.reviewed)
    (usable_countsAs alike)
  rw [latest?, latest?, ← List.getLast?_map, ← List.getLast?_map, values]

/-- What was recorded before an entry that counts is of no weight. -/
theorem latest?_of_later (counts : ∃ e ∈ later, e.parameter = parameter ∧ e.flag ≠ .bad)
    (before : List Measurement) :
    latest? ⟨before ++ later⟩ parameter = latest? ⟨later⟩ parameter := by
  obtain ⟨e, member, named, trusted⟩ := counts
  have some : latest? ⟨later⟩ parameter ≠ none :=
    fun none => trusted (latest?_eq_none.mp none e member named)
  obtain ⟨last, isLast⟩ := Option.ne_none_iff_exists'.mp some
  rw [latest?_append, isLast, Option.some_or]

/-- A review of an entry that does not count last, and then does not either, or of one that
    counts as before, leaves every parameter the value that it is judged by. -/
theorem latest?_unmoved (unmoved : m.flag ≠ .bad ∧ flag ≠ .bad ∨
      ¬ m.CountsLast later ∧ ¬ (reflag flag notes m).CountsLast later) :
    (latest? ⟨earlier ++ reflag flag notes m :: later⟩ parameter).map (·.value) =
      (latest? ⟨earlier ++ m :: later⟩ parameter).map (·.value) := by
  by_cases alike : m.parameter = parameter → (flag = .bad ↔ m.flag = .bad)
  · have same (entries : List Measurement) := CountsAs.refl parameter ⟨entries⟩
    exact latest?_countsAs (List.rel_append (same earlier) (.cons ⟨rfl, alike⟩ (same later)))
  · -- The entry counts before the review or after it, but a later one counts all along.
    obtain ⟨rfl, other⟩ := Classical.not_imp.mp alike
    have counts : ∃ e ∈ later, e.parameter = m.parameter ∧ e.flag ≠ .bad := by
      by_contra none
      have bad : ∀ e ∈ later, e.parameter = m.parameter → e.flag = .bad :=
        fun e member named => by_contra fun trusted => none ⟨e, member, named, trusted⟩
      rcases unmoved with ⟨trusted, stillTrusted⟩ | ⟨notLast, stillNotLast⟩
      · exact other (iff_of_false stillTrusted trusted)
      · have wasBad : m.flag = .bad := by_contra fun trusted => notLast ⟨trusted, bad⟩
        have isBad : flag = .bad := by_contra fun trusted => stillNotLast ⟨trusted, bad⟩
        exact other (iff_of_true isBad wasBad)
    rw [List.append_cons, latest?_of_later counts, List.append_cons, latest?_of_later counts]

/-- Without the entry that counts last, what came before it counts. -/
theorem latest?_fallsBack (last : m.CountsLast later) (earlier : List Measurement)
    (notes : Option String) :
    latest? ⟨earlier ++ reflag .bad notes m :: later⟩ m.parameter =
      latest? ⟨earlier⟩ m.parameter := by
  have none : latest? ⟨reflag .bad notes m :: later⟩ m.parameter = none := by
    refine latest?_eq_none.mpr fun e member named => ?_
    rcases List.mem_cons.mp member with rfl | isLater
    · rfl
    · exact last.2 e isLater named
  rw [latest?_append, none, Option.none_or]

end Ledger

namespace Acceptance

theorem evaluateOne_of_latest (same : (k.latest? c.threshold.parameter).map (·.value) =
      (l.latest? c.threshold.parameter).map (·.value)) :
    evaluateOne k parameters c = evaluateOne l parameters c := by
  simp only [evaluateOne, valueOf?, same]

/-- A verdict by the last entry that counts, or by the run parameter if there is none; where
    neither is there, the criterion is undetermined. -/
inductive JudgedBy (l : Ledger) (parameters : Dictionary Json) (c : AcceptanceCriterion)
    (e : Evaluation) : Prop where
  | valued {v : MeasuredValue} :
      HasValue l parameters c.threshold.parameter v →
      e.value = some v → e.passed = some (judge c.threshold v).1 →
      e.reason = (judge c.threshold v).2 → JudgedBy l parameters c e
  | undetermined :
      (∀ m ∈ l.entries, m.parameter = c.threshold.parameter → m.flag = .bad) →
      Dictionary.get? c.threshold.parameter parameters = none →
      e.value = none → e.passed = none → JudgedBy l parameters c e

theorem evaluateOne_judgedBy (l : Ledger) (parameters : Dictionary Json)
    (c : AcceptanceCriterion) : JudgedBy l parameters c (evaluateOne l parameters c) := by
  cases value : valueOf? l parameters c.threshold.parameter with
  | some v =>
      rw [evaluateOne, value]
      exact .valued (valueOf?_eq_some.mp value) rfl rfl rfl
  | none =>
      rw [evaluateOne, value]
      obtain ⟨unmeasured, unset⟩ := Option.or_eq_none_iff.mp value
      exact .undetermined (Ledger.latest?_eq_none.mp (Option.map_eq_none_iff.mp unmeasured))
        (Option.map_eq_none_iff.mp unset) rfl rfl

end Acceptance

/-- Does a call review a measurement of the parameter? -/
def Call.Concerns (c : Call) (l : Ledger) (parameter : String) : Prop :=
  ∃ id flag notes m, c.operation = .flag id flag notes ∧ l.get? id = some m ∧
    m.parameter = parameter

namespace TestRun

variable {run : TestRun} {p : ProtocolDefinition} {calls others : List Call}
  {env : Surroundings}

/-- A completed run that a protocol has just judged. -/
inductive JustJudged (p : ProtocolDefinition) : TestRun → Prop where
  | completed {prior : TestRun} (env : Surroundings) :
      accepted (prior.call ⟨env, p, .complete⟩) →
      JustJudged p (prior.call ⟨env, p, .complete⟩).2
  | evaluated {prior : TestRun} (env : Surroundings) :
      prior.status = .completed → accepted (prior.call ⟨env, p, .evaluate⟩) →
      JustJudged p (prior.call ⟨env, p, .evaluate⟩).2

/-- The run that calls leave, judged once more. -/
def judgedAfter (run : TestRun) (calls : List Call) (env : Surroundings)
    (p : ProtocolDefinition) : TestRun :=
  ((run.after calls).call ⟨env, p, .evaluate⟩).2

/-- Two runs with the same verdicts and the same result. -/
def SameVerdicts (run next : TestRun) : Prop :=
  next.acceptance = run.acceptance ∧ next.result = run.result

/-- How the verdicts of a run that was judged follow the flags that reviews set. -/
structure FollowsFlags (p : ProtocolDefinition) (run : TestRun) (calls : List Call)
    (env : Surroundings) : Prop where
  judged : accepted ((run.after calls).call ⟨env, p, .evaluate⟩)
  /-- The verdict on a parameter of which no measurement was reviewed. -/
  untouched : ∀ (i : Nat) c, p.acceptanceCriteria[i]? = some c →
    (∀ review ∈ calls, ¬ review.Concerns run.ledger c.threshold.parameter) →
      (run.judgedAfter calls env p).acceptance[i]? = run.acceptance[i]?
  /-- One more review, of a measurement that counts after it as before, or does not count
      last of its parameter, neither before nor after. -/
  unmoved : ∀ (review : Call) id flag notes earlier m later,
    review.operation = .flag id flag notes →
    (run.after calls).ledger.Finds id earlier m later →
    m.flag ≠ .bad ∧ flag ≠ .bad ∨
      ¬ m.CountsLast later ∧ ¬ (Ledger.reflag flag notes m).CountsLast later →
        (run.judgedAfter calls env p).SameVerdicts
          (run.judgedAfter (calls ++ [review]) env p)
  /-- One more review, by which the measurement that counts last of its parameter is bad. -/
  fallsBack : ∀ (review : Call) id notes earlier m later,
    review.operation = .flag id .bad notes →
    (run.after calls).ledger.Finds id earlier m later → m.CountsLast later →
    ∀ (i : Nat) c, p.acceptanceCriteria[i]? = some c → c.threshold.parameter = m.parameter →
      ∃ e, (run.judgedAfter (calls ++ [review]) env p).acceptance[i]? = some e ∧
        Acceptance.JudgedBy ⟨earlier⟩ run.parameters c e
  /-- Other calls that leave the same measurements bad, whatever they did meanwhile. -/
  orderless : ∀ others : List Call, (run.after others).ledger.SameBad (run.after calls).ledger →
    (run.judgedAfter others env p).SameVerdicts (run.judgedAfter calls env p)
  restored : run.ledger.SameBad (run.after calls).ledger →
    run.SameVerdicts (run.judgedAfter calls env p)

/-- A completed run with the verdicts and the result that a protocol gives it. -/
structure UpToDate (p : ProtocolDefinition) (run : TestRun) : Prop where
  completed : run.status = .completed
  bound : run.BoundTo p
  acceptance : run.acceptance =
    Acceptance.evaluate p.acceptanceCriteria run.ledger run.parameters
  result : run.result = Acceptance.aggregate run.acceptance

theorem JustJudged.upToDate (h : JustJudged p run) : run.UpToDate p := by
  cases h with
  | completed env done =>
      obtain ⟨next, completed⟩ := answeringWith_accepted.mp done
      rw [call, apply, completed]
      obtain ⟨bound, _, _, rfl⟩ := complete_ok.mp completed
      exact ⟨rfl, bound, rfl, rfl⟩
  | evaluated env status done =>
      obtain ⟨next, judged⟩ := answeringWith_accepted.mp done
      rw [call, apply, judged]
      obtain ⟨bound, rfl⟩ := evaluate_ok.mp judged
      rw [if_pos status]
      exact ⟨status, bound, rfl, rfl⟩

theorem UpToDate.reviewed (h : run.UpToDate p) (calls : List Call) :
    run.Reviewed (run.after calls) :=
  (call_advances run).2 (by simp [isTerminal, RunStatus.isTerminal, h.completed]) calls

/-- Whatever is called meanwhile, a completed run can be judged again by its ledger. -/
theorem UpToDate.judgedAfter (h : run.UpToDate p) (calls : List Call) (env : Surroundings) :
    accepted ((run.after calls).call ⟨env, p, .evaluate⟩) ∧
      (run.judgedAfter calls env p).acceptance =
        Acceptance.evaluate p.acceptanceCriteria (run.after calls).ledger run.parameters ∧
      (run.judgedAfter calls env p).result =
        Acceptance.aggregate (run.judgedAfter calls env p).acceptance := by
  have reviewed := (h.reviewed calls).same
  have completed : (run.after calls).status = .completed := by rw [reviewed, h.completed]
  have bound : (run.after calls).BoundTo p := by
    rw [reviewed]
    exact h.bound
  have parameters : (run.after calls).parameters = run.parameters := by rw [reviewed]
  have judged : (run.after calls).evaluate p = .ok ((run.after calls).graded p) :=
    evaluate_ok.mpr ⟨bound, by rw [if_pos completed]⟩
  rw [TestRun.judgedAfter, call, apply, judged, ← parameters]
  exact ⟨rfl, rfl, rfl⟩

theorem UpToDate.verdict_at (h : run.UpToDate p) (calls : List Call) (env : Surroundings)
    {i : Nat} (criterion : p.acceptanceCriteria[i]? = some c) :
    (run.judgedAfter calls env p).acceptance[i]? =
      some (Acceptance.evaluateOne (run.after calls).ledger run.parameters c) := by
  rw [(h.judgedAfter calls env).2.1, Acceptance.evaluate, List.getElem?_map, criterion]
  rfl

/-- Where every parameter has the same value to be judged by, all is judged the same. -/
theorem UpToDate.sameVerdicts (h : run.UpToDate p)
    (same : ∀ parameter,
      ((run.after calls).ledger.latest? parameter).map (·.value) =
        ((run.after others).ledger.latest? parameter).map (·.value)) :
    (run.judgedAfter others env p).SameVerdicts (run.judgedAfter calls env p) := by
  obtain ⟨_, acceptance, result⟩ := h.judgedAfter calls env
  obtain ⟨_, otherAcceptance, otherResult⟩ := h.judgedAfter others env
  have verdicts : (run.judgedAfter calls env p).acceptance =
      (run.judgedAfter others env p).acceptance := by
    rw [acceptance, otherAcceptance]
    exact List.map_congr_left fun c _ => Acceptance.evaluateOne_of_latest (same _)
  exact ⟨verdicts, by rw [result, otherResult, verdicts]⟩

/-- Judging a run that has just been judged changes nothing. -/
theorem UpToDate.judgedAgain (h : run.UpToDate p) (env : Surroundings) :
    run.SameVerdicts (run.judgedAfter [] env p) := by
  obtain ⟨_, acceptance, result⟩ := h.judgedAfter [] env
  have verdicts : (run.judgedAfter [] env p).acceptance = run.acceptance :=
    acceptance.trans h.acceptance.symm
  exact ⟨verdicts, by rw [result, verdicts, h.result]⟩

theorem SameVerdicts.trans {mid next : TestRun} (h : run.SameVerdicts mid)
    (k : mid.SameVerdicts next) : run.SameVerdicts next :=
  ⟨k.1.trans h.1, k.2.trans h.2⟩

theorem call_flag {review : Call} (isFlag : review.operation = .flag id flag notes)
    (finds : run.ledger.Finds id earlier m later) :
    (run.call review).2.ledger = ⟨earlier ++ Ledger.reflag flag notes m :: later⟩ := by
  obtain ⟨env, q, operation⟩ := review
  cases isFlag
  have flagged : run.flag id flag notes = .ok (Ledger.reflag flag notes m,
      { run with ledger := run.ledger.setFlag id flag notes }) :=
    flag_ok.mpr ⟨⟨m, finds.get?, rfl⟩, rfl⟩
  rw [call, apply, flagged, ← finds.setFlag]
  rfl

/-- A review that concerns another parameter leaves the entries of this one their weight. -/
theorem call_countsAs {first : Ledger} {review : Call} (isReview : review.operation.isReview)
    (other : ¬ review.Concerns first parameter) (alike : first.CountsAs parameter run.ledger) :
    first.CountsAs parameter (run.call review).2.ledger := by
  obtain ⟨env, q, operation⟩ := review
  cases operation with
  | flag id flag notes =>
      obtain ⟨_, same⟩ | ⟨m, found, same⟩ := review_cases run env q id flag notes
      · rwa [same]
      · obtain ⟨old, isEntry, reviewed⟩ :=
          Ledger.get?_reviewed (alike.imp fun _ _ same => same.reviewed) found
        have unnamed : m.parameter ≠ parameter := fun named =>
          other ⟨id, flag, notes, old, rfl, isEntry, reviewed.parameter_eq.symm.trans named⟩
        have changed : run.ledger.CountsAs parameter (run.ledger.setFlag id flag notes) := by
          refine Keyed.forall₂_changeFirst (.refl parameter) fun e isFound =>
            ⟨rfl, fun named => ?_⟩
          cases isFound.symm.trans found
          exact absurd named unnamed
        rw [same]
        exact alike.trans changed
  | _ => cases isReview

/-- Reviews that concern other parameters leave the entries of this one their weight. -/
theorem after_countsAs (reviews : ∀ review ∈ calls, review.operation.isReview)
    (others : ∀ review ∈ calls, ¬ review.Concerns run.ledger parameter) :
    run.ledger.CountsAs parameter (run.after calls).ledger :=
  @after_keeps run (fun next => run.ledger.CountsAs parameter next.ledger) calls
    (fun review member _ alike =>
      call_countsAs (reviews review member) (others review member) alike)
    (.refl parameter run.ledger)

/-- Entries that are bad where they were after other calls count as they did then. -/
theorem UpToDate.countsAs (h : run.UpToDate p)
    (same : (run.after others).ledger.SameBad (run.after calls).ledger) (parameter : String) :
    (run.after others).ledger.CountsAs parameter (run.after calls).ledger := by
  have back : List.Forall₂ Measurement.Reviewed
      (run.after others).ledger.entries run.ledger.entries :=
    ((h.reviewed others).entries.imp fun _ _ => Measurement.Reviewed.symm).flip
  have reviewed := forall₂_trans (R := Measurement.Reviewed) (fun _ _ _ => .trans) back
    (h.reviewed calls).entries
  exact reviewed.mp (fun _ _ reviewed bad => ⟨reviewed, fun _ => bad⟩) same

/-- Reviews change the verdicts on their own parameters alone, and only by what they leave
    as the last measurement that counts; and what they change, they can restore. -/
theorem verdicts_follow_flags (judged : JustJudged p run)
    (reviews : ∀ review ∈ calls, review.operation.isReview) (env : Surroundings) :
    run.FollowsFlags p calls env := by
  have now := judged.upToDate
  have unchanged := now.judgedAgain env
  refine ⟨(now.judgedAfter calls env).1, ?_, ?_, ?_, ?_, ?_⟩
  · intro i c criterion others
    have same := Ledger.latest?_countsAs (after_countsAs reviews others)
    rw [← unchanged.1, now.verdict_at calls env criterion, now.verdict_at [] env criterion]
    exact congrArg some (Acceptance.evaluateOne_of_latest same)
  · intro review id flag notes earlier m later isFlag finds unmoved
    refine now.sameVerdicts fun parameter => ?_
    rw [after_append, after, after, call_flag isFlag finds, finds.eq]
    exact Ledger.latest?_unmoved unmoved
  · intro review id notes earlier m later isFlag finds last i c criterion named
    refine ⟨_, now.verdict_at (calls ++ [review]) env criterion, ?_⟩
    have same := congrArg (Option.map (·.value)) (Ledger.latest?_fallsBack last earlier notes)
    rw [after_append, after, after, call_flag isFlag finds,
      Acceptance.evaluateOne_of_latest (named ▸ same)]
    exact Acceptance.evaluateOne_judgedBy ⟨earlier⟩ run.parameters c
  · intro others same
    exact now.sameVerdicts fun parameter =>
      Ledger.latest?_countsAs (now.countsAs same parameter)
  · intro same
    refine unchanged.trans (now.sameVerdicts fun parameter => ?_)
    exact Ledger.latest?_countsAs (@UpToDate.countsAs run p calls [] now same parameter)

/-- An illustration: all steps are over, and the power was too low at first and then was not. -/
def exposedTwice : TestRun :=
  ofTwoPhases.after [numbered .start, numbered (.startStep "inspect"),
    numbered (.record (.reading "power" 190)), numbered (.record (.reading "power" 210)),
    numbered (.finishStep "inspect" .passed none), numbered (.startStep "mount"),
    numbered (.finishStep "mount" .completed none), numbered (.startStep "irradiate"),
    numbered (.finishStep "irradiate" .completed none)]

/-- An illustration: the same run, completed. -/
def measuredTwice : TestRun :=
  (exposedTwice.call (numbered .complete)).2

/-- An illustration: the second reading is rejected, and then let count again. -/
def secondThoughts : List Call :=
  [numbered (.flag "reading-1" .bad none), numbered (.flag "reading-1" .suspect none)]

/-- The run of the second thoughts after some of them, judged again. -/
def onceMore (reviews : List Call) : TestRun :=
  measuredTwice.judgedAfter reviews (numbered .evaluate).env .monitored

theorem secondThoughts_followed :
    JustJudged .monitored measuredTwice ∧
      (∀ review ∈ secondThoughts, review.operation.isReview) ∧
      measuredTwice.FollowsFlags .monitored secondThoughts (numbered .evaluate).env ∧
      measuredTwice.result = .pass ∧ (onceMore (secondThoughts.take 1)).result = .fail ∧
      (onceMore secondThoughts).result = .pass := by
  have done : accepted (exposedTwice.call (numbered .complete)) := by
    rw [exposedTwice, ofTwoPhases, ofTwoPhases_steps]
    decide +kernel
  have judged : JustJudged .monitored measuredTwice := .completed _ done
  have reviews : ∀ review ∈ secondThoughts, review.operation.isReview := by decide +kernel
  refine ⟨judged, reviews, verdicts_follow_flags judged reviews _, ?_, ?_, ?_⟩
  · rw [measuredTwice, exposedTwice, ofTwoPhases, ofTwoPhases_steps]
    decide +kernel
  · rw [onceMore, measuredTwice, exposedTwice, ofTwoPhases, ofTwoPhases_steps]
    decide +kernel
  · rw [onceMore, measuredTwice, exposedTwice, ofTwoPhases, ofTwoPhases_steps]
    decide +kernel

end TestRun
end Qualification
