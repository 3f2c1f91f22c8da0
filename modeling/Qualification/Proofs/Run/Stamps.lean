import Qualification.Proofs.Run.Order

/-! # Times and verdicts that agree with the statuses

Each status is written together with a time: what has begun has the time of its begin, what
is over has that of its end, and nothing else has. A run that ended before its time says why,
and the verdict of a step goes with the status that it was left in.

Every stroke keeps this, so it holds of every run, also of one that no protocol describes.
-/

namespace Qualification

/-- Are the times of a phase there as its status says? -/
structure PhaseRecord.Stamped (ph : PhaseRecord) : Prop where
  started : ph.startedAt.isSome ↔ ph.status ≠ .pending
  completed : ph.completedAt.isSome ↔ ph.status.isClosed

/-- Are the times and the verdict of a step there as its status says? -/
structure StepRecord.Stamped (s : StepRecord) : Prop where
  started : s.startedAt.isSome ↔ s.status ≠ .pending
  completed : s.completedAt.isSome ↔ s.status.isTerminal
  passed : s.verdict = some true → s.status = .completed
  failed : s.verdict = some false → s.status = .failed

/-- Are the times, the reason and the verdicts of a run there as the statuses say? -/
structure TestRun.Stamped (run : TestRun) : Prop where
  started : run.startedAt.isSome ↔ run.status ≠ .pending
  completed : run.completedAt.isSome ↔ run.status.isTerminal
  reason : run.reason.isSome ↔ run.status = .failed ∨ run.status = .aborted
  phases : ∀ ph ∈ run.phases, ph.Stamped
  steps : ∀ s ∈ run.steps, s.Stamped

namespace PhaseRecord.Stamped

variable {ph : PhaseRecord} {now : Instant}

theorem not_started (h : ph.Stamped) (pending : ph.status = .pending) : ph.startedAt = none := by
  have started := h.started
  simpa [pending] using started

theorem not_completed (h : ph.Stamped) (unfinished : ¬ ph.status.isClosed) :
    ph.completedAt = none :=
  Option.not_isSome_iff_eq_none.mp (unfinished ∘ h.completed.mp)

theorem started_of_completed (h : ph.Stamped) (known : ph.completedAt.isSome) :
    ph.startedAt.isSome := by
  refine h.started.mpr fun pending => ?_
  have closed := h.completed.mp known
  simp [pending] at closed

theorem entered (h : ph.Stamped) (pending : ph.status = .pending) :
    (TestRun.entered now ph).Stamped where
  started := by simp [TestRun.entered]
  completed := by simp [TestRun.entered, h.not_completed (by simp [pending])]

theorem left (h : ph.Stamped) (isOpen : ph.status = .inProgress) :
    (TestRun.left now ph).Stamped where
  started := by simp [TestRun.left, h.started, isOpen]
  completed := by simp [TestRun.left]

theorem closed (h : ph.Stamped) : (TestRun.closeOpenPhase now ph).Stamped := by
  unfold TestRun.closeOpenPhase
  split
  · rename_i isOpen
    exact ⟨by simp [h.started, isOpen], by simp⟩
  · exact h

end PhaseRecord.Stamped

namespace StepRecord.Stamped

variable {s : StepRecord} {now : Instant}

theorem not_started (h : s.Stamped) (pending : s.status = .pending) : s.startedAt = none := by
  have started := h.started
  simpa [pending] using started

theorem not_completed (h : s.Stamped) (unfinished : ¬ s.status.isTerminal) :
    s.completedAt = none :=
  Option.not_isSome_iff_eq_none.mp (unfinished ∘ h.completed.mp)

theorem started_of_completed (h : s.Stamped) (known : s.completedAt.isSome) :
    s.startedAt.isSome := by
  refine h.started.mpr fun pending => ?_
  have terminal := h.completed.mp known
  simp [pending] at terminal

theorem not_judged (h : s.Stamped) (unfinished : ¬ s.status.isTerminal) : s.verdict = none := by
  cases given : s.verdict with
  | none => rfl
  | some passed =>
      cases passed with
      | true => simp [h.passed given] at unfinished
      | false => simp [h.failed given] at unfinished

theorem begun (h : s.Stamped) (pending : s.status = .pending) :
    (TestRun.begun now s).Stamped := by
  have unfinished : ¬ s.status.isTerminal := by simp [pending]
  constructor
  · simp [TestRun.begun]
  · simp [TestRun.begun, h.not_completed unfinished]
  · simp [TestRun.begun, h.not_judged unfinished]
  · simp [TestRun.begun, h.not_judged unfinished]

/-- The outcome of a step settles its status and its verdict at once. -/
theorem finished (h : s.Stamped) (active : s.status = .inProgress) (outcome : StepOutcome)
    (observations : Option String) :
    (TestRun.finished now outcome observations s).Stamped := by
  have started : s.startedAt.isSome := h.started.mpr (by simp [active])
  cases outcome with
  | passed | failed | completed | skipped =>
      constructor <;>
        simp [TestRun.finished, started, StepOutcome.status, StepOutcome.verdict?]

theorem closed (h : s.Stamped) : (TestRun.closeOpenStep now s).Stamped := by
  unfold TestRun.closeOpenStep
  split
  · rename_i active
    have unjudged := h.not_judged (by simp [active])
    exact ⟨by simp [h.started, active], by simp, by simp [unjudged], by simp⟩
  · exact h

end StepRecord.Stamped

namespace TestRun

variable {run next : TestRun} {now : Instant} {p : ProtocolDefinition}

theorem Stamped.not_completed (h : run.Stamped) (unfinished : ¬ run.status.isTerminal) :
    run.completedAt = none :=
  Option.not_isSome_iff_eq_none.mp (unfinished ∘ h.completed.mp)

theorem Stamped.started_of_completed (h : run.Stamped) (known : run.completedAt.isSome) :
    run.startedAt.isSome := by
  refine h.started.mpr fun pending => ?_
  have terminal := h.completed.mp known
  simp [pending] at terminal

theorem Stamped.changePhase (h : run.Stamped) {phaseId : String}
    {change : PhaseRecord → PhaseRecord}
    (found : ∀ ph, run.phase? phaseId = some ph → (change ph).Stamped) :
    (run.changePhase phaseId change).Stamped :=
  ⟨h.started, h.completed, h.reason, Keyed.forall_changeFirst h.phases found, h.steps⟩

theorem Stamped.changeStep (h : run.Stamped) {stepId : String}
    {change : StepRecord → StepRecord}
    (found : ∀ s, run.step? stepId = some s → (change s).Stamped) :
    (run.changeStep stepId change).Stamped :=
  ⟨h.started, h.completed, h.reason, h.phases, Keyed.forall_changeFirst h.steps found⟩

theorem Stamped.left (h : run.Stamped) {ph : PhaseRecord}
    (found : run.phase? ph.phaseId = some ph) (isOpen : ph.status = .inProgress) :
    (run.changePhase ph.phaseId (TestRun.left now)).Stamped := by
  refine h.changePhase fun other same => ?_
  cases found.symm.trans same
  exact (h.phases ph (List.mem_of_find?_eq_some found)).left isOpen

theorem Stamped.finishStep (h : run.Stamped) (env : Surroundings) (stepId : String)
    (outcome : StepOutcome) (observations : Option String) :
    (run.finishStep env stepId outcome observations).2.Stamped := by
  obtain ⟨e, _, same⟩ | ⟨s, mid, ready, changed, leaving⟩ :=
    finishStep_cases run env stepId outcome observations
  · rw [same]
    exact h
  obtain ⟨_, found, active⟩ := finishable_ok.mp ready
  have finished : mid.Stamped := by
    rw [changed]
    refine h.changeStep fun other same => ?_
    cases found.symm.trans same
    exact (h.steps s (List.mem_of_find?_eq_some found)).finished active outcome observations
  rcases leaving with ⟨_, same⟩ | ⟨_, same⟩
  · rw [same]
    cases leave : mid.exitPhase (env.clock 1) s.phaseId with
    | error e => exact finished
    | ok next =>
        obtain ⟨_, ⟨ph, there, isOpen⟩, _, rfl⟩ := exitPhase_ok.mp leave
        have owner := phase?_id there
        rw [← owner] at there ⊢
        exact finished.left there isOpen
  · rw [same]
    exact finished

theorem Change.stamped (h : Change run next) (stamped : run.Stamped) : next.Stamped := by
  cases h with
  | started now pending =>
      have unfinished := stamped.not_completed (by simp [pending])
      have noReason := stamped.reason
      exact ⟨by simp, by simp [unfinished], by simpa [pending] using noReason, stamped.phases,
        stamped.steps⟩
  | terminated now status reason inProgress ended =>
      have started : run.startedAt.isSome := stamped.started.mpr (by simp [inProgress])
      have phases : ∀ ph ∈ (run.terminate now status reason).phases, ph.Stamped :=
        List.forall_mem_map.mpr fun ph member => (stamped.phases ph member).closed
      have steps : ∀ s ∈ (run.terminate now status reason).steps, s.Stamped :=
        List.forall_mem_map.mpr fun s member => (stamped.steps s member).closed
      refine ⟨?_, ?_, ?_, phases, steps⟩
      all_goals rcases ended with rfl | rfl <;> simp [terminate, started]
  | completed now p inProgress closed =>
      have started : run.startedAt.isSome := stamped.started.mpr (by simp [inProgress])
      have noReason := stamped.reason
      exact ⟨by simp [TestRun.graded, TestRun.judged, started], by simp,
        by simpa [TestRun.graded, TestRun.judged, inProgress] using noReason, stamped.phases,
        stamped.steps⟩
  | judged p => exact ⟨stamped.started, stamped.completed, stamped.reason, stamped.phases,
      stamped.steps⟩
  | graded p completed => exact ⟨stamped.started, stamped.completed, stamped.reason,
      stamped.phases, stamped.steps⟩
  | entered now ph inProgress found pending earlier =>
      refine stamped.changePhase fun other same => ?_
      cases found.symm.trans same
      exact (stamped.phases ph (List.mem_of_find?_eq_some found)).entered pending
  | left now ph inProgress found isOpen terminal => exact stamped.left found isOpen
  | begun now s ph startable found isOpen =>
      obtain ⟨_, stepFound, pending, _⟩ := startable_ok.mp startable
      refine stamped.changeStep fun other same => ?_
      cases stepFound.symm.trans same
      exact (stamped.steps s (List.mem_of_find?_eq_some stepFound)).begun pending
  | finished env stepId outcome observations =>
      exact stamped.finishStep env stepId outcome observations
  | measured m inProgress => exact ⟨stamped.started, stamped.completed, stamped.reason,
      stamped.phases, stamped.steps⟩
  | flagged id flag notes => exact ⟨stamped.started, stamped.completed, stamped.reason,
      stamped.phases, stamped.steps⟩

theorem Changes.stamped (h : Changes run next) (stamped : run.Stamped) : next.Stamped := by
  induction h with
  | refl => exact stamped
  | tail _ change ih => exact change.stamped ih

theorem create_stamped {id specimen operator : String} {overrides : Dictionary Json}
    (h : create id now p specimen operator overrides = .ok run) : run.Stamped := by
  obtain ⟨_, _, rfl⟩ := map_ok h
  refine ⟨by simp, by simp, by simp, ?_, ?_⟩
  · intro _ member
    obtain ⟨ph, _, rfl⟩ := List.mem_map.mp member
    constructor <;> simp [pendingPhase]
  · intro _ member
    obtain ⟨ph, _, member⟩ := List.mem_flatMap.mp member
    obtain ⟨s, _, rfl⟩ := List.mem_map.mp member
    constructor <;> simp [pendingStep]

theorem Reachable.stamped (h : Reachable p run) : run.Stamped := by
  induction h with
  | created created => exact create_stamped created
  | called c _ ih => exact (call_changes _ c).stamped ih

end TestRun

end Qualification
