import Qualification.Proofs.Refusal
import Qualification.Run.Recording

/-! # When an operation is accepted

For each operation on a run: what it needs to be accepted, and what it then makes of the
run. Nothing later opens the operations again.
-/

namespace Qualification.TestRun

variable {run next : TestRun} {now : Instant} {env : Surroundings} {p : ProtocolDefinition}

/-- Is this the protocol that the run is bound to? -/
def BoundTo (run : TestRun) (p : ProtocolDefinition) : Prop :=
  p.id = run.protocolId ∧ p.version = run.protocolVersion

theorem requireInProgress_ok {action : String} :
    run.requireInProgress action = .ok () ↔ run.status = .inProgress := by
  unfold requireInProgress
  split <;> simp [*]

theorem requireProtocol_ok : run.requireProtocol p = .ok () ↔ run.BoundTo p := by
  unfold requireProtocol BoundTo
  split <;> simp [*]

theorem getPhase_ok {phaseId : String} {ph : PhaseRecord} :
    run.getPhase phaseId = .ok ph ↔ run.phase? phaseId = some ph := by
  unfold getPhase
  split <;> simp [*]

theorem getStep_ok {stepId : String} {s : StepRecord} :
    run.getStep stepId = .ok s ↔ run.step? stepId = some s := by
  unfold getStep
  split <;> simp [*]

theorem start_ok : run.start now = .ok next ↔
    run.status = .pending ∧ next = { run with status := .inProgress, startedAt := some now } := by
  unfold start
  split <;> simp [*, @eq_comm _ next]

theorem abort_ok {reason : String} : run.abort now reason = .ok next ↔
    run.status = .inProgress ∧ next = run.terminate now .aborted reason := by
  constructor
  · intro h
    obtain ⟨_, inProgress, rfl⟩ := map_ok h
    exact ⟨requireInProgress_ok.mp inProgress, rfl⟩
  · rintro ⟨inProgress, rfl⟩
    rw [abort, requireInProgress_ok.mpr inProgress]
    rfl

theorem fail_ok {reason : String} : run.fail now reason = .ok next ↔
    run.status = .inProgress ∧ next = run.terminate now .failed reason := by
  constructor
  · intro h
    obtain ⟨_, inProgress, rfl⟩ := map_ok h
    exact ⟨requireInProgress_ok.mp inProgress, rfl⟩
  · rintro ⟨inProgress, rfl⟩
    rw [fail, requireInProgress_ok.mpr inProgress]
    rfl

theorem complete_ok : run.complete now p = .ok next ↔
    run.BoundTo p ∧ run.status = .inProgress ∧ (∀ ph ∈ run.phases, ph.status.isClosed) ∧
      next = { run.graded p with status := .completed, completedAt := some now } := by
  constructor
  · intro h
    obtain ⟨_, bound, h⟩ := bind_ok h
    obtain ⟨_, inProgress, h⟩ := bind_ok h
    refine ⟨requireProtocol_ok.mp bound, requireInProgress_ok.mp inProgress, ?_⟩
    split at h
    · cases h
    · rename_i closed
      exact ⟨by simpa using closed, (Except.ok.inj h).symm⟩
  · rintro ⟨bound, inProgress, closed, rfl⟩
    have none : run.phases.find? (fun ph => !ph.status.isClosed) = none := by simpa using closed
    rw [complete, requireProtocol_ok.mpr bound, requireInProgress_ok.mpr inProgress]
    simp only [bind, Except.bind, none]

theorem evaluate_ok : run.evaluate p = .ok next ↔
    run.BoundTo p ∧
      next = if run.status = .completed then run.graded p else run.judged p := by
  constructor
  · intro h
    obtain ⟨_, bound, rfl⟩ := map_ok h
    exact ⟨requireProtocol_ok.mp bound, rfl⟩
  · rintro ⟨bound, rfl⟩
    rw [evaluate, requireProtocol_ok.mpr bound]
    rfl

theorem enterPhase_ok {phaseId : String} : run.enterPhase now phaseId = .ok next ↔
    run.status = .inProgress ∧
      (∃ ph, run.phase? phaseId = some ph ∧ ph.status = .pending) ∧
        run.openBefore? phaseId = none ∧ next = run.changePhase phaseId (entered now) := by
  constructor
  · intro h
    obtain ⟨_, inProgress, h⟩ := bind_ok h
    obtain ⟨ph, found, h⟩ := bind_ok h
    split at h
    · cases h
    · rename_i pending
      split at h
      · cases h
      · rename_i earlier
        exact ⟨requireInProgress_ok.mp inProgress,
          ⟨ph, getPhase_ok.mp found, Decidable.not_not.mp pending⟩, earlier,
          (Except.ok.inj h).symm⟩
  · rintro ⟨inProgress, ⟨ph, found, pending⟩, earlier, rfl⟩
    rw [enterPhase, requireInProgress_ok.mpr inProgress, getPhase_ok.mpr found]
    simp only [bind, Except.bind, pending, earlier, ne_eq, not_true_eq_false, if_false]

theorem exitPhase_ok {phaseId : String} : run.exitPhase now phaseId = .ok next ↔
    run.status = .inProgress ∧
      (∃ ph, run.phase? phaseId = some ph ∧ ph.status = .inProgress) ∧
        (∀ s ∈ run.stepsIn phaseId, s.status.isTerminal) ∧
          next = run.changePhase phaseId (left now) := by
  constructor
  · intro h
    obtain ⟨_, inProgress, h⟩ := bind_ok h
    obtain ⟨ph, found, h⟩ := bind_ok h
    split at h
    · cases h
    · rename_i isOpen
      split at h
      · cases h
      · rename_i terminal
        exact ⟨requireInProgress_ok.mp inProgress,
          ⟨ph, getPhase_ok.mp found, Decidable.not_not.mp isOpen⟩, by simpa using terminal,
          (Except.ok.inj h).symm⟩
  · rintro ⟨inProgress, ⟨ph, found, isOpen⟩, terminal, rfl⟩
    have none : (run.stepsIn phaseId).find? (fun s => !s.status.isTerminal) = none := by
      simpa using terminal
    rw [exitPhase, requireInProgress_ok.mpr inProgress, getPhase_ok.mpr found]
    simp only [bind, Except.bind, isOpen, none, ne_eq, not_true_eq_false, if_false]

theorem startable_ok {stepId : String} {s : StepRecord} : run.startable stepId = .ok s ↔
    run.status = .inProgress ∧ run.step? stepId = some s ∧ s.status = .pending ∧
      run.activeStep? = none ∧
        ∀ t ∈ run.stepsIn s.phaseId, t.sequence < s.sequence → t.status.isTerminal := by
  constructor
  · intro h
    obtain ⟨_, inProgress, h⟩ := bind_ok h
    obtain ⟨t, found, h⟩ := bind_ok h
    split at h
    · cases h
    · rename_i pending
      split at h
      · cases h
      · rename_i idle
        split at h
        · cases h
        · rename_i earlier
          cases h
          exact ⟨requireInProgress_ok.mp inProgress, getStep_ok.mp found,
            Decidable.not_not.mp pending, idle, by simpa using earlier⟩
  · rintro ⟨inProgress, found, pending, idle, earlier⟩
    have none : ((run.stepsIn s.phaseId).find? fun t =>
        t.sequence < s.sequence && !t.status.isTerminal) = none := by simpa using earlier
    rw [startable, requireInProgress_ok.mpr inProgress, getStep_ok.mpr found]
    simp only [bind, Except.bind, pending, idle, none, ne_eq, not_true_eq_false, if_false]
    rfl

theorem enterPhaseOf_ok {s : StepRecord} {stepId : String} :
    run.enterPhaseOf now s stepId = .ok next ↔
      ∃ ph, run.phase? s.phaseId = some ph ∧
        (ph.status = .inProgress ∧ next = run ∨
          ph.status = .pending ∧ run.enterPhase now s.phaseId = .ok next) := by
  unfold enterPhaseOf
  cases found : run.phase? s.phaseId with
  | none => simp
  | some ph => cases status : ph.status <;> simp [status, refuseStart, eq_comm]

theorem startStep_ok {stepId : String} : run.startStep env stepId = .ok next ↔
    ∃ s ready, run.startable stepId = .ok s ∧
      run.enterPhaseOf (env.clock 0) s stepId = .ok ready ∧
        next = ready.changeStep stepId (begun (env.clock 1)) := by
  constructor
  · intro h
    obtain ⟨s, startable, h⟩ := bind_ok h
    obtain ⟨ready, enter, h⟩ := bind_ok h
    exact ⟨s, ready, startable, enter, (Except.ok.inj h).symm⟩
  · rintro ⟨s, ready, startable, enter, rfl⟩
    simp only [startStep, startable, enter, bind, Except.bind]
    rfl

theorem finishable_ok {stepId : String} {s : StepRecord} : run.finishable stepId = .ok s ↔
    run.status = .inProgress ∧ run.step? stepId = some s ∧ s.status = .inProgress := by
  constructor
  · intro h
    obtain ⟨_, inProgress, h⟩ := bind_ok h
    obtain ⟨t, found, h⟩ := bind_ok h
    split at h
    · cases h
    · rename_i active
      cases h
      exact ⟨requireInProgress_ok.mp inProgress, getStep_ok.mp found, Decidable.not_not.mp active⟩
  · rintro ⟨inProgress, found, active⟩
    rw [finishable, requireInProgress_ok.mpr inProgress, getStep_ok.mpr found]
    simp only [bind, Except.bind, active, ne_eq, not_true_eq_false, if_false]
    rfl

/-- Finishing a step is refused, or finishes the step; if that was the last one of its phase,
    it tries to leave the phase. -/
theorem finishStep_cases (run : TestRun) (env : Surroundings) (stepId : String)
    (outcome : StepOutcome) (observations : Option String) :
    (∃ e, run.finishable stepId = .error e ∧
        run.finishStep env stepId outcome observations = (.error e, run)) ∨
      ∃ s mid, run.finishable stepId = .ok s ∧
        mid = run.changeStep stepId (finished (env.clock 0) outcome observations) ∧
          ((∀ t ∈ mid.stepsIn s.phaseId, t.status.isTerminal) ∧
              run.finishStep env stepId outcome observations =
                settle mid (mid.exitPhase (env.clock 1) s.phaseId) ∨
            (∃ t ∈ mid.stepsIn s.phaseId, ¬ t.status.isTerminal) ∧
              run.finishStep env stepId outcome observations = (.ok (), mid)) := by
  unfold finishStep
  cases ready : run.finishable stepId with
  | error e => exact .inl ⟨e, rfl, rfl⟩
  | ok s =>
      refine .inr ⟨s, _, rfl, rfl, ?_⟩
      dsimp only
      split
      · rename_i terminal
        exact .inl ⟨by simpa using terminal, rfl⟩
      · rename_i unfinished
        exact .inr ⟨by simpa using unfinished, rfl⟩

theorem record_ok {m : NewMeasurement} {kept : Measurement} :
    run.record env p m = .ok (kept, next) ↔
      run.BoundTo p ∧ run.status = .inProgress ∧ requireRecordable m = .ok () ∧
        ∃ step, run.stepFor m = .ok step ∧
          (kept, next) = recorded env p (entryOf env run step m) run := by
  constructor
  · intro h
    obtain ⟨_, bound, h⟩ := bind_ok h
    obtain ⟨_, inProgress, h⟩ := bind_ok h
    obtain ⟨_, recordable, h⟩ := bind_ok h
    obtain ⟨step, tagged, h⟩ := bind_ok h
    exact ⟨requireProtocol_ok.mp bound, requireInProgress_ok.mp inProgress, recordable, step,
      tagged, (Except.ok.inj h).symm⟩
  · rintro ⟨bound, inProgress, recordable, step, tagged, same⟩
    rw [record, requireProtocol_ok.mpr bound, requireInProgress_ok.mpr inProgress, recordable,
      tagged, same]
    rfl

theorem flag_ok {measurementId : String} {flag : QualityFlag} {notes : Option String}
    {kept : Measurement} : run.flag measurementId flag notes = .ok (kept, next) ↔
      (∃ m, run.ledger.get? measurementId = some m ∧ kept = Ledger.reflag flag notes m) ∧
        next = { run with ledger := run.ledger.setFlag measurementId flag notes } := by
  unfold TestRun.flag
  cases run.ledger.get? measurementId with
  | none => simp
  | some m => simp [eq_comm]

end Qualification.TestRun
