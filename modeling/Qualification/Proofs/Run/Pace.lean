import Mathlib.Algebra.BigOperators.Group.List.Basic
import Qualification.Proofs.Run.Schedule

/-! # The pace of a run

Every step has two stages before it, being started and being finished. An accepted step
transition takes one step one stage further and leaves the run in progress, so that a run
driven by step transitions alone has as many behind it as its steps have stages.
-/

namespace Qualification

/-- The stages that a step has behind it. -/
def StepStatus.stage : StepStatus → Nat
  | .pending => 0
  | .inProgress => 1
  | .completed | .failed | .skipped => 2

theorem StepStatus.stage_le (s : StepStatus) : s.stage ≤ 2 := by
  cases s <;> simp [stage]

theorem StepStatus.stage_eq_two {s : StepStatus} : s.stage = 2 ↔ s.isTerminal := by
  cases s <;> simp [stage, isTerminal]

theorem StepOutcome.stage (outcome : StepOutcome) : outcome.status.stage = 2 :=
  StepStatus.stage_eq_two.mpr (TestRun.outcome_terminal outcome)

/-- The operation that a step transition asks for. -/
def Due.operation : Due → Operation
  | start stepId => .startStep stepId
  | finish stepId => .finishStep stepId .completed none

theorem Due.admits_operation (due : Due) : due.Admits due.operation := by
  cases due with
  | start stepId => rfl
  | finish stepId => exact ⟨.completed, none, rfl⟩

theorem Due.operation_movesStep (due : Due) : due.operation.movesStep := by
  cases due <;> rfl

/-- A call that does what is due, wherever and whenever that may be. -/
def Due.call (p : ProtocolDefinition) (due : Due) : Call :=
  ⟨⟨fun _ => default, fun _ => ""⟩, p, due.operation⟩

namespace TestRun

/-- A run and step transitions done on it: as many are accepted as its steps have stages, if
    it is driven far enough, and then it can be completed. -/
structure Paced (p : ProtocolDefinition) (run : TestRun) (calls : List Call) : Prop where
  bounded : run.acceptedIn calls ≤ 2 * p.stepCount
  completes : ∀ env, accepted ((run.after calls).call ⟨env, p, .complete⟩) ↔
    run.acceptedIn calls = 2 * p.stepCount
  continues : ∃ more : List Call, (∀ c ∈ more, c.operation.movesStep) ∧
    run.acceptedIn (calls ++ more) = 2 * p.stepCount

/-- The stages that the steps of a run have behind them. -/
def progress (run : TestRun) : Nat :=
  (run.steps.map fun s => s.status.stage).sum

variable {run next : TestRun} {env : Surroundings} {p : ProtocolDefinition} {stepId : String}

theorem stages_full (steps : List StepRecord) :
    (steps.map fun s => s.status.stage).sum ≤ 2 * steps.length ∧
      ((steps.map fun s => s.status.stage).sum = 2 * steps.length ↔
        ∀ s ∈ steps, s.status.isTerminal) := by
  induction steps with
  | nil => simp
  | cons s rest ih =>
      obtain ⟨atMost, full⟩ := ih
      have first := s.status.stage_le
      rw [List.forall_mem_cons, ← full, ← StepStatus.stage_eq_two]
      simp only [List.map_cons, List.sum_cons, List.length_cons]
      omega

theorem changeStep_progress {s : StepRecord} {change : StepRecord → StepRecord}
    (found : run.step? stepId = some s)
    (further : (change s).status.stage = s.status.stage + 1) :
    (run.changeStep stepId change).progress = run.progress + 1 := by
  have sum := Keyed.sum_changeFirst change (fun s => s.status.stage) found
  simp only [progress, changeStep]
  omega

theorem startStep_progress (h : run.startStep env stepId = .ok next) :
    next.progress = run.progress + 1 ∧ next.status = run.status := by
  obtain ⟨s, ready, startable, enter, rfl⟩ := startStep_ok.mp h
  obtain ⟨_, steps, status, _⟩ := enterPhaseOf_spec enter
  obtain ⟨_, found, pending, _⟩ :=
    startable_ok.mp (startable_of_same_steps steps status startable)
  have further : (begun (env.clock 1) s).status.stage = s.status.stage + 1 := by
    rw [pending]
    rfl
  refine ⟨?_, status⟩
  rw [changeStep_progress found further, progress, steps]
  rfl

theorem Coherent.finishStep_progress (h : run.Coherent) {s : StepRecord}
    (finishable : run.finishable stepId = .ok s) (outcome : StepOutcome)
    (observations : Option String) :
    (run.finishStep env stepId outcome observations).2.progress = run.progress + 1 ∧
      (run.finishStep env stepId outcome observations).2.status = run.status := by
  obtain ⟨next, same, _, status, steps⟩ := h.finishStep_ok finishable env outcome observations
  obtain ⟨_, found, active⟩ := finishable_ok.mp finishable
  have further : (finished (env.clock 0) outcome observations s).status.stage =
      s.status.stage + 1 := by
    rw [active]
    exact outcome.stage
  rw [same]
  refine ⟨?_, status⟩
  rw [← changeStep_progress found further, progress, steps]
  rfl

/-- A step transition takes the run one stage further if it is accepted, and leaves it where
    it is if not. -/
theorem Coherent.call_progress (h : run.Coherent) {c : Call} (moves : c.operation.movesStep) :
    (run.call c).2.progress = run.progress + (accepted (run.call c)).toNat ∧
      (run.call c).2.status = run.status := by
  cases outcome : accepted (run.call c) with
  | false =>
      obtain ⟨e, refused⟩ := not_accepted.mp outcome
      rw [h.call_unchanged c refused]
      exact ⟨rfl, rfl⟩
  | true =>
      obtain ⟨env, p, op⟩ := c
      cases op with
      | startStep stepId =>
          obtain ⟨next, start⟩ := answeringWith_accepted.mp outcome
          rw [call, apply, start]
          exact startStep_progress start
      | finishStep stepId result observations =>
          rw [call, apply, answeringAs_accepted] at outcome
          obtain ⟨s, finishable⟩ := h.finishStep_accepted.mp outcome
          rw [call, apply, answeringAs_snd]
          exact h.finishStep_progress finishable result observations
      | _ => cases moves

/-- A run driven by step transitions has as many stages behind it as were accepted. -/
theorem Coherent.after_progress (h : run.Coherent) {calls : List Call}
    (moves : ∀ c ∈ calls, c.operation.movesStep) :
    (run.after calls).progress = run.progress + run.acceptedIn calls ∧
      (run.after calls).status = run.status := by
  induction calls generalizing run with
  | nil => exact ⟨rfl, rfl⟩
  | cons c rest ih =>
      obtain ⟨first, others⟩ := List.forall_mem_cons.mp moves
      obtain ⟨progress, status⟩ := h.call_progress first
      obtain ⟨further, same⟩ := ih ((call_changes run c).coherent h) others
      refine ⟨?_, same.trans status⟩
      rw [TestRun.after, further, progress, acceptedIn, Nat.add_assoc]

/-- A run in progress can be driven to the last stage of its steps. -/
theorem Coherent.exists_rest (h : run.Coherent) (inProgress : run.status = .inProgress)
    (p : ProtocolDefinition) {left : Nat}
    (remaining : run.progress + left = 2 * run.steps.length) :
    ∃ calls : List Call, (∀ c ∈ calls, c.operation.movesStep) ∧
      run.acceptedIn calls = left := by
  induction left generalizing run with
  | zero => exact ⟨[], by simp, rfl⟩
  | succ left ih =>
      cases next : run.due? with
      | none =>
          have full := (stages_full run.steps).2.mpr (due?_eq_none.mp next)
          simp only [progress] at remaining
          omega
      | some due =>
          have changes := call_changes run (due.call p)
          have moves : (due.call p).operation.movesStep := due.operation_movesStep
          have taken : accepted (run.call (due.call p)) :=
            (h.accepted_iff_due inProgress moves).mpr ⟨due, next, due.admits_operation⟩
          obtain ⟨progress, status⟩ := h.call_progress moves
          have fewer : (run.call (due.call p)).2.progress + left =
              2 * (run.call (due.call p)).2.steps.length := by
            rw [progress, taken, ← changes.advances.steps.length_eq, ← remaining,
              Bool.toNat_true]
            omega
          obtain ⟨rest, others, count⟩ :=
            ih (changes.coherent h) (status.trans inProgress) fewer
          refine ⟨due.call p :: rest, List.forall_mem_cons.mpr ⟨moves, others⟩, ?_⟩
          rw [acceptedIn, count, taken]
          exact Nat.add_comm 1 left

theorem acceptedIn_append (calls more : List Call) : run.acceptedIn (calls ++ more) =
    run.acceptedIn calls + (run.after calls).acceptedIn more := by
  induction calls generalizing run with
  | nil => exact (Nat.zero_add _).symm
  | cons c rest ih =>
      rw [List.cons_append, acceptedIn, ih, acceptedIn, Nat.add_assoc]
      rfl

theorem Reachable.steps_length (h : Reachable p run) : run.steps.length = p.stepCount := by
  have slots : run.layout.slots.length = p.layout.slots.length := by rw [h.layout]
  rw [← slots_length, ← slots]
  exact (List.length_map StepRecord.slot).symm

theorem Reachable.paced (valid : Validation.check p = .ok ()) (h : Reachable p run)
    (inProgress : run.status = .inProgress) (fresh : run.progress = 0) {calls : List Call}
    (moves : ∀ c ∈ calls, c.operation.movesStep) : run.Paced p calls := by
  have last : Reachable p (run.after calls) := h.after calls
  have coherent : (run.after calls).Coherent := last.coherent valid
  obtain ⟨progress, status⟩ := (h.coherent valid).after_progress moves
  obtain ⟨atMost, full⟩ := stages_full (run.after calls).steps
  rw [fresh, Nat.zero_add] at progress
  rw [← TestRun.progress, progress, last.steps_length] at atMost full
  have goesOn : (run.after calls).status = .inProgress := status.trans inProgress
  refine ⟨atMost, fun env => ?_, ?_⟩
  · rw [complete_accepted, full, ← coherent.closed_iff_over goesOn]
    exact ⟨fun completed => completed.2.2, fun closed => ⟨last.bound, goesOn, closed⟩⟩
  · have remaining : (run.after calls).progress + (2 * p.stepCount - run.acceptedIn calls) =
        2 * (run.after calls).steps.length := by
      rw [progress, last.steps_length]
      omega
    obtain ⟨more, others, count⟩ := coherent.exists_rest goesOn p remaining
    refine ⟨more, others, ?_⟩
    rw [acceptedIn_append, count]
    omega

theorem Coherent.progress_of_pending (h : run.Coherent) (pending : run.status = .pending) :
    run.progress = 0 := by
  obtain ⟨_, steps, _⟩ := h.orderly.pendingRun pending
  refine List.sum_eq_zero fun stage member => ?_
  obtain ⟨s, step, rfl⟩ := List.mem_map.mp member
  rw [steps s step]
  rfl

/-- The schedule of a run in progress is forced, and a run driven by nothing but step
    transitions takes two of them for each step. -/
theorem schedule_forced (valid : Validation.check p = .ok ()) :
    (∀ run, Reachable p run → run.status = .inProgress → run.Forced p) ∧
      ∀ run, Reachable p run → run.status = .pending →
        ∀ (env : Surroundings) (q : ProtocolDefinition) (calls : List Call),
          (∀ c ∈ calls, c.operation.movesStep) →
            (run.call ⟨env, q, .start⟩).2.Paced p calls := by
  constructor
  · exact fun run reachable inProgress =>
      (reachable.coherent valid).forced reachable.bound inProgress
  · intro run reachable pending env q calls moves
    have started : (run.call ⟨env, q, .start⟩).2 =
        { run with status := .inProgress, startedAt := some (env.clock 0) } := by
      rw [call, apply, start_ok.mpr ⟨pending, rfl⟩]
      rfl
    have inProgress : (run.call ⟨env, q, .start⟩).2.status = .inProgress := by rw [started]
    have fresh : (run.call ⟨env, q, .start⟩).2.progress = 0 := by
      rw [started]
      exact (reachable.coherent valid).progress_of_pending pending
    exact (reachable.called _).paced valid inProgress fresh moves

theorem ofTwoPhases_schedule :
    Validation.check .twoPhases = .ok () ∧
      (ofTwoPhases.call (still .start)).2.status = .inProgress ∧
        (ofTwoPhases.call (still .start)).2.Forced .twoPhases ∧
          (ofTwoPhases.call (still .start)).2.Paced .twoPhases
            [still (.startStep "inspect"), still (.startStep "mount")] := by
  have reachable : Reachable .twoPhases ofTwoPhases := .created ofTwoPhases_created
  have inProgress : (ofTwoPhases.call (still .start)).2.status = .inProgress := by cbv
  have moves : ∀ c ∈ [still (.startStep "inspect"), still (.startStep "mount")],
      c.operation.movesStep := by simp [still, Operation.movesStep]
  exact ⟨twoPhases_valid, inProgress,
    (schedule_forced twoPhases_valid).1 _ (reachable.called _) inProgress,
    (schedule_forced twoPhases_valid).2 ofTwoPhases reachable rfl _ _ _ moves⟩

example : (ofTwoPhases.call (still .start)).2.due? = some (.start "inspect") := by cbv

end TestRun
end Qualification
