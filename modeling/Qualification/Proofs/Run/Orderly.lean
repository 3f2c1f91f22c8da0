import Qualification.Proofs.Run.Coherence

/-! # The order along a run

What coherence means for the records as they are listed: along the phases and along the
steps the statuses come in stages, and the levels of status are consistent with each other.
-/

namespace Qualification

/-- Is the row over up to some place, with at most one active after it and the rest pending? -/
def Staged {σ : Type} (terminal : σ → Bool) (active pending : σ) (row : List σ) : Prop :=
  ∃ done doing waiting, row = done ++ doing ++ waiting ∧ (∀ s ∈ done, terminal s) ∧
    (doing = [] ∨ doing = [active]) ∧ ∀ s ∈ waiting, s = pending

section Staged

variable {σ : Type} {terminal : σ → Bool} {active pending s : σ} {row : List σ}

theorem Staged.cons_over (isOver : terminal s) (h : Staged terminal active pending row) :
    Staged terminal active pending (s :: row) := by
  obtain ⟨done, doing, waiting, rfl, allOver, atMostOne, allPending⟩ := h
  refine ⟨s :: done, doing, waiting, rfl, ?_, atMostOne, allPending⟩
  exact List.forall_mem_cons.mpr ⟨isOver, allOver⟩

theorem Staged.cons_active (allPending : ∀ t ∈ row, t = pending) :
    Staged terminal active pending (active :: row) :=
  ⟨[], [active], row, rfl, by simp, .inr rfl, allPending⟩

theorem Staged.of_pending (allPending : ∀ t ∈ row, t = pending) :
    Staged terminal active pending row :=
  ⟨[], [], row, rfl, by simp, .inl rfl, allPending⟩

/-- A row is staged if what is before a record that is not pending is over. -/
theorem Staged.of_pairwise (stages : ∀ s, terminal s ∨ s = active ∨ s = pending)
    (h : row.Pairwise fun s t => terminal s ∨ t = pending) :
    Staged terminal active pending row := by
  induction row with
  | nil => exact .of_pending (by simp)
  | cons s rest ih =>
      obtain ⟨first, others⟩ := List.pairwise_cons.mp h
      by_cases isOver : terminal s
      · exact .cons_over isOver (ih others)
      · have allPending : ∀ t ∈ rest, t = pending := fun t member =>
          (first t member).resolve_left isOver
        obtain rfl | rfl := (stages s).resolve_left isOver
        · exact .cons_active allPending
        · exact .of_pending (List.forall_mem_cons.mpr ⟨rfl, allPending⟩)

end Staged

namespace TestRun

/-- The order along a run, and what the statuses of its three levels say of each other. -/
structure Orderly (run : TestRun) : Prop where
  steps : Staged StepStatus.isTerminal .inProgress .pending (run.steps.map (·.status))
  phases : Staged PhaseStatus.isClosed .inProgress .pending (run.phases.map (·.status))
  activeStep : ∀ s ∈ run.steps, s.status = .inProgress →
    ∃ ph, run.phase? s.phaseId = some ph ∧ ph.status = .inProgress
  pendingPhase : ∀ ph ∈ run.phases, ph.status = .pending →
    ∀ s ∈ run.stepsIn ph.phaseId, s.status = .pending
  completedPhase : ∀ ph ∈ run.phases, ph.status = .completed →
    ∀ s ∈ run.stepsIn ph.phaseId, s.status.isTerminal
  openPhase : ∀ ph ∈ run.phases, ph.status = .inProgress →
    ∃ s ∈ run.stepsIn ph.phaseId, ¬ s.status.isTerminal
  failedPhase : ∀ ph ∈ run.phases, ph.status = .failed →
    run.status = .failed ∨ run.status = .aborted
  pendingRun : run.status = .pending →
    (∀ ph ∈ run.phases, ph.status = .pending) ∧ (∀ s ∈ run.steps, s.status = .pending) ∧
      run.ledger.entries = []
  endedRun : run.status.isTerminal →
    (∀ ph ∈ run.phases, ph.status ≠ .inProgress) ∧ ∀ s ∈ run.steps, s.status ≠ .inProgress
  completedRun : run.status = .completed →
    (∀ ph ∈ run.phases, ph.status = .completed) ∧ ∀ s ∈ run.steps, s.status.isTerminal

variable {run : TestRun} {p : ProtocolDefinition}

theorem Agreeing.steps_staged (h : run.Agreeing) :
    Staged StepStatus.isTerminal .inProgress .pending (run.steps.map (·.status)) := by
  refine .of_pairwise (fun s => by cases s <;> simp) ?_
  refine List.pairwise_map.mpr ((List.pairwise_map.mp h.wellFormed.ordered).imp_of_mem ?_)
  exact fun first second before => h.stepOrder _ first _ second before

theorem Agreeing.phases_staged (h : run.Agreeing) :
    Staged PhaseStatus.isClosed .inProgress .pending (run.phases.map (·.status)) := by
  refine .of_pairwise (fun ph => by cases ph <;> simp) ?_
  have earlier := List.pairwise_map.mp (idxOf_ordered h.wellFormed.phaseIds)
  refine List.pairwise_map.mpr (earlier.imp_of_mem ?_)
  exact fun first second before => h.phaseOrder _ first _ second before

/-- Every step has a phase that admits its status. -/
theorem Agreeing.admitted (h : run.Agreeing) {s : StepRecord} (member : s ∈ run.steps) :
    ∃ ph ∈ run.phases, ph.status.Admits s.status := by
  obtain ⟨ph, phase, owner⟩ := exists_phase h.wellFormed member
  exact ⟨ph, phase, h.phaseAdmits ph phase s member owner.symm⟩

theorem Coherent.orderly (h : run.Coherent) : run.Orderly where
  steps := h.steps_staged
  phases := h.phases_staged
  activeStep s member active := by
    obtain ⟨ph, phase, owner⟩ := exists_phase h.wellFormed member
    refine ⟨ph, ?_, h.open_of_active member active phase owner.symm⟩
    rw [← owner]
    exact phase?_of_mem h.wellFormed phase
  pendingPhase ph phase pending s owned := by
    obtain ⟨member, owner⟩ := mem_stepsIn.mp owned
    have admits := h.phaseAdmits ph phase s member owner
    rwa [pending] at admits
  completedPhase ph phase completed s owned := by
    obtain ⟨member, owner⟩ := mem_stepsIn.mp owned
    have admits := h.phaseAdmits ph phase s member owner
    rwa [completed] at admits
  openPhase ph phase isOpen := by
    obtain ⟨s, member, owner, unfinished⟩ := h.busy ph phase isOpen
    exact ⟨s, mem_stepsIn.mpr ⟨member, owner⟩, unfinished⟩
  failedPhase ph phase failed := by
    have admits := h.runAdmits ph phase
    cases status : run.status with
    | failed => exact .inl rfl
    | aborted => exact .inr rfl
    | pending | inProgress | completed => simp [status, failed] at admits
  pendingRun pending := by
    have phases : ∀ ph ∈ run.phases, ph.status = .pending := by
      have admits := h.runAdmits
      rwa [pending] at admits
    refine ⟨phases, fun s member => ?_, h.unrecorded pending⟩
    obtain ⟨ph, phase, admits⟩ := h.admitted member
    rwa [phases ph phase] at admits
  endedRun ended := by
    have phases : ∀ ph ∈ run.phases, ph.status ≠ .inProgress := by
      intro ph phase isOpen
      have admits := h.runAdmits ph phase
      rw [isOpen] at admits
      cases status : run.status <;> simp [status]
        at admits ended
    refine ⟨phases, fun s member active => ?_⟩
    obtain ⟨ph, phase, admits⟩ := h.admitted member
    have notOpen := phases ph phase
    rw [active] at admits
    cases status : ph.status <;>
      simp [status] at admits notOpen
  completedRun completed := by
    have phases : ∀ ph ∈ run.phases, ph.status = .completed := by
      have admits := h.runAdmits
      rwa [completed] at admits
    refine ⟨phases, fun s member => ?_⟩
    obtain ⟨ph, phase, admits⟩ := h.admitted member
    rwa [phases ph phase] at admits

/-- Whatever operations are done on a run made from a valid protocol, accepted or refused,
    the run is orderly. -/
theorem after_orderly (valid : Validation.check p = .ok ())
    {id specimen operator : String} {now : Instant} {overrides : Dictionary Json}
    (created : create id now p specimen operator overrides = .ok run) (calls : List Call) :
    (run.after calls).Orderly :=
  (((Reachable.created created).after calls).coherent valid).orderly

theorem ofTwoPhases_orderly :
    Validation.check .twoPhases = .ok () ∧
      create "run-1" default .twoPhases "cell-7" "night shift" [] = .ok ofTwoPhases ∧
        (ofTwoPhases.after [still .start, still (.startStep "mount"),
          still (.startStep "inspect"), still (.finishStep "inspect" .passed none)]).Orderly :=
  ⟨twoPhases_valid, ofTwoPhases_created, after_orderly twoPhases_valid ofTwoPhases_created _⟩

end TestRun
end Qualification
