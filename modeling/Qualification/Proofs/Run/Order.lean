import Qualification.Proofs.Protocol.Layout
import Qualification.Proofs.Run.Advance

/-! # The order of a run

The phases and steps of a run are laid out as its protocol says, and stay so: operations
change statuses and times, never the layout. In a well-formed layout an identity stands for
one record, and the records before another one are those that the guards look at.
-/

namespace Qualification

/-- The place of a step of a run. -/
def StepRecord.slot (s : StepRecord) : Slot :=
  ⟨s.stepId, s.phaseId, s.sequence⟩

/-- The order of the phases and steps of a run. -/
def TestRun.layout (run : TestRun) : Layout :=
  ⟨run.phases.map (·.phaseId), run.steps.map (·.slot)⟩

theorem StepRecord.Advances.slot {before after : StepRecord} (h : before.Advances after) :
    after.slot = before.slot := by
  rw [StepRecord.slot, h.stepId, h.phaseId, h.sequence]
  rfl

theorem map_eq_of_forall₂ {α β : Type} {R : α → α → Prop} {view : α → β}
    (kept : ∀ a b, R a b → view b = view a) {as bs : List α} (h : List.Forall₂ R as bs) :
    bs.map view = as.map view := by
  induction h with
  | nil => rfl
  | cons first _ ih => rw [List.map_cons, List.map_cons, kept _ _ first, ih]

theorem exists_of_forall₂ {α β : Type} {R : α → β → Prop} {as : List α} {bs : List β}
    (h : List.Forall₂ R as bs) {b : β} (member : b ∈ bs) : ∃ a ∈ as, R a b := by
  induction h with
  | nil => cases member
  | @cons a first as rest related _ ih =>
      rcases List.mem_cons.mp member with rfl | inRest
      · exact ⟨a, List.mem_cons_self, related⟩
      · obtain ⟨c, inAs, related⟩ := ih inRest
        exact ⟨c, List.mem_cons_of_mem a inAs, related⟩

namespace TestRun

variable {run next : TestRun} {p : ProtocolDefinition}

theorem Advances.layout (h : run.Advances next) : next.layout = run.layout := by
  have phases := map_eq_of_forall₂ (fun _ _ ph => PhaseRecord.Advances.phaseId ph) h.phases
  have steps := map_eq_of_forall₂ (fun _ _ s => StepRecord.Advances.slot s) h.steps
  rw [TestRun.layout, TestRun.layout, phases, steps]

theorem changePhase_layout {phaseId : String} {change : PhaseRecord → PhaseRecord}
    (kept : ∀ ph, (change ph).phaseId = ph.phaseId) :
    (run.changePhase phaseId change).layout = run.layout :=
  congrArg (Layout.mk · (run.steps.map StepRecord.slot)) (Keyed.map_changeFirst kept run.phases)

theorem changeStep_layout {stepId : String} {change : StepRecord → StepRecord}
    (kept : ∀ s, (change s).slot = s.slot) :
    (run.changeStep stepId change).layout = run.layout :=
  congrArg (Layout.mk (run.phases.map PhaseRecord.phaseId)) (Keyed.map_changeFirst kept run.steps)

theorem create_layout {id specimen operator : String} {now : Instant}
    {overrides : Dictionary Json} (h : create id now p specimen operator overrides = .ok run) :
    run.layout = p.layout := by
  obtain ⟨_, _, rfl⟩ := map_ok h
  simp only [TestRun.layout, ProtocolDefinition.layout, pendingSteps, List.map_map,
    List.map_flatMap]
  rfl

theorem Reachable.layout (h : Reachable p run) : run.layout = p.layout := by
  induction h with
  | created created => exact create_layout created
  | called c _ ih => exact (call_changes _ c).advances.layout.trans ih

theorem Reachable.after (h : Reachable p run) (calls : List Call) :
    Reachable p (run.after calls) := by
  induction calls generalizing run with
  | nil => exact h
  | cons c rest ih => exact ih (h.called c)

theorem create_bound {id specimen operator : String} {now : Instant}
    {overrides : Dictionary Json} (h : create id now p specimen operator overrides = .ok run) :
    run.BoundTo p := by
  obtain ⟨_, _, rfl⟩ := map_ok h
  exact ⟨rfl, rfl⟩

theorem Changes.bound (h : Changes run next) (bound : run.BoundTo p) : next.BoundTo p :=
  ⟨bound.1.trans h.advances.protocolId.symm, bound.2.trans h.advances.protocolVersion.symm⟩

theorem Reachable.bound (h : Reachable p run) : run.BoundTo p := by
  induction h with
  | created created => exact create_bound created
  | called c _ ih => exact (call_changes _ c).bound ih

theorem mem_stepsIn {phaseId : String} {s : StepRecord} :
    s ∈ run.stepsIn phaseId ↔ s ∈ run.steps ∧ s.phaseId = phaseId := by
  rw [stepsIn, List.mem_filter, beq_iff_eq]

section WellFormed

variable (wellFormed : run.layout.WellFormed)
include wellFormed

theorem stepIds_nodup : (run.steps.map (·.stepId)).Nodup := by
  have slots := wellFormed.stepIds
  rwa [TestRun.layout, List.map_map] at slots

theorem eq_of_phaseId {a b : PhaseRecord} (ha : a ∈ run.phases) (hb : b ∈ run.phases)
    (same : a.phaseId = b.phaseId) : a = b :=
  List.inj_on_of_nodup_map wellFormed.phaseIds ha hb same

theorem eq_of_stepId {s t : StepRecord} (hs : s ∈ run.steps) (ht : t ∈ run.steps)
    (same : s.stepId = t.stepId) : s = t :=
  List.inj_on_of_nodup_map (stepIds_nodup wellFormed) hs ht same

theorem phase?_of_mem {ph : PhaseRecord} (member : ph ∈ run.phases) :
    run.phase? ph.phaseId = some ph :=
  Keyed.find?_of_mem wellFormed.phaseIds member

theorem step?_of_mem {s : StepRecord} (member : s ∈ run.steps) :
    run.step? s.stepId = some s :=
  Keyed.find?_of_mem (stepIds_nodup wellFormed) member

theorem exists_phase {s : StepRecord} (member : s ∈ run.steps) :
    ∃ ph ∈ run.phases, ph.phaseId = s.phaseId :=
  List.mem_map.mp (wellFormed.owned s.slot (List.mem_map_of_mem member))

theorem exists_step {ph : PhaseRecord} (member : ph ∈ run.phases) :
    ∃ s ∈ run.steps, s.phaseId = ph.phaseId := by
  obtain ⟨slot, isSlot, same⟩ := wellFormed.peopled ph.phaseId (List.mem_map_of_mem member)
  obtain ⟨s, step, rfl⟩ := List.mem_map.mp isSlot
  exact ⟨s, step, same⟩

/-- The phases that must be closed before another one is entered are the earlier ones. -/
theorem openBefore?_eq_none {phaseId : String} : run.openBefore? phaseId = none ↔
    ∀ ph ∈ run.phases, run.layout.Earlier ph.phaseId phaseId → ph.status.isClosed := by
  simp only [openBefore?, List.find?_eq_none, Keyed.mem_takeWhile_iff wellFormed.phaseIds]
  simp only [Bool.not_eq_true', Bool.not_eq_false, and_imp]
  rfl

theorem mem_changePhase {ph other : PhaseRecord} {change : PhaseRecord → PhaseRecord}
    (member : ph ∈ run.phases) : other ∈ (run.changePhase ph.phaseId change).phases ↔
      other = change ph ∨ other ∈ run.phases ∧ other.phaseId ≠ ph.phaseId :=
  Keyed.mem_changeFirst wellFormed.phaseIds member

theorem mem_changeStep {s other : StepRecord} {change : StepRecord → StepRecord}
    (member : s ∈ run.steps) : other ∈ (run.changeStep s.stepId change).steps ↔
      other = change s ∨ other ∈ run.steps ∧ other.stepId ≠ s.stepId :=
  Keyed.mem_changeFirst (stepIds_nodup wellFormed) member

end WellFormed

end TestRun
end Qualification
