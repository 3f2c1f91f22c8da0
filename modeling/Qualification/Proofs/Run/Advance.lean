import Qualification.Proofs.Protocol.Layout
import Qualification.Proofs.Run.Change

/-! # Runs only move forward

Every operation leaves the identity of a run alone and moves each status along its edges,
if it moves it at all. This holds of any run, also of one that no protocol describes.

A run that has ended can only be reviewed: flags and notes of its measurements, its
verdicts and, if it was completed, its result are all that still changes.
-/

namespace Qualification

open Relation

/-- The ways of a run. -/
inductive RunStatus.Edge : RunStatus → RunStatus → Prop where
  | start : Edge .pending .inProgress
  | complete : Edge .inProgress .completed
  | fail : Edge .inProgress .failed
  | abort : Edge .inProgress .aborted

/-- The ways of a phase. -/
inductive PhaseStatus.Edge : PhaseStatus → PhaseStatus → Prop where
  | enter : Edge .pending .inProgress
  | leave : Edge .inProgress .completed
  /-- The run ends while it is open. -/
  | close : Edge .inProgress .failed

/-- The ways of a step. -/
inductive StepStatus.Edge : StepStatus → StepStatus → Prop where
  | start : Edge .pending .inProgress
  | complete : Edge .inProgress .completed
  | fail : Edge .inProgress .failed
  | skip : Edge .inProgress .skipped

theorem StepOutcome.edge (outcome : StepOutcome) :
    StepStatus.Edge .inProgress outcome.status := by
  cases outcome with
  | passed | completed => exact .complete
  | failed => exact .fail
  | skipped => exact .skip

/-- A phase further on its way. -/
structure PhaseRecord.Advances (before after : PhaseRecord) : Prop where
  phaseId : after.phaseId = before.phaseId
  status : ReflTransGen PhaseStatus.Edge before.status after.status

/-- A step further on its way. -/
structure StepRecord.Advances (before after : StepRecord) : Prop where
  stepId : after.stepId = before.stepId
  phaseId : after.phaseId = before.phaseId
  sequence : after.sequence = before.sequence
  action : after.action = before.action
  status : ReflTransGen StepStatus.Edge before.status after.status

/-- A run further on its way: still itself, and no status has gone back. -/
structure TestRun.Advances (before after : TestRun) : Prop where
  id : after.id = before.id
  protocolId : after.protocolId = before.protocolId
  protocolVersion : after.protocolVersion = before.protocolVersion
  specimenId : after.specimenId = before.specimenId
  operator : after.operator = before.operator
  parameters : after.parameters = before.parameters
  createdAt : after.createdAt = before.createdAt
  status : ReflTransGen RunStatus.Edge before.status after.status
  phases : List.Forall₂ PhaseRecord.Advances before.phases after.phases
  steps : List.Forall₂ StepRecord.Advances before.steps after.steps

/-- A measurement of which a review may have changed the flag and the notes. -/
def Measurement.Reviewed (before after : Measurement) : Prop :=
  after = { before with flag := after.flag, notes := after.notes }

/-- A run that is the same but for what a review may change. -/
structure TestRun.Reviewed (before after : TestRun) : Prop where
  same : after = { before with
    ledger := after.ledger, acceptance := after.acceptance, result := after.result }
  entries : List.Forall₂ Measurement.Reviewed before.ledger.entries after.ledger.entries
  result : before.status ≠ .completed → after.result = before.result

theorem PhaseRecord.Advances.refl (ph : PhaseRecord) : ph.Advances ph :=
  ⟨rfl, .refl⟩

theorem PhaseRecord.Advances.trans {a b c : PhaseRecord} (h : a.Advances b)
    (k : b.Advances c) : a.Advances c :=
  ⟨k.phaseId.trans h.phaseId, h.status.trans k.status⟩

theorem StepRecord.Advances.refl (s : StepRecord) : s.Advances s :=
  ⟨rfl, rfl, rfl, rfl, .refl⟩

theorem StepRecord.Advances.trans {a b c : StepRecord} (h : a.Advances b)
    (k : b.Advances c) : a.Advances c :=
  ⟨k.stepId.trans h.stepId, k.phaseId.trans h.phaseId, k.sequence.trans h.sequence,
    k.action.trans h.action, h.status.trans k.status⟩

namespace Measurement

variable {m mid after : Measurement}

theorem Reviewed.parameter_eq (h : m.Reviewed after) : after.parameter = m.parameter := by
  rw [h]

theorem Reviewed.value_eq (h : m.Reviewed after) : after.value = m.value := by
  rw [h]

theorem Reviewed.symm (h : m.Reviewed after) : after.Reviewed m := by
  rw [Reviewed, h]

theorem Reviewed.trans (h : m.Reviewed mid) (k : mid.Reviewed after) : m.Reviewed after := by
  rw [Reviewed, k, h]

end Measurement

theorem forall₂_trans {α : Type} {R : α → α → Prop} (trans : ∀ a b c, R a b → R b c → R a c)
    {as bs cs : List α} (h : List.Forall₂ R as bs) (k : List.Forall₂ R bs cs) :
    List.Forall₂ R as cs := by
  induction h generalizing cs with
  | nil => exact k
  | cons first _ ih =>
      cases k with
      | cons second rest => exact .cons (trans _ _ _ first second) (ih rest)

namespace TestRun

variable {run next last : TestRun} {now : Instant}

theorem Advances.refl (run : TestRun) : run.Advances run :=
  ⟨rfl, rfl, rfl, rfl, rfl, rfl, rfl, .refl,
    List.forall₂_same.mpr fun ph _ => PhaseRecord.Advances.refl ph,
    List.forall₂_same.mpr fun s _ => StepRecord.Advances.refl s⟩

theorem Advances.trans (h : run.Advances next) (k : next.Advances last) :
    run.Advances last := by
  refine ⟨k.id.trans h.id, k.protocolId.trans h.protocolId,
    k.protocolVersion.trans h.protocolVersion, k.specimenId.trans h.specimenId,
    k.operator.trans h.operator, k.parameters.trans h.parameters,
    k.createdAt.trans h.createdAt, h.status.trans k.status, ?_, ?_⟩
  · exact forall₂_trans (fun _ _ _ first second => first.trans second) h.phases k.phases
  · exact forall₂_trans (fun _ _ _ first second => first.trans second) h.steps k.steps

theorem closeOpenPhase_advances (now : Instant) (ph : PhaseRecord) :
    ph.Advances (closeOpenPhase now ph) := by
  unfold closeOpenPhase
  split
  · rename_i isOpen
    exact ⟨rfl, isOpen ▸ .single .close⟩
  · exact .refl ph

theorem closeOpenStep_advances (now : Instant) (s : StepRecord) :
    s.Advances (closeOpenStep now s) := by
  unfold closeOpenStep
  split
  · rename_i active
    exact ⟨rfl, rfl, rfl, rfl, active ▸ .single .fail⟩
  · exact .refl s

theorem changePhase_advances {phaseId : String} {change : PhaseRecord → PhaseRecord}
    (found : ∀ ph, run.phase? phaseId = some ph → ph.Advances (change ph)) :
    run.Advances (run.changePhase phaseId change) :=
  { Advances.refl run with phases := Keyed.forall₂_changeFirst PhaseRecord.Advances.refl found }

theorem changeStep_advances {stepId : String} {change : StepRecord → StepRecord}
    (found : ∀ s, run.step? stepId = some s → s.Advances (change s)) :
    run.Advances (run.changeStep stepId change) :=
  { Advances.refl run with steps := Keyed.forall₂_changeFirst StepRecord.Advances.refl found }

theorem exitPhase_advances {phaseId : String} (h : run.exitPhase now phaseId = .ok next) :
    run.Advances next := by
  obtain ⟨_, ⟨ph, found, isOpen⟩, _, rfl⟩ := exitPhase_ok.mp h
  refine changePhase_advances fun other same => ?_
  cases found.symm.trans same
  exact ⟨rfl, isOpen ▸ .single .leave⟩

theorem finishStep_advances (run : TestRun) (env : Surroundings) (stepId : String)
    (outcome : StepOutcome) (observations : Option String) :
    run.Advances (run.finishStep env stepId outcome observations).2 := by
  obtain ⟨e, _, same⟩ | ⟨s, mid, finishable, changed, leaving⟩ :=
    finishStep_cases run env stepId outcome observations
  · rw [same]
    exact .refl run
  · obtain ⟨_, found, active⟩ := finishable_ok.mp finishable
    have first : run.Advances mid := by
      rw [changed]
      refine changeStep_advances fun other same => ?_
      cases found.symm.trans same
      exact ⟨rfl, rfl, rfl, rfl, active ▸ .single outcome.edge⟩
    rcases leaving with ⟨_, same⟩ | ⟨_, same⟩
    · rw [same]
      cases left : mid.exitPhase (env.clock 1) s.phaseId with
      | error e => exact first
      | ok next => exact first.trans (exitPhase_advances left)
    · rw [same]
      exact first

theorem Change.advances (h : Change run next) : run.Advances next := by
  cases h with
  | started now pending =>
      exact { Advances.refl run with status := pending ▸ .single .start }
  | terminated now status reason inProgress ended =>
      refine { Advances.refl run with
        status := ?_
        phases := List.forall₂_map_right_iff.mpr ?_
        steps := List.forall₂_map_right_iff.mpr ?_ }
      · rw [inProgress]
        rcases ended with rfl | rfl
        · exact .single .fail
        · exact .single .abort
      · exact List.forall₂_same.mpr fun ph _ => closeOpenPhase_advances now ph
      · exact List.forall₂_same.mpr fun s _ => closeOpenStep_advances now s
  | completed now p inProgress closed =>
      exact { Advances.refl run with status := inProgress ▸ .single .complete }
  | judged p => exact { Advances.refl run with }
  | graded p completed => exact { Advances.refl run with }
  | entered now ph inProgress found pending earlier =>
      refine changePhase_advances fun other same => ?_
      cases found.symm.trans same
      exact ⟨rfl, pending ▸ .single .enter⟩
  | left now ph inProgress found isOpen terminal =>
      exact exitPhase_advances (exitPhase_ok.mpr ⟨inProgress, ⟨ph, found, isOpen⟩, terminal, rfl⟩)
  | begun now s ph startable found isOpen =>
      obtain ⟨_, found, pending, _⟩ := startable_ok.mp startable
      refine changeStep_advances fun other same => ?_
      cases found.symm.trans same
      exact ⟨rfl, rfl, rfl, rfl, pending ▸ .single .start⟩
  | finished env stepId outcome observations =>
      exact finishStep_advances run env stepId outcome observations
  | measured m inProgress => exact { Advances.refl run with }
  | flagged id flag notes => exact { Advances.refl run with }

theorem Changes.advances (h : Changes run next) : run.Advances next := by
  induction h with
  | refl => exact .refl run
  | tail _ change ih => exact ih.trans change.advances

theorem Reviewed.refl (run : TestRun) : run.Reviewed run :=
  ⟨rfl, List.forall₂_same.mpr fun _ _ => rfl, fun _ => rfl⟩

theorem Reviewed.status (h : run.Reviewed next) : next.status = run.status := by
  rw [h.same]

theorem Reviewed.trans (h : run.Reviewed next) (k : next.Reviewed last) :
    run.Reviewed last := by
  refine ⟨?_, ?_, fun notCompleted => ?_⟩
  · rw [k.same, h.same]
  · exact forall₂_trans (R := Measurement.Reviewed) (fun _ _ _ => .trans) h.entries k.entries
  · exact (k.result (h.status ▸ notCompleted)).trans (h.result notCompleted)

theorem Change.reviewed (ended : run.isTerminal) (h : Change run next) : run.Reviewed next := by
  have notPending : run.status ≠ .pending := fun status => by
    simp [isTerminal, status] at ended
  have notInProgress : run.status ≠ .inProgress := fun status => by
    simp [isTerminal, status] at ended
  cases h with
  | started now pending => exact absurd pending notPending
  | terminated now status reason inProgress => exact absurd inProgress notInProgress
  | completed now p inProgress => exact absurd inProgress notInProgress
  | entered now ph inProgress => exact absurd inProgress notInProgress
  | left now ph inProgress => exact absurd inProgress notInProgress
  | begun now s ph startable => exact absurd (startable_ok.mp startable).1 notInProgress
  | finished env stepId outcome observations =>
      obtain ⟨e, _, same⟩ | ⟨s, mid, finishable, _⟩ :=
        finishStep_cases run env stepId outcome observations
      · rw [same]
        exact .refl run
      · exact absurd (finishable_ok.mp finishable).1 notInProgress
  | measured m inProgress => exact absurd inProgress notInProgress
  | judged p => exact { Reviewed.refl run with same := rfl }
  | graded p completed =>
      exact { Reviewed.refl run with
        same := rfl, result := fun notCompleted => absurd completed notCompleted }
  | flagged id flag notes =>
      refine { Reviewed.refl run with same := rfl, entries := ?_ }
      apply Keyed.forall₂_changeFirst
      · exact fun m => (rfl : m = { m with flag := m.flag, notes := m.notes })
      · exact fun m _ => (rfl : Ledger.reflag flag notes m = { m with flag, notes := _ })

theorem Changes.reviewed (ended : run.isTerminal) (h : Changes run next) :
    run.Reviewed next := by
  induction h with
  | refl => exact .refl run
  | tail _ change ih =>
      refine ih.trans (change.reviewed ?_)
      rwa [isTerminal, ih.status]

/-- Calls one after the other make a row of strokes. -/
theorem after_changes (run : TestRun) (calls : List Call) : Changes run (run.after calls) := by
  induction calls generalizing run with
  | nil => exact .refl
  | cons c rest ih => exact (call_changes run c).trans (ih _)

/-- Every operation moves a run forward, and once the run has ended, operations can only
    review it. -/
theorem call_advances (run : TestRun) :
    (∀ c, run.Advances (run.call c).2) ∧
      (run.isTerminal → ∀ calls, run.Reviewed (run.after calls)) :=
  ⟨fun c => (call_changes run c).advances,
    fun ended calls => (after_changes run calls).reviewed ended⟩

/-- An illustration: a run of the two phases, just created. -/
def ofTwoPhases : TestRun where
  id := "run-1"
  protocolId := "UV-15"
  protocolVersion := "1.0.0"
  specimenId := "cell-7"
  operator := "night shift"
  parameters := []
  status := .pending
  result := .notEvaluated
  reason := none
  createdAt := default
  startedAt := none
  completedAt := none
  phases := ProtocolDefinition.twoPhases.phases.map pendingPhase
  steps := pendingSteps ProtocolDefinition.twoPhases.phases
  ledger := .empty
  acceptance := []

theorem ofTwoPhases_created :
    create "run-1" default .twoPhases "cell-7" "night shift" [] = .ok ofTwoPhases := rfl

/-- A call of an illustration, at a time that stands still. -/
def still (operation : Operation) : Call :=
  ⟨⟨fun _ => default, fun _ => "reading-1"⟩, .twoPhases, operation⟩

/-- An illustration: the run is aborted during its first step. -/
def abortedInStep : TestRun :=
  ofTwoPhases.after [still .start, still (.startStep "inspect"), still (.abort "power lost")]

theorem abortedInStep_reviewed :
    abortedInStep.isTerminal ∧ ∀ calls, abortedInStep.Reviewed (abortedInStep.after calls) := by
  have ended : abortedInStep.isTerminal := by cbv
  exact ⟨ended, (call_advances abortedInStep).2 ended⟩

end TestRun
end Qualification
