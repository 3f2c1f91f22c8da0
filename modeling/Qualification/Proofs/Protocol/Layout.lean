import Qualification.Proofs.Protocol.Validity
import Qualification.Run.Creation

/-! # The layout of a protocol

A layout is the order of a test: its phases, and its steps phase by phase in sequence.
The layout of a valid protocol is well-formed. Everything that is later said about the
order of steps rests on this alone, and no longer on the checks themselves.
-/

namespace Qualification

/-- The place of a step in the order of a test. -/
structure Slot where
  stepId : String
  phaseId : String
  sequence : Nat
  deriving DecidableEq

/-- The phases of a test in order, and the places of its steps. -/
structure Layout where
  phases : List String
  slots : List Slot
  deriving DecidableEq

namespace Layout

def Earlier (l : Layout) (a b : String) : Prop :=
  l.phases.idxOf a < l.phases.idxOf b

/-- Is one place before another: in an earlier phase, or earlier in the same one? -/
def Before (l : Layout) (a b : Slot) : Prop :=
  l.Earlier a.phaseId b.phaseId ∨ a.phaseId = b.phaseId ∧ a.sequence < b.sequence

/-- Identities are unique, the steps are written in their order, and phases and steps
    belong to each other. -/
structure WellFormed (l : Layout) : Prop where
  phaseIds : l.phases.Nodup
  stepIds : (l.slots.map (·.stepId)).Nodup
  ordered : l.slots.Pairwise l.Before
  owned : ∀ s ∈ l.slots, s.phaseId ∈ l.phases
  peopled : ∀ id ∈ l.phases, ∃ s ∈ l.slots, s.phaseId = id

theorem Earlier.ne {l : Layout} {a b : String} (h : l.Earlier a b) : a ≠ b := by
  rintro rfl
  exact Nat.lt_irrefl _ h

theorem Earlier.asymm {l : Layout} {a b : String} (h : l.Earlier a b) : ¬ l.Earlier b a :=
  Nat.lt_asymm h

theorem Before.asymm {l : Layout} {a b : Slot} (h : l.Before a b) : ¬ l.Before b a := by
  rintro (back | ⟨same, back⟩)
  · rcases h with forth | ⟨same, _⟩
    · exact forth.asymm back
    · exact back.ne same.symm
  · rcases h with forth | ⟨_, forth⟩
    · exact forth.ne same.symm
    · exact Nat.lt_asymm forth back

/-- Two places of a layout are the same, or one is before the other. -/
theorem WellFormed.trichotomy {l : Layout} (h : l.WellFormed) {a b : Slot}
    (ha : a ∈ l.slots) (hb : b ∈ l.slots) : a = b ∨ l.Before a b ∨ l.Before b a := by
  have forward : l.slots.Pairwise fun a b => a = b ∨ l.Before a b ∨ l.Before b a :=
    h.ordered.imp fun before => .inr (.inl before)
  have backward : l.slots.Pairwise (flip fun a b => a = b ∨ l.Before a b ∨ l.Before b a) :=
    h.ordered.imp fun before => .inr (.inr before)
  exact forward.forall_of_forall_of_flip (fun _ _ => .inl rfl) backward ha hb

end Layout

/-- The place of a step of a phase. -/
def StepDef.slot (phaseId : String) (s : StepDef) : Slot :=
  ⟨s.id, phaseId, s.sequence⟩

/-- The order of the phases and steps of a protocol. -/
def ProtocolDefinition.layout (p : ProtocolDefinition) : Layout where
  phases := p.phases.map (·.id)
  slots := p.phases.flatMap fun ph => (TestRun.inSequence ph.steps).map (StepDef.slot ph.id)

namespace Validation

theorem check_phases {p : ProtocolDefinition} (valid : check p = .ok ()) :
    (p.phases.map (·.id)).Nodup ∧ (p.phases.flatMap fun ph => ph.steps.map (·.id)).Nodup ∧
      ∀ ph ∈ p.phases, ph.Valid := by
  obtain ⟨phaseIds, stepIds, sound⟩ := checkPhases_ok.mp (check_ok.mp valid).phases
  exact ⟨phaseIds.1, stepIds.1, sound⟩

theorem inSequence_ordered {p : PhaseDef} (sound : p.Valid) :
    (TestRun.inSequence p.steps).Pairwise fun a b => a.sequence < b.sequence := by
  have sorted : (TestRun.inSequence p.steps).Pairwise fun a b => a.sequence ≤ b.sequence :=
    mergeSort_ordered (·.sequence) p.steps
  have distinct : ((TestRun.inSequence p.steps).map (·.sequence)).Nodup := by
    have unsorted : (p.steps.map (·.sequence)).Nodup :=
      sound.numbered.nodup_iff.mpr List.nodup_range'
    exact ((List.mergeSort_perm p.steps _).map _).nodup_iff.mpr unsorted
  exact (sorted.and (List.pairwise_map.mp distinct)).imp fun h => Nat.lt_of_le_of_ne h.1 h.2

end Validation

theorem idxOf_ordered {ids : List String} (h : ids.Nodup) :
    ids.Pairwise fun a b => ids.idxOf a < ids.idxOf b := by
  refine List.pairwise_iff_getElem.mpr fun i j inLeft inRight less => ?_
  rwa [h.idxOf_getElem i inLeft, h.idxOf_getElem j inRight]

theorem mem_inSequence {steps : List StepDef} {s : StepDef} :
    s ∈ TestRun.inSequence steps ↔ s ∈ steps :=
  (List.mergeSort_perm steps _).mem_iff

theorem slots_stepIds (p : ProtocolDefinition) :
    (p.layout.slots.map (·.stepId)).Perm (p.phases.flatMap fun ph => ph.steps.map (·.id)) := by
  have written : p.layout.slots.map (·.stepId) =
      p.phases.flatMap fun ph => (TestRun.inSequence ph.steps).map (·.id) := by
    simp only [ProtocolDefinition.layout, List.map_flatMap, List.map_map]
    rfl
  rw [written]
  exact List.Perm.flatMap_left _ fun ph _ => (List.mergeSort_perm ph.steps _).map _

theorem slots_length (p : ProtocolDefinition) : p.layout.slots.length = p.stepCount := by
  have perm := (slots_stepIds p).length_eq
  simpa only [List.length_map, List.length_flatMap, ProtocolDefinition.stepCount,
    ProtocolDefinition.steps] using perm

/-- The checks of a protocol are enough for the order of its steps. -/
theorem layout_wellFormed {p : ProtocolDefinition} (valid : Validation.check p = .ok ()) :
    p.layout.WellFormed := by
  obtain ⟨phaseIds, stepIds, sound⟩ := Validation.check_phases valid
  refine ⟨phaseIds, (slots_stepIds p).nodup_iff.mpr stepIds, ?_, ?_, ?_⟩
  · refine List.pairwise_flatMap.mpr ⟨fun ph member => ?_, ?_⟩
    · refine List.pairwise_map.mpr ((Validation.inSequence_ordered (sound ph member)).imp ?_)
      exact fun less => .inr ⟨rfl, less⟩
    · refine (List.pairwise_map.mp (idxOf_ordered phaseIds)).imp ?_
      rintro a b less _ inLeft _ inRight
      obtain ⟨_, _, rfl⟩ := List.mem_map.mp inLeft
      obtain ⟨_, _, rfl⟩ := List.mem_map.mp inRight
      exact .inl less
  · intro s member
    obtain ⟨ph, phase, member⟩ := List.mem_flatMap.mp member
    obtain ⟨_, _, rfl⟩ := List.mem_map.mp member
    exact List.mem_map_of_mem phase
  · intro id member
    obtain ⟨ph, phase, rfl⟩ := List.mem_map.mp member
    obtain ⟨s, first⟩ := List.exists_mem_of_ne_nil _ (sound ph phase).peopled
    refine ⟨s.slot ph.id, List.mem_flatMap.mpr ⟨ph, phase, ?_⟩, rfl⟩
    exact List.mem_map_of_mem (mem_inSequence.mpr first)

def StepDef.numbered (id : String) (sequence : Nat) : StepDef :=
  ⟨id, sequence, "", "measure", none, none⟩

/-- An illustration: two phases, the first with its steps out of sequence. -/
def ProtocolDefinition.twoPhases : ProtocolDefinition where
  id := "UV-15"
  version := "1.0.0"
  name := "UV exposure"
  category := "uv"
  description := none
  parameters := []
  phases := [
    ⟨"prepare", none, none, [.numbered "mount" 2, .numbered "inspect" 1]⟩,
    ⟨"expose", none, none, [.numbered "irradiate" 1]⟩]
  measurementSpecs := []
  acceptanceCriteria := []
  safetyLimits := []
  qc := none

theorem twoPhases_valid : Validation.check .twoPhases = .ok () := by cbv

example : ProtocolDefinition.twoPhases.layout.slots.map (·.stepId) =
    ["inspect", "mount", "irradiate"] := by cbv

end Qualification
