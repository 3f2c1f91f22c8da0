import Qualification.Proofs.Fresh
import Qualification.Store.Basic

/-! # What a store admits

A run is saved if its parts have identities of their own and its readings are numbers, and
then stands in place of what the store held under its identity.
-/

namespace Qualification

theorem ValueColumns.isValid_ofValue {v : MeasuredValue} :
    (ofValue v).isValid ↔ ∀ x, v = .numeric x → ¬ x.isNaN := by
  cases v with
  | numeric x =>
      have filled : (ofValue (.numeric x)).isValid = (storedReading x).isSome := by
        have columns : ofValue (.numeric x) = ⟨"numeric", storedReading x, none, none, none⟩ := rfl
        rw [columns]
        cases storedReading x <;> rfl
      simp only [filled, MeasuredValue.numeric.injEq, forall_eq']
      unfold storedReading
      split
      · rename_i nan
        exact iff_of_false nofun fun number => number nan
      · rename_i number
        split <;> exact iff_of_true rfl number
  | text s => exact iff_of_true rfl nofun
  | boolean b => exact iff_of_true rfl nofun
  | json v => exact iff_of_true rfl nofun

namespace Tables

variable {t next : Tables} {run : TestRun} {runId id : String}

def phaseIds (runId : String) (t : Tables) : List String :=
  (t.phases.filter fun r => r.runId == runId).map (·.phaseId)

def stepIds (runId : String) (t : Tables) : List String :=
  (t.steps.filter fun r => r.runId == runId).map (·.stepId)

def measurementIds (t : Tables) : List String :=
  t.measurements.map (·.id)

theorem addPhase_ok {p : PhaseRecord} : addPhase runId t p = .ok next ↔
    p.phaseId ∉ phaseIds runId t ∧ True ∧
      next = { t with phases := t.phases ++ [.ofPhase runId p] } := by
  have taken : (t.phases.any fun r => r.runId == runId && r.phaseId == p.phaseId) ↔
      p.phaseId ∈ phaseIds runId t := by
    simp [phaseIds, and_assoc]
  rw [addPhase, unless_ok, taken, true_and]

theorem addStep_ok {s : StepRecord} : addStep runId t s = .ok next ↔
    s.stepId ∉ stepIds runId t ∧ True ∧
      next = { t with steps := t.steps ++ [.ofStep runId s] } := by
  have taken : (t.steps.any fun r => r.runId == runId && r.stepId == s.stepId) ↔
      s.stepId ∈ stepIds runId t := by
    simp [stepIds, and_assoc]
  rw [addStep, unless_ok, taken, true_and]

theorem addMeasurement_ok {m : Measurement} : addMeasurement runId t m = .ok next ↔
    m.id ∉ measurementIds t ∧ (∀ x, m.value = .numeric x → ¬ x.isNaN) ∧
      next = { t with measurements := t.measurements ++ [.ofMeasurement runId m] } := by
  have refused : (!(MeasurementRow.ofMeasurement runId m).value.isValid ||
      t.measurements.any fun r => r.id == m.id) ↔
        ¬ (∀ x, m.value = .numeric x → ¬ x.isNaN) ∨ m.id ∈ measurementIds t := by
    rw [← ValueColumns.isValid_ofValue]
    simp [measurementIds, MeasurementRow.ofMeasurement]
  rw [addMeasurement, unless_ok, refused, not_or, not_not, and_assoc, and_left_comm]

/-- What a run must be like to be saved: its phases, steps and measurements are distinct,
    no measurement belongs to another run, and no reading fails to be a number. -/
structure Admits (t : Tables) (run : TestRun) : Prop where
  phases : (run.phases.map (·.phaseId)).Nodup
  steps : (run.steps.map (·.stepId)).Nodup
  measurements : (run.ledger.entries.map (·.id)).Nodup
  unclaimed : ∀ m ∈ run.ledger.entries, ∀ r ∈ t.measurements, r.id = m.id → r.runId = run.id
  readings : ∀ m ∈ run.ledger.entries, ∀ x, m.value = .numeric x → ¬ x.isNaN

/-- The tables with a run in place of what they held under its identity. -/
def withRun (t : Tables) (run : TestRun) : Tables where
  runs := putRun (.ofRun run) t.runs
  phases := (t.phases.filter fun r => r.runId != run.id) ++ run.phases.map (.ofPhase run.id)
  steps := (t.steps.filter fun r => r.runId != run.id) ++ run.steps.map (.ofStep run.id)
  measurements := (t.measurements.filter fun r => r.runId != run.id) ++
    run.ledger.entries.map (.ofMeasurement run.id)
  findings := t.findings

theorem addPhases_ok {phases : List PhaseRecord} :
    phases.foldlM (addPhase runId) t = .ok next ↔
      Fresh (phaseIds runId t) (phases.map (·.phaseId)) ∧
        next = { t with phases := t.phases ++ phases.map (.ofPhase runId) } := by
  rw [foldlM_add_ok (fun t rows => { t with phases := t.phases ++ rows }) (.ofPhase runId)
    (phaseIds runId) (·.phaseId) (fun _ => True) (by simp) (by simp) (fun _ _ _ => addPhase_ok)
    (by simp [phaseIds, PhaseRow.ofPhase])]
  simp

theorem addSteps_ok {steps : List StepRecord} :
    steps.foldlM (addStep runId) t = .ok next ↔
      Fresh (stepIds runId t) (steps.map (·.stepId)) ∧
        next = { t with steps := t.steps ++ steps.map (.ofStep runId) } := by
  rw [foldlM_add_ok (fun t rows => { t with steps := t.steps ++ rows }) (.ofStep runId)
    (stepIds runId) (·.stepId) (fun _ => True) (by simp) (by simp) (fun _ _ _ => addStep_ok)
    (by simp [stepIds, StepRow.ofStep])]
  simp

theorem addMeasurements_ok {entries : List Measurement} :
    entries.foldlM (addMeasurement runId) t = .ok next ↔
      Fresh (measurementIds t) (entries.map (·.id)) ∧
        (∀ m ∈ entries, ∀ x, m.value = .numeric x → ¬ x.isNaN) ∧
          next = { t with measurements := t.measurements ++ entries.map (.ofMeasurement runId) } :=
  foldlM_add_ok (fun t rows => { t with measurements := t.measurements ++ rows })
    (.ofMeasurement runId) measurementIds (·.id)
    (fun m => ∀ x, m.value = .numeric x → ¬ x.isNaN) (by simp) (by simp)
    (fun _ _ _ => addMeasurement_ok) (by simp [measurementIds, MeasurementRow.ofMeasurement])

theorem phaseIds_withoutParts : phaseIds runId (t.withoutParts runId) = [] := by
  simp [phaseIds, withoutParts]

theorem stepIds_withoutParts : stepIds runId (t.withoutParts runId) = [] := by
  simp [stepIds, withoutParts]

/-- What is left of the measurements belongs to other runs. -/
theorem fresh_withoutParts {entries : List Measurement} :
    Fresh (t.withoutParts runId).measurementIds (entries.map (·.id)) ↔
      (entries.map (·.id)).Nodup ∧
        ∀ m ∈ entries, ∀ r ∈ t.measurements, r.id = m.id → r.runId = runId := by
  refine and_congr_right fun _ => List.forall_mem_map.trans ?_
  simp only [measurementIds, withoutParts, List.mem_map, List.mem_filter,
    bne_iff_ne]
  constructor
  · intro apart m member r row same
    by_contra other
    exact apart m member ⟨r, ⟨row, other⟩, same⟩
  · rintro owned m member ⟨r, ⟨row, other⟩, same⟩
    exact other (owned m member r row same)

theorem saveRun_ok : t.saveRun run = .ok next ↔ t.Admits run ∧ next = t.withRun run := by
  simp only [saveRun, bind_ok_iff, addPhases_ok, addSteps_ok, addMeasurements_ok]
  constructor
  · rintro ⟨_, ⟨phases, rfl⟩, _, ⟨steps, rfl⟩, measurements, readings, rfl⟩
    rw [phaseIds_withoutParts, fresh_of_nothing] at phases
    have steps := stepIds_withoutParts ▸ steps
    obtain ⟨distinct, unclaimed⟩ := fresh_withoutParts.mp measurements
    exact ⟨⟨phases, fresh_of_nothing.mp steps, distinct, unclaimed, readings⟩, rfl⟩
  · rintro ⟨h, rfl⟩
    refine ⟨_, ⟨?_, rfl⟩, _, ⟨?_, rfl⟩, ?_, h.readings, rfl⟩
    · rw [phaseIds_withoutParts, fresh_of_nothing]
      exact h.phases
    · exact stepIds_withoutParts ▸ fresh_of_nothing.mpr h.steps
    · exact fresh_withoutParts.mpr ⟨h.measurements, h.unclaimed⟩

/-- The tables with findings in place of those that a run had. -/
def withFindings (t : Tables) (runId : String) (findings : List QcFinding) : Tables :=
  { t with findings :=
      (t.findings.filter fun r => r.runId != runId) ++ findings.map (.ofFinding runId) }

theorem saveFindings_ok {checksRuns : Bool} {findings : List QcFinding} :
    t.saveFindings checksRuns runId findings = .ok next ↔
      (findings ≠ [] → checksRuns → (t.run? runId).isSome) ∧
        next = t.withFindings runId findings := by
  cases findings with
  | nil =>
      have cleared : t.withFindings runId [] =
          { t with findings := t.findings.filter fun r => r.runId != runId } := by
        simp [withFindings]
      rw [cleared]
      exact ⟨fun h => ⟨nofun, (Except.ok.inj h).symm⟩, fun h => congrArg Except.ok h.2.symm⟩
  | cons f rest =>
      have refused : (checksRuns && (t.run? runId).isNone) ↔
          ¬ (checksRuns → (t.run? runId).isSome) := by
        cases t.run? runId <;> simp
      rw [saveFindings, unless_ok, refused, not_not]
      simp only [ne_eq, reduceCtorEq, not_false_eq_true, true_implies]
      rfl

end Tables

end Qualification
