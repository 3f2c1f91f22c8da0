import Qualification.Proofs.Reading
import Qualification.Proofs.Store.Equality
import Qualification.Proofs.Store.Saving

/-! # What is saved is loaded

The rows of a run that was saved are its own, in its order, and give back all of its parts.
-/

namespace Qualification.Tables

variable {t : Tables} {run : TestRun} {runId : String} {findings : List QcFinding}

/-- The rows of a run are those that were put, and no others. -/
theorem filter_own {α ρ : Type} (owner : ρ → String) (row : α → ρ)
    (own : ∀ a, owner (row a) = runId) (rows : List ρ) (new : List α) :
    ((rows.filter fun r => owner r != runId) ++ new.map row).filter (fun r => owner r == runId) =
      new.map row := by
  have others : (rows.filter fun r => owner r != runId).filter (fun r => owner r == runId) = [] :=
    List.filter_eq_nil_iff.mpr fun r member => by simpa using (List.mem_filter.mp member).2
  have kept : (new.map row).filter (fun r => owner r == runId) = new.map row :=
    List.filter_eq_self.mpr <| List.forall_mem_map.mpr fun a _ => by simp [own]
  rw [List.filter_append, others, kept, List.nil_append]

theorem run?_putRun_self (row : RunRow) (rows : List RunRow) :
    (putRun row rows).find? (fun r => r.id = row.id) = some row := by
  induction rows with
  | nil => simp [putRun]
  | cons r rest ih =>
      rw [putRun]
      split
      · simp
      · rename_i other
        rw [List.find?_cons_of_neg (by simpa using other), ih]

theorem readAll_map {α β ρ : Type} {part : StoredPart} {write : α → ρ} {read : ρ → Option β}
    {back : α → β} {parts : List α} (each : ∀ a ∈ parts, read (write a) = some (back a)) :
    readAll part read (parts.map write) = .ok (parts.map back) := by
  rw [readAll, mapM_map_some each]

/-- Of a saved run everything but the ledger is loaded as it was. -/
theorem loadRun_outline (outline : ({ run with ledger := .empty } : TestRun).Storable) :
    (t.withRun run).loadRun run.id =
      ((t.withRun run).loadLedger run.id).map fun ledger => some { run with ledger } := by
  have row : (t.withRun run).run? run.id = some (.ofRun run) :=
    run?_putRun_self (.ofRun run) t.runs
  have bare : (RunRow.ofRun run).toRun? = some run.withoutParts :=
    RunRow.toRun_ofRun outline.createdAt outline.startedAt outline.completedAt
      outline.parameters outline.verdicts
  have phases : (t.withRun run).loadPhases run.id = .ok run.phases := by
    have rows := filter_own PhaseRow.runId (.ofPhase run.id) (fun _ => rfl) t.phases run.phases
    rw [loadPhases, withRun, rows,
      readAll_map fun p member => PhaseRow.toPhase_ofPhase (outline.phases p member) run.id]
    simp
  have steps : (t.withRun run).loadSteps run.id = .ok run.steps := by
    have rows := filter_own StepRow.runId (.ofStep run.id) (fun _ => rfl) t.steps run.steps
    rw [loadSteps, withRun, rows,
      readAll_map fun s member => StepRow.toStep_ofStep (outline.steps s member) run.id]
    simp
  simp only [loadRun, row, bare, phases, steps, bind, Except.bind, pure, Except.pure]
  cases (t.withRun run).loadLedger run.id <;> rfl

theorem loadLedger_own : (t.withRun run).loadLedger run.id =
    (readAll .measurements MeasurementRow.toMeasurement?
      (run.ledger.entries.map (.ofMeasurement run.id))).map Ledger.mk := by
  have rows := filter_own MeasurementRow.runId (.ofMeasurement run.id) (fun _ => rfl)
    t.measurements run.ledger.entries
  rw [loadLedger, withRun, rows]

/-- The ledger of a saved run is what the rows of its entries give back. -/
theorem loadRun_entries (outline : ({ run with ledger := .empty } : TestRun).Storable)
    {back : Measurement → Measurement} (read : ∀ m ∈ run.ledger.entries,
      (MeasurementRow.ofMeasurement run.id m).toMeasurement? = some (back m)) :
    (t.withRun run).loadRun run.id =
      .ok (some { run with ledger := ⟨run.ledger.entries.map back⟩ }) := by
  rw [loadRun_outline outline, loadLedger_own, readAll_map read]
  rfl

/-- A saved run is loaded as it was, but for the sign of a zero. -/
theorem loadRun_withRun_self (storable : run.Storable)
    (owned : ∀ m ∈ run.ledger.entries, m.runId = run.id) :
    (t.withRun run).loadRun run.id = .ok (some run.unsignedZeros) := by
  have outline : ({ run with ledger := .empty } : TestRun).Storable :=
    { storable with entries := fun _ member => absurd member List.not_mem_nil }
  refine loadRun_entries outline fun m member => ?_
  rw [← owned m member]
  exact MeasurementRow.toMeasurement_ofMeasurement (storable.entries m member)

theorem readAll_unread {α ρ : Type} {part : StoredPart} {read : ρ → Option α} {rows : List ρ}
    {row : ρ} (member : row ∈ rows) (unread : read row = none) :
    readAll part read rows = .error (.load part) := by
  have none : rows.mapM read = none := by
    cases values : rows.mapM read with
    | none => rfl
    | some found =>
        obtain ⟨_, some⟩ := exists_mapM.mp ⟨found, values⟩ row member
        cases unread.symm.trans some
  rw [readAll, none]

/-- A saved run is not loaded if the time of a measurement has no four-digit year. -/
theorem loadRun_withRun_far (outline : ({ run with ledger := .empty } : TestRun).Storable)
    {m : Measurement} (member : m ∈ run.ledger.entries) (far : ¬ m.timestamp.hasPlainYear) :
    (t.withRun run).loadRun run.id = .error (.load .measurements) := by
  have unread := MeasurementRow.toMeasurement_far far run.id
  rw [loadRun_outline outline, loadLedger_own,
    readAll_unread (List.mem_map_of_mem member) unread]
  rfl

theorem loadFindings_withFindings_self (storable : ∀ f ∈ findings, f.Storable) :
    (t.withFindings runId findings).loadFindings runId = .ok findings := by
  have rows := filter_own FindingRow.runId (.ofFinding runId) (fun _ => rfl) t.findings findings
  rw [loadFindings, withFindings, rows,
    readAll_map fun f member => FindingRow.toFinding_ofFinding (storable f member) runId]
  simp

end Qualification.Tables
