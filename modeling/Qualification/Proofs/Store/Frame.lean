import Qualification.Proofs.Instant.Column
import Qualification.Proofs.Reading
import Qualification.Proofs.Sorting
import Qualification.Proofs.Store.Row
import Qualification.Proofs.Store.Saving
import Qualification.Store.Basic

/-! # What a write leaves alone

A write is about one run. What a store tells of every other run stays, and saving a run
keeps its findings.
-/

namespace Qualification

namespace RunRow

theorem precedes_iff {a b : RunRow} : a.precedes b ↔
    b.createdAt < a.createdAt ∨ a.createdAt = b.createdAt ∧ a.id ≤ b.id := by
  simp only [precedes, Bool.or_eq_true, Bool.and_eq_true, decide_eq_true_eq, beq_iff_eq]

theorem precedes_trans (a b c : RunRow) (first : a.precedes b) (second : b.precedes c) :
    a.precedes c := by
  rw [precedes_iff] at *
  rcases first with newer | ⟨same, before⟩ <;> rcases second with newer' | ⟨same', before'⟩
  · exact .inl (String.lt_trans newer' newer)
  · exact .inl (same' ▸ newer)
  · exact .inl (same ▸ newer')
  · exact .inr ⟨same.trans same', String.le_trans before before'⟩

theorem precedes_total (a b : RunRow) : a.precedes b || b.precedes a := by
  rw [Bool.or_eq_true, precedes_iff, precedes_iff]
  by_cases newer : b.createdAt < a.createdAt
  · exact .inl (.inl newer)
  · by_cases older : a.createdAt < b.createdAt
    · exact .inr (.inl older)
    · have same := String.le_antisymm (String.not_lt.mp newer) (String.not_lt.mp older)
      exact (String.le_total a.id b.id).imp (fun h => .inr ⟨same, h⟩) fun h => .inr ⟨same.symm, h⟩

theorem toSummary_id {r : RunRow} {s : RunSummary} (h : r.toSummary? = some s) :
    s.runId = r.id := by
  simp only [toSummary?, Option.bind_eq_bind, Option.bind_eq_some_iff, Option.pure_def,
    Option.some.injEq] at h
  obtain ⟨_, _, _, _, _, _, _, _, rfl⟩ := h
  rfl

theorem toSummary_ofRun {run : TestRun} (created : run.createdAt.Plain)
    (completed : ∀ t, run.completedAt = some t → t.Plain) :
    (ofRun run).toSummary? = some (.ofRun run) := by
  simp [toSummary?, ofRun, RunSummary.ofRun, RunStatus.ofText_text, TestResult.ofText_text,
    created.ofColumn, Instant.ofColumnOrNull_column completed]

theorem toSummary_far {run : TestRun} (far : ¬ run.createdAt.hasPlainYear ∨
    ∃ late, run.completedAt = some late ∧ ¬ late.hasPlainYear) :
    (ofRun run).toSummary? = none := by
  rcases far with created | ⟨late, completed, far⟩
  · simp [toSummary?, ofRun, Instant.ofColumn_far created]
  · simp [toSummary?, ofRun, completed, Instant.ofColumnOrNull?, Instant.ofColumn_far far]

end RunRow

namespace Tables

variable {t : Tables} {run : TestRun} {runId id : String} {findings : List QcFinding}

/-- The rows of other runs are those that were there, whatever is put in place of the rows
    of one. -/
theorem filter_replaced {α ρ : Type} (owner : ρ → String) (row : α → ρ)
    (own : ∀ a, owner (row a) = runId) (other : id ≠ runId) {rows : List ρ} {new : List α} :
    ((rows.filter fun r => owner r != runId) ++ new.map row).filter (fun r => owner r == id) =
      rows.filter fun r => owner r == id := by
  have none : (new.map row).filter (fun r => owner r == id) = [] := by
    rw [List.filter_eq_nil_iff, List.forall_mem_map]
    intro a _
    simpa [own] using other.symm
  rw [List.filter_append, none, List.append_nil, List.filter_filter]
  refine List.filter_congr fun r _ => ?_
  by_cases same : owner r = id
  · simp [same, other]
  · simp [same]

theorem run?_putRun {row : RunRow} {rows : List RunRow} (other : id ≠ row.id) :
    (putRun row rows).find? (fun r => r.id = id) = rows.find? fun r => r.id = id := by
  induction rows with
  | nil => simp [putRun, other.symm]
  | cons r rest ih =>
      rw [putRun]
      split
      · rename_i same
        rw [List.find?_cons_of_neg (by simpa using other.symm),
          List.find?_cons_of_neg (by simpa [same] using other.symm)]
      · rw [List.find?_cons, List.find?_cons, ih]

theorem run?_withRun (other : id ≠ run.id) : (t.withRun run).run? id = t.run? id :=
  run?_putRun other

theorem loadRun_withRun (other : id ≠ run.id) :
    (t.withRun run).loadRun id = t.loadRun id := by
  have phases : (t.withRun run).loadPhases id = t.loadPhases id :=
    congrArg (readAll .phases _)
      (filter_replaced PhaseRow.runId (.ofPhase run.id) (fun _ => rfl) other)
  have steps : (t.withRun run).loadSteps id = t.loadSteps id :=
    congrArg (readAll .steps _)
      (filter_replaced StepRow.runId (.ofStep run.id) (fun _ => rfl) other)
  have ledger : (t.withRun run).loadLedger id = t.loadLedger id :=
    congrArg (fun rows => (readAll .measurements _ rows).map Ledger.mk)
      (filter_replaced MeasurementRow.runId (.ofMeasurement run.id) (fun _ => rfl) other)
  rw [loadRun, loadRun, run?_withRun other, phases, steps, ledger]

theorem loadFindings_withFindings (other : id ≠ runId) :
    (t.withFindings runId findings).loadFindings id = t.loadFindings id :=
  congrArg (readAll .findings _)
    (filter_replaced FindingRow.runId (.ofFinding runId) (fun _ => rfl) other)

theorem mem_putRun {row r : RunRow} {rows : List RunRow} (h : r ∈ putRun row rows) :
    r = row ∨ r ∈ rows := by
  induction rows with
  | nil => exact .inl (List.mem_singleton.mp h)
  | cons first rest ih =>
      rw [putRun] at h
      split at h
      · exact (List.mem_cons.mp h).imp_right (List.mem_cons_of_mem first)
      · rcases List.mem_cons.mp h with rfl | inRest
        · exact .inr List.mem_cons_self
        · exact (ih inRest).imp_right (List.mem_cons_of_mem first)

theorem mem_putRun_self (row : RunRow) (rows : List RunRow) : row ∈ putRun row rows := by
  induction rows with
  | nil => exact List.mem_singleton.mpr rfl
  | cons first rest ih =>
      rw [putRun]
      split
      · exact List.mem_cons_self
      · exact List.mem_cons_of_mem first ih

theorem filter_putRun (row : RunRow) {rows : List RunRow} :
    (putRun row rows).filter (fun r => r.id != row.id) =
      rows.filter fun r => r.id != row.id := by
  induction rows with
  | nil => simp [putRun]
  | cons first rest ih =>
      rw [putRun]
      split
      · rename_i same
        simp [same]
      · rename_i different
        simp [different, ih]

theorem listRuns_ok {listed : List RunSummary} :
    t.listRuns = .ok listed ↔
      (t.runs.mergeSort RunRow.precedes).mapM RunRow.toSummary? = some listed := by
  unfold listRuns
  split <;> simp [*]

/-- Every run can be listed if each row of the table can be read. -/
theorem exists_listRuns :
    (∃ listed, t.listRuns = .ok listed) ↔ ∀ r ∈ t.runs, ∃ s, r.toSummary? = some s := by
  simp only [listRuns_ok, exists_mapM, List.mem_mergeSort]

/-- A saved run that can itself be listed leaves every other line of the list as it was. -/
theorem listRuns_withRun {listed : List RunSummary} (h : t.listRuns = .ok listed)
    (readable : ∃ s, (RunRow.ofRun run).toSummary? = some s) :
    ∃ next, (t.withRun run).listRuns = .ok next ∧
      next.filter (fun s => s.runId != run.id) = listed.filter fun s => s.runId != run.id := by
  have rows : ∀ r ∈ (t.withRun run).runs, ∃ s, r.toSummary? = some s := by
    intro r member
    rcases mem_putRun member with rfl | old
    · exact readable
    · exact exists_listRuns.mp ⟨listed, h⟩ r old
  obtain ⟨next, read⟩ := exists_listRuns.mpr rows
  refine ⟨next, read, ?_⟩
  have agree r s (row : RunRow.toSummary? r = some s) :
      (s.runId != run.id) = (r.id != run.id) := by
    rw [RunRow.toSummary_id row]
  have before := mapM_filter agree (listRuns_ok.mp h)
  have after := mapM_filter agree (listRuns_ok.mp read)
  have same : (t.withRun run).runs.filter (fun r => r.id != run.id) =
      t.runs.filter fun r => r.id != run.id := filter_putRun (.ofRun run)
  rw [mergeSort_filter RunRow.precedes_trans RunRow.precedes_total] at before after
  rw [same, before] at after
  exact (Option.some.inj after).symm

/-- A row that cannot be read makes the whole list unreadable. -/
theorem listRuns_unread {row : RunRow} (member : row ∈ t.runs) (unread : row.toSummary? = none) :
    t.listRuns = .error .list := by
  cases listed : t.listRuns with
  | ok lines =>
      obtain ⟨line, read⟩ := exists_listRuns.mp ⟨lines, listed⟩ row member
      rw [unread] at read
      cases read
  | error e =>
      unfold listRuns at listed
      split at listed
      · cases listed
      · exact listed.symm

/-- So does a saved run with a time beyond the years of four digits. -/
theorem listRuns_withRun_far
    (far : ¬ run.createdAt.hasPlainYear ∨
      ∃ late, run.completedAt = some late ∧ ¬ late.hasPlainYear) :
    (t.withRun run).listRuns = .error .list :=
  listRuns_unread (mem_putRun_self (.ofRun run) t.runs) (RunRow.toSummary_far far)

theorem listRuns_one (created : run.createdAt.Plain)
    (completed : ∀ t, run.completedAt = some t → t.Plain) :
    (Tables.empty.withRun run).listRuns = .ok [.ofRun run] := by
  have row : (Tables.empty.withRun run).runs.mergeSort RunRow.precedes = [.ofRun run] :=
    List.mergeSort_singleton _
  rw [listRuns_ok, row, mapM_cons_some]
  exact ⟨_, _, RunRow.toSummary_ofRun created completed, rfl, rfl⟩

end Tables

namespace Store

variable {s next : Store} {w : Write}

/-- What a write needs of the tables. Findings need a run, unless there are none or nothing
    checks it. -/
def Write.Fits (checksRuns : Bool) (t : Tables) : Write → Prop
  | .run r => t.Admits r
  | .findings id found => found ≠ [] → checksRuns → (t.run? id).isSome

def Write.put (t : Tables) : Write → Tables
  | .run r => t.withRun r
  | .findings id found => t.withFindings id found

/-- Does a write leave a list of runs that can be read? The times of a saved run then lie in
    years of four digits. -/
def Write.Listable : Write → Prop
  | .run r => r.createdAt.Plain ∧ ∀ t, r.completedAt = some t → t.Plain
  | .findings .. => True

theorem requireTables_ok {e : StoreError} {t : Tables} :
    s.requireTables e = .ok t ↔ s.tables = some t := by
  unfold requireTables
  split <;> simp [*]

theorem write_ok : s.write w = .ok next ↔
    ∃ t, s.tables = some t ∧ w.Fits s.checksRuns t ∧ next = ⟨some (w.put t), s.checksRuns⟩ := by
  cases w with
  | run r =>
      simp only [write, saveRun, bind_ok_iff, requireTables_ok, Tables.saveRun_ok, pure_ok,
        and_assoc, exists_and_left, exists_eq_left]
      rfl
  | findings id found =>
      simp only [write, saveFindings, bind_ok_iff, requireTables_ok, Tables.saveFindings_ok,
        pure_ok, and_assoc, exists_and_left, exists_eq_left]
      rfl

theorem after_refused {e : StoreError} (h : s.write w = .error e) : s.after w = s := by
  rw [after, h]
  rfl

/-- A store is left as it was, or with what was written. -/
theorem after_cases (s : Store) (w : Write) : s.after w = s ∨
    ∃ t checksRuns, s = ⟨some t, checksRuns⟩ ∧ s.after w = ⟨some (w.put t), checksRuns⟩ := by
  cases h : s.write w with
  | error e => exact .inl (after_refused h)
  | ok next =>
      obtain ⟨t, tables, _, rfl⟩ := write_ok.mp h
      refine .inr ⟨t, s.checksRuns, ?_, ?_⟩
      · rw [← tables]
      · rw [after, h]
        rfl

structure Framed (s : Store) (w : Write) : Prop where
  /-- It is accepted if the tables are there and it fits them. -/
  accepted : (∃ next, s.write w = .ok next) ↔
    ∃ t, s.tables = some t ∧ w.Fits s.checksRuns t
  refused : ∀ e, s.write w = .error e → s.after w = s
  runs : ∀ id, id ≠ w.runId → (s.after w).loadRun id = s.loadRun id
  findings : ∀ id, id ≠ w.runId → (s.after w).loadFindings id = s.loadFindings id
  /-- A run that is saved again keeps its findings. -/
  ownFindings : ∀ run, w = .run run → (s.after w).loadFindings run.id = s.loadFindings run.id
  /-- The list of runs keeps the lines of other runs. -/
  listed : w.Listable → ∀ before, s.listRuns = .ok before → ∃ now, (s.after w).listRuns = .ok now ∧
    now.filter (fun line => line.runId != w.runId) =
      before.filter fun line => line.runId != w.runId

theorem write_framed (s : Store) (w : Write) : Framed s w where
  accepted := by
    simp only [write_ok]
    constructor
    · rintro ⟨_, t, tables, fits, _⟩
      exact ⟨t, tables, fits⟩
    · rintro ⟨t, tables, fits⟩
      exact ⟨_, t, tables, fits, rfl⟩
  refused _ := after_refused
  runs id other := by
    rcases after_cases s w with same | ⟨t, checksRuns, rfl, left⟩
    · rw [same]
    · rw [left]
      cases w with
      | run r => exact Tables.loadRun_withRun other
      | findings => rfl
  findings id other := by
    rcases after_cases s w with same | ⟨t, checksRuns, rfl, left⟩
    · rw [same]
    · rw [left]
      cases w with
      | run r => rfl
      | findings => exact Tables.loadFindings_withFindings other
  ownFindings run isRun := by
    subst isRun
    rcases after_cases s (.run run) with same | ⟨t, checksRuns, rfl, left⟩
    · rw [same]
    · rw [left]
      rfl
  listed listable before h := by
    rcases after_cases s w with same | ⟨t, checksRuns, rfl, left⟩
    · exact ⟨before, same.symm ▸ h, rfl⟩
    · rw [left]
      cases w with
      | run r =>
          have readable := RunRow.toSummary_ofRun listable.1 listable.2
          exact Tables.listRuns_withRun h ⟨_, readable⟩
      | findings => exact ⟨before, h, rfl⟩

end Store

/-- An illustration: a run with nothing in it. -/
def TestRun.bare (id : String) (completedAt : Option Instant) : TestRun where
  id := id
  protocolId := "P"
  protocolVersion := "1.0.0"
  specimenId := "S"
  operator := "o"
  parameters := []
  status := .completed
  result := .pass
  reason := none
  createdAt := ⟨1677657600, 0⟩
  startedAt := none
  completedAt := completedAt
  phases := []
  steps := []
  ledger := .empty
  acceptance := []

namespace Store

/-- An illustration: tables with one run in them. -/
def ofOne : Tables :=
  .withRun .empty (.bare "R-1" none)

/-- An illustration: a run that ended, by its offset, after the last year of four digits. -/
def lateRun : TestRun :=
  .bare "R-2" (some ⟨253402304399, 0⟩)

/-- Saving the late run is accepted, and the line of the other run can no longer be read. -/
theorem listRuns_lost :
    (Store.mk (some ofOne) true).listRuns = .ok [.ofRun (.bare "R-1" none)] ∧
      (Store.mk (some ofOne) true).saveRun lateRun =
        .ok ⟨some (ofOne.withRun lateRun), true⟩ ∧
      (Store.mk (some (ofOne.withRun lateRun)) true).listRuns = .error .list := by
  have created : (TestRun.bare "R-1" none).createdAt.Plain :=
    ⟨.of_below (by decide), by decide⟩
  have nothing : ∀ m, m ∉ lateRun.ledger.entries := fun _ => List.not_mem_nil
  have admitted : ofOne.Admits lateRun :=
    ⟨by decide, by decide, by decide, fun m h => absurd h (nothing m),
      fun m h => absurd h (nothing m)⟩
  refine ⟨Tables.listRuns_one created nofun, ?_, ?_⟩
  · exact (write_ok (w := .run lateRun)).mpr ⟨ofOne, rfl, admitted, rfl⟩
  · exact Tables.listRuns_withRun_far (.inr ⟨_, rfl, by decide⟩)

end Store

end Qualification
