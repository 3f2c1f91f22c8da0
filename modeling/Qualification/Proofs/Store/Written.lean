import Qualification.Proofs.Instant.Reading
import Qualification.Proofs.Run.Document
import Qualification.Proofs.Run.Order
import Qualification.Proofs.Store.Listing

/-! # What writes leave in the tables

Whatever is written, the tables hold only rows that are made of saved runs, each under a key
of its own. A run that is loaded from them can therefore be saved again in its place.
-/

namespace Qualification

namespace Instant

/-- What the column of a proper instant gives is that instant. -/
theorem Proper.ofColumn_some {s t : Instant} (h : t.Proper) (read : ofColumn? t.column = some s) :
    s = t ∧ t.Plain := by
  rw [h.ofColumn_column] at read
  split at read
  · rename_i plain
    cases read
    exact ⟨rfl, h, plain⟩
  · cases read

theorem ofColumnOrNull_plain {t u : Option Instant} (proper : ∀ s ∈ t.toList, s.Proper)
    (read : ofColumnOrNull? (t.map column) = some u) : PlainOrNull u := by
  cases t with
  | none =>
      cases read
      exact nofun
  | some s =>
      rw [Option.map_some, ofColumnOrNull?, Option.map_eq_some_iff] at read
      obtain ⟨r, given, rfl⟩ := read
      obtain ⟨rfl, plain⟩ := (proper s (List.mem_singleton_self s)).ofColumn_some given
      intro t same
      cases same
      exact plain

/-- The two columns of a part give times that they give again. -/
theorem ofColumns_plain {started completed s t : Option Instant}
    (proper : ∀ time ∈ started.toList ++ completed.toList, time.Proper)
    (first : ofColumnOrNull? (started.map column) = some s)
    (last : ofColumnOrNull? (completed.map column) = some t) : PlainOrNull s ∧ PlainOrNull t :=
  ⟨ofColumnOrNull_plain (fun time given => proper time (List.mem_append_left _ given)) first,
    ofColumnOrNull_plain (fun time given => proper time (List.mem_append_right _ given)) last⟩

end Instant

/-- A value as columns give it: a reading is a number and has no sign if it is zero. -/
structure MeasuredValue.Stored (v : MeasuredValue) : Prop where
  unsigned : v.unsignedZero = v
  number : ∀ x, v = .numeric x → ¬ x.isNaN
  json : ∀ w, v = .json w → w.Storable Json.levels

theorem MeasuredValue.stored_reading {x y : Float}
    (stored : ValueColumns.storedReading x = some y) : (numeric y).Stored := by
  unfold ValueColumns.storedReading at stored
  split at stored
  · cases stored
  · rename_i number
    split at stored
    · cases stored
      have zero : (0.0 : Float).isFinite := by decide +kernel
      refine ⟨?_, fun x same => ?_, nofun⟩
      · simp [unsignedZero, Binary64.beq_self zero]
      · cases same
        exact Binary64.not_isNaN zero
    · rename_i nonzero
      cases stored
      refine ⟨?_, fun z same => ?_, nofun⟩
      · simp [unsignedZero, nonzero]
      · cases same
        exact number

namespace ValueColumns

theorem toValue_stored {v w : MeasuredValue} (read : (ofValue v).toValue? = some w) :
    w.Stored := by
  cases v with
  | numeric x =>
      have column : (storedReading x).map MeasuredValue.numeric = some w := read
      obtain ⟨y, stored, rfl⟩ := Option.map_eq_some_iff.mp column
      exact MeasuredValue.stored_reading stored
  | text s =>
      cases read
      exact ⟨rfl, nofun, nofun⟩
  | boolean b =>
      cases read
      exact ⟨rfl, nofun, nofun⟩
  | json v =>
      have column : (Json.ofColumn? Document.Decoder.json v.compact).map MeasuredValue.json =
        some w := read
      obtain ⟨value, given, rfl⟩ := Option.map_eq_some_iff.mp column
      refine ⟨rfl, nofun, fun w same => ?_⟩
      cases same
      exact Json.storable_ofColumn given

/-- A value that columns gave is given by its own again. -/
theorem toValue_again {v : MeasuredValue} (h : v.Stored) : (ofValue v).toValue? = some v := by
  cases v with
  | numeric x =>
      have unsigned : (if x == 0.0 then 0.0 else x) = x := MeasuredValue.numeric.inj h.unsigned
      have stored : storedReading x = some x := by
        rw [storedReading, if_neg (h.number x rfl), ← apply_ite some, unsigned]
      have read : (ofValue (.numeric x)).toValue? = (storedReading x).map .numeric := rfl
      rw [read, stored]
      rfl
  | text s => rfl
  | boolean b => rfl
  | json v => exact MeasuredValue.toValue_ofValue (h.json v rfl)

end ValueColumns

/-- A row made of a phase with proper times. -/
def PhaseRow.Written (r : PhaseRow) : Prop :=
  ∃ runId p, (∀ t ∈ p.times, t.Proper) ∧ r = ofPhase runId p

/-- A row made of a step with proper times. -/
def StepRow.Written (r : StepRow) : Prop :=
  ∃ runId s, (∀ t ∈ s.times, t.Proper) ∧ r = ofStep runId s

/-- A row made of a measurement that was taken at a proper time. -/
def MeasurementRow.Written (r : MeasurementRow) : Prop :=
  ∃ runId m, m.timestamp.Proper ∧ r = ofMeasurement runId m

/-- A row made of a run with proper times. -/
def RunRow.Written (r : RunRow) : Prop :=
  ∃ run, (∀ t ∈ run.times, t.Proper) ∧ r = ofRun run

/-- A measurement as its row gives it. -/
structure Measurement.Restored (m : Measurement) : Prop where
  value : m.value.Stored
  timestamp : m.timestamp.Plain
  metadata : Json.Storable Json.levels (.object m.metadata)

/-- A run as its rows give it. -/
structure TestRun.Restored (run : TestRun) : Prop where
  createdAt : run.createdAt.Plain
  startedAt : PlainOrNull run.startedAt
  completedAt : PlainOrNull run.completedAt
  parameters : Json.Storable Json.levels (.object run.parameters)
  phases : ∀ p ∈ run.phases, p.Timed
  steps : ∀ s ∈ run.steps, s.Timed
  entries : ∀ m ∈ run.ledger.entries, m.Restored
  owned : ∀ m ∈ run.ledger.entries, m.runId = run.id

theorem PhaseRow.toPhase_id {r : PhaseRow} {p : PhaseRecord} (read : r.toPhase? = some p) :
    p.phaseId = r.phaseId := by
  simp only [toPhase?, Option.bind_eq_bind, Option.bind_eq_some_iff, Option.pure_def,
    Option.some.injEq] at read
  obtain ⟨_, _, _, _, _, _, rfl⟩ := read
  rfl

theorem PhaseRow.Written.timed {r : PhaseRow} {p : PhaseRecord} (h : r.Written)
    (read : r.toPhase? = some p) : p.Timed := by
  obtain ⟨runId, q, proper, rfl⟩ := h
  simp only [toPhase?, ofPhase, Option.bind_eq_bind, Option.bind_eq_some_iff, Option.pure_def,
    Option.some.injEq] at read
  obtain ⟨_, _, _, started, _, completed, rfl⟩ := read
  obtain ⟨plain, plain'⟩ := Instant.ofColumns_plain proper started completed
  exact ⟨plain, plain'⟩

theorem StepRow.toStep_id {r : StepRow} {s : StepRecord} (read : r.toStep? = some s) :
    s.stepId = r.stepId := by
  simp only [toStep?, Option.bind_eq_bind, Option.bind_eq_some_iff, Option.pure_def,
    Option.some.injEq] at read
  obtain ⟨_, _, _, _, _, _, rfl⟩ := read
  rfl

theorem StepRow.Written.timed {r : StepRow} {s : StepRecord} (h : r.Written)
    (read : r.toStep? = some s) : s.Timed := by
  obtain ⟨runId, u, proper, rfl⟩ := h
  simp only [toStep?, ofStep, Option.bind_eq_bind, Option.bind_eq_some_iff, Option.pure_def,
    Option.some.injEq] at read
  obtain ⟨_, _, _, started, _, completed, rfl⟩ := read
  obtain ⟨plain, plain'⟩ := Instant.ofColumns_plain proper started completed
  exact ⟨plain, plain'⟩

theorem MeasurementRow.toMeasurement_ids {r : MeasurementRow} {m : Measurement}
    (read : r.toMeasurement? = some m) : m.id = r.id ∧ m.runId = r.runId := by
  simp only [toMeasurement?, Option.bind_eq_bind, Option.bind_eq_some_iff, Option.pure_def,
    Option.some.injEq] at read
  obtain ⟨_, _, _, _, _, _, _, _, _, _, rfl⟩ := read
  exact ⟨rfl, rfl⟩

theorem MeasurementRow.Written.restored {r : MeasurementRow} {m : Measurement} (h : r.Written)
    (read : r.toMeasurement? = some m) : m.Restored := by
  obtain ⟨runId, n, proper, rfl⟩ := h
  simp only [toMeasurement?, ofMeasurement, Option.bind_eq_bind, Option.bind_eq_some_iff,
    Option.pure_def, Option.some.injEq] at read
  obtain ⟨_, value, _, time, _, _, _, _, _, metadata, rfl⟩ := read
  obtain ⟨rfl, plain⟩ := proper.ofColumn_some time
  exact ⟨ValueColumns.toValue_stored value, plain, Json.storable_ofColumn_dictionary metadata⟩

theorem RunRow.toRun_id {r : RunRow} {run : TestRun} (read : r.toRun? = some run) :
    run.id = r.id := by
  simp only [toRun?, Option.bind_eq_bind, Option.bind_eq_some_iff, Option.pure_def,
    Option.some.injEq] at read
  obtain ⟨_, _, _, _, _, _, _, _, _, _, _, _, _, _, rfl⟩ := read
  rfl

/-- Verdicts that are read of their column have room in it. -/
theorem RunRow.toRun_verdicts {r : RunRow} {run : TestRun} (read : r.toRun? = some run) :
    ∀ e ∈ run.acceptance, ∀ v, e.value = some v → v.Within (Json.levels - 3) := by
  simp only [toRun?, Option.bind_eq_bind, Option.bind_eq_some_iff, Option.pure_def,
    Option.some.injEq] at read
  obtain ⟨_, _, _, _, _, _, _, _, _, _, _, _, acceptance, column, rfl⟩ := read
  exact Json.decoded Evaluation.produces_decode.list (Json.ofColumn_ok column)

/-- The part of a run that its own row holds is restored from it. -/
theorem RunRow.Written.outline {r : RunRow} {run : TestRun} (h : r.Written)
    (read : r.toRun? = some run) : run.createdAt.Plain ∧ PlainOrNull run.startedAt ∧
      PlainOrNull run.completedAt ∧ Json.Storable Json.levels (.object run.parameters) := by
  obtain ⟨written, proper, rfl⟩ := h
  have created : written.createdAt.Proper := proper _ (TestRun.mem_times.mpr (.inl rfl))
  have others : ∀ t ∈ written.startedAt.toList ++ written.completedAt.toList, t.Proper := by
    intro t member
    refine proper t (TestRun.mem_times.mpr (.inr ?_))
    rw [List.mem_append, Option.mem_toList, Option.mem_toList] at member
    exact member.imp_right .inl
  simp only [toRun?, ofRun, Option.bind_eq_bind, Option.bind_eq_some_iff, Option.pure_def,
    Option.some.injEq] at read
  obtain ⟨_, parameters, _, _, _, _, _, time, _, started, _, completed, _, _, rfl⟩ := read
  obtain ⟨rfl, plain⟩ := created.ofColumn_some time
  obtain ⟨plain', plain''⟩ := Instant.ofColumns_plain others started completed
  exact ⟨plain, plain', plain'', Json.storable_ofColumn_dictionary parameters⟩

namespace Tables

variable {t : Tables} {run : TestRun} {runId : String}

/-- Tables with rows that are made of saved runs, each under a key of its own. -/
structure Written (t : Tables) : Prop where
  runs : ∀ r ∈ t.runs, r.Written
  phases : ∀ r ∈ t.phases, r.Written
  steps : ∀ r ∈ t.steps, r.Written
  measurements : ∀ r ∈ t.measurements, r.Written
  phaseIds : ∀ runId, (phaseIds runId t).Nodup
  stepIds : ∀ runId, (stepIds runId t).Nodup
  measurementIds : t.measurementIds.Nodup

theorem written_empty : Written .empty := by
  constructor <;> simp [empty, phaseIds, stepIds, measurementIds]

section Replaced

variable {α ρ : Type} {row : α → ρ} {rows : List ρ} {new : List α}

theorem forall_replaced {P : ρ → Prop} {keep : ρ → Bool} (old : ∀ r ∈ rows, P r)
    (made : ∀ a ∈ new, P (row a)) : ∀ r ∈ rows.filter keep ++ new.map row, P r := by
  intro r member
  rcases List.mem_append.mp member with kept | isNew
  · exact old r (List.mem_filter.mp kept).1
  · obtain ⟨a, isPart, rfl⟩ := List.mem_map.mp isNew
    exact made a isPart

/-- Keys that are distinct within each run stay so when the rows of one are replaced. -/
theorem nodup_replaced {owner key : ρ → String} {idOf : α → String}
    (own : ∀ a, owner (row a) = runId) (same : ∀ a, key (row a) = idOf a)
    (old : ∀ id, ((rows.filter fun r => owner r == id).map key).Nodup)
    (distinct : (new.map idOf).Nodup) (id : String) :
    ((((rows.filter fun r => owner r != runId) ++ new.map row).filter
      fun r => owner r == id).map key).Nodup := by
  by_cases isOwner : id = runId
  · subst isOwner
    rw [filter_own owner row own, List.map_map, Function.comp_def]
    simp only [same]
    exact distinct
  · rw [filter_replaced owner row own isOwner]
    exact old id

end Replaced

theorem Written.withRun (h : t.Written) (admits : t.Admits run)
    (proper : ∀ time ∈ run.times, time.Proper) : (t.withRun run).Written where
  runs r member := by
    rcases mem_putRun member with rfl | old
    · exact ⟨run, proper, rfl⟩
    · exact h.runs r old
  phases := forall_replaced h.phases fun p member =>
    ⟨run.id, p, fun time given => proper time (TestRun.mem_times.mpr (by grind)), rfl⟩
  steps := forall_replaced h.steps fun s member =>
    ⟨run.id, s, fun time given => proper time (TestRun.mem_times.mpr (by grind)), rfl⟩
  measurements := forall_replaced h.measurements fun m member =>
    ⟨run.id, m, proper m.timestamp (TestRun.mem_times.mpr (by grind)), rfl⟩
  phaseIds := nodup_replaced (fun _ => rfl) (fun _ => rfl) h.phaseIds admits.phases
  stepIds := nodup_replaced (fun _ => rfl) (fun _ => rfl) h.stepIds admits.steps
  measurementIds := by
    have others : (t.withoutParts run.id).measurementIds.Nodup :=
      h.measurementIds.sublist (List.filter_sublist.map _)
    obtain ⟨own, unseen⟩ := fresh_withoutParts.mpr ⟨admits.measurements, admits.unclaimed⟩
    have ids : (t.withRun run).measurementIds =
        (t.withoutParts run.id).measurementIds ++ run.ledger.entries.map (·.id) := by
      simp [Tables.measurementIds, Tables.withRun, withoutParts, MeasurementRow.ofMeasurement]
    rw [ids]
    refine List.nodup_append.mpr ⟨others, own, fun id kept new isNew same => ?_⟩
    exact unseen new isNew (same ▸ kept)

theorem readAll_ok {α ρ : Type} {part : StoredPart} {read : ρ → Option α} {rows : List ρ}
    {values : List α} : readAll part read rows = .ok values ↔ rows.mapM read = some values := by
  unfold readAll
  split <;> simp [*]

/-- A run that is loaded is read of its row and the rows of its parts. -/
theorem loadRun_some (loaded : t.loadRun runId = .ok (some run)) :
    ∃ row outline, t.run? runId = some row ∧ row.toRun? = some outline ∧
      (t.phases.filter fun r => r.runId == runId).mapM PhaseRow.toPhase? = some run.phases ∧
      (t.steps.filter fun r => r.runId == runId).mapM StepRow.toStep? = some run.steps ∧
      (t.measurements.filter fun r => r.runId == runId).mapM MeasurementRow.toMeasurement? =
        some run.ledger.entries ∧
      run = { outline with phases := run.phases, steps := run.steps, ledger := run.ledger } := by
  unfold loadRun at loaded
  split at loaded
  · cases loaded
  · rename_i row found
    split at loaded
    · cases loaded
    · rename_i outline read
      obtain ⟨phases, readPhases, loaded⟩ := bind_ok loaded
      obtain ⟨steps, readSteps, loaded⟩ := bind_ok loaded
      obtain ⟨ledger, readLedger, loaded⟩ := bind_ok loaded
      obtain ⟨entries, readEntries, rfl⟩ := map_ok readLedger
      cases loaded
      exact ⟨row, outline, found, read, readAll_ok.mp readPhases, readAll_ok.mp readSteps,
        readAll_ok.mp readEntries, rfl⟩

theorem loadRun_id (loaded : t.loadRun runId = .ok (some run)) : run.id = runId := by
  obtain ⟨row, outline, found, read, _, _, _, whole⟩ := loadRun_some loaded
  have owner : row.id = runId := by simpa using List.find?_some found
  rw [whole, ← owner]
  exact show outline.id = row.id from RunRow.toRun_id read

theorem loadRun_verdicts (loaded : t.loadRun runId = .ok (some run)) :
    ∀ e ∈ run.acceptance, ∀ v, e.value = some v → v.Within (Json.levels - 3) := by
  obtain ⟨row, outline, _, read, _, _, _, whole⟩ := loadRun_some loaded
  have verdicts : run.acceptance = outline.acceptance := by rw [whole]
  rw [verdicts]
  exact RunRow.toRun_verdicts read

/-- A run that is loaded can be written back as it is. -/
theorem Written.restored (h : t.Written) (loaded : t.loadRun runId = .ok (some run)) :
    run.Restored := by
  have id := loadRun_id loaded
  obtain ⟨row, outline, found, read, phases, steps, entries, whole⟩ := loadRun_some loaded
  have isRow := h.runs row (List.mem_of_find?_eq_some found)
  obtain ⟨created, started, completed, parameters⟩ := isRow.outline read
  rw [whole]
  refine ⟨created, started, completed, parameters, fun p member => ?_, fun s member => ?_,
    fun m member => ?_, fun m member => ?_⟩
  · obtain ⟨r, isRow, read⟩ := exists_of_mapM phases member
    exact (h.phases r (List.mem_filter.mp isRow).1).timed read
  · obtain ⟨r, isRow, read⟩ := exists_of_mapM steps member
    exact (h.steps r (List.mem_filter.mp isRow).1).timed read
  · obtain ⟨r, isRow, read⟩ := exists_of_mapM entries member
    exact (h.measurements r (List.mem_filter.mp isRow).1).restored read
  · obtain ⟨r, isRow, read⟩ := exists_of_mapM entries member
    have owner : r.runId = runId := by simpa using (List.mem_filter.mp isRow).2
    rw [← whole, id, ← owner]
    exact (MeasurementRow.toMeasurement_ids read).2

/-- A run that is loaded is admitted again. -/
theorem Written.admits (h : t.Written) (loaded : t.loadRun runId = .ok (some run)) :
    t.Admits run := by
  have id := loadRun_id loaded
  have restored := h.restored loaded
  obtain ⟨_, _, _, _, phases, steps, entries, _⟩ := loadRun_some loaded
  refine ⟨?_, ?_, ?_, ?_, fun m member => (restored.entries m member).value.number⟩
  · rw [mapM_keys (fun _ _ => PhaseRow.toPhase_id) phases]
    exact h.phaseIds runId
  · rw [mapM_keys (fun _ _ => StepRow.toStep_id) steps]
    exact h.stepIds runId
  · rw [mapM_keys (fun _ _ read => (MeasurementRow.toMeasurement_ids read).1) entries]
    exact h.measurementIds.sublist (List.filter_sublist.map _)
  · intro m member r isRow same
    obtain ⟨own, isOwn, read⟩ := exists_of_mapM entries member
    obtain ⟨isOwn, owner⟩ := List.mem_filter.mp isOwn
    have ids := (MeasurementRow.toMeasurement_ids read).1
    rw [List.inj_on_of_nodup_map h.measurementIds isRow isOwn (same.trans ids), id]
    simpa using owner

end Tables

section Reviewed

variable {t : Tables} {run next : TestRun}

/-- A review leaves a run as easy to save as it was. -/
theorem Tables.Admits.reviewed (h : t.Admits run) (reviewed : run.Reviewed next) :
    t.Admits next := by
  have id : next.id = run.id := by rw [reviewed.same]
  have phases : next.phases = run.phases := by rw [reviewed.same]
  have steps : next.steps = run.steps := by rw [reviewed.same]
  have ids : next.ledger.entries.map (·.id) = run.ledger.entries.map (·.id) := by
    refine map_eq_of_forall₂ (fun m n reviewed => ?_) reviewed.entries
    rw [reviewed]
  refine ⟨phases ▸ h.phases, steps ▸ h.steps, ids ▸ h.measurements, ?_, ?_⟩
  · intro n member r isRow same
    obtain ⟨m, isEntry, marked⟩ := exists_of_forall₂ reviewed.entries member
    rw [marked] at same
    exact id ▸ h.unclaimed m isEntry r isRow same
  · intro n member
    obtain ⟨m, isEntry, marked⟩ := exists_of_forall₂ reviewed.entries member
    rw [marked]
    exact h.readings m isEntry

namespace TestRun

theorem Restored.reviewed (h : run.Restored) (reviewed : run.Reviewed next) : next.Restored := by
  have old : ∀ n ∈ next.ledger.entries, n.Restored ∧ n.runId = run.id := by
    intro n member
    obtain ⟨m, isEntry, marked⟩ := exists_of_forall₂ reviewed.entries member
    obtain ⟨value, timestamp, metadata⟩ := h.entries m isEntry
    rw [marked]
    exact ⟨⟨value, timestamp, metadata⟩, h.owned m isEntry⟩
  rw [reviewed.same]
  exact { h with
    entries := fun n member => (old n member).1
    owned := fun n member => (old n member).2 }

theorem Restored.toMeasurement_ofMeasurement (h : run.Restored) {m : Measurement}
    (member : m ∈ run.ledger.entries) :
    (MeasurementRow.ofMeasurement run.id m).toMeasurement? = some m := by
  have entry := h.entries m member
  rw [← h.owned m member]
  simp [MeasurementRow.ofMeasurement, MeasurementRow.toMeasurement?,
    ValueColumns.toValue_again entry.value, entry.timestamp.ofColumn, MeasurementType.ofText_text,
    QualityFlag.ofText_text, Json.ofColumn_dictionary entry.metadata]

/-- A run that rows gave is loaded as it is when it is saved again, if its verdicts have room
    in their column. -/
theorem Restored.loaded (h : run.Restored)
    (verdicts : ∀ e ∈ run.acceptance, e.Storable (Json.levels - 3)) (t : Tables) :
    (t.withRun run).loadRun run.id = .ok (some run) := by
  have outline : ({ run with ledger := .empty } : TestRun).Storable :=
    { h with
      entries := fun _ member => absurd member List.not_mem_nil
      verdicts := verdicts }
  rw [Tables.loadRun_entries outline fun m member => h.toMeasurement_ofMeasurement member,
    List.map_id']

end TestRun

end Reviewed

namespace Store

variable {s : Store} {t : Tables}

/-- The verdicts of a run that is loaded have room in their column. -/
theorem loadRun_verdicts {runId : String} {run : TestRun}
    (loaded : s.loadRun runId = .ok (some run)) :
    ∀ e ∈ run.acceptance, ∀ v, e.value = some v → v.Within (Json.levels - 3) := by
  obtain ⟨_, _, loaded⟩ := bind_ok loaded
  exact Tables.loadRun_verdicts loaded

theorem after_written (tables : s.tables = some t) (written : t.Written) (w : Write)
    (proper : ∀ run ∈ s.saves w, ∀ time ∈ run.times, time.Proper) :
    ∃ next, (s.after w).tables = some next ∧ next.Written := by
  cases answer : s.write w with
  | error e =>
      rw [after_refused answer]
      exact ⟨t, tables, written⟩
  | ok next =>
      obtain ⟨_, isTables, fits, rfl⟩ := write_ok.mp answer
      cases tables.symm.trans isTables
      have left : (s.after w).tables = some (w.put t) := by
        rw [after, answer]
        rfl
      refine ⟨_, left, ?_⟩
      cases w with
      | run run =>
          have saved : s.saves (.run run) = [run] := by
            unfold saves
            rw [answer]
          rw [saved, List.forall_mem_singleton] at proper
          exact written.withRun fits proper
      | findings id found => exact { written with }

/-- After any writes of runs with proper times the tables hold rows of these alone. -/
theorem afterAll_written {ws : List Write} (tables : s.tables = some t) (written : t.Written)
    (proper : ∀ run ∈ s.savesAll ws, ∀ time ∈ run.times, time.Proper) :
    ∃ next, (s.afterAll ws).tables = some next ∧ next.Written := by
  induction ws generalizing s t with
  | nil => exact ⟨t, tables, written⟩
  | cons w rest ih =>
      rw [savesAll, List.forall_mem_append] at proper
      obtain ⟨next, tables, written⟩ := after_written tables written w proper.1
      exact ih tables written proper.2

end Store

end Qualification
