import Qualification.Proofs.Instant.Order
import Qualification.Proofs.Keyed
import Qualification.Proofs.Store.Frame
import Qualification.Proofs.Store.Loading

/-! # The list of runs

After any writes, accepted or not, the table of runs has one row for each run that was
saved, as it was saved last. The rows are sorted by their texts, so that the list is in the
order of time, newest first, as far as it can be read.
-/

namespace Qualification

namespace Instant

variable {s t : Instant}

theorem Plain.column_inj (first : s.Plain) (second : t.Plain) (same : s.column = t.column) :
    s = t := by
  have back := first.ofColumn
  rw [same, second.ofColumn] at back
  exact (Option.some.inj back).symm

end Instant

namespace Store

variable {s : Store} {w : Write} {saved : List TestRun} {run : TestRun} {id : String}

/-- The store that writes leave, one after the other. -/
def afterAll (s : Store) (ws : List Write) : Store :=
  ws.foldl after s

/-- The run that a write saves, if it is accepted. -/
def saves (s : Store) (w : Write) : List TestRun :=
  match w, s.write w with
  | .run run, .ok _ => [run]
  | _, _ => []

/-- The runs that writes save, in their order. -/
def savesAll (s : Store) : List Write → List TestRun
  | [] => []
  | w :: rest => s.saves w ++ (s.after w).savesAll rest

/-- The run under an identity as it was saved last. -/
def lastSave? (id : String) (saved : List TestRun) : Option TestRun :=
  (saved.filter fun run => run.id = id).getLast?

theorem lastSave?_append (id : String) (saved : List TestRun) (run : TestRun) :
    lastSave? id (saved ++ [run]) = if run.id = id then some run else lastSave? id saved := by
  rw [lastSave?, List.filter_append]
  split
  · rename_i same
    simp [same]
  · rename_i other
    simp [other, lastSave?]

theorem lastSave?_some (h : lastSave? id saved = some run) : run ∈ saved ∧ run.id = id := by
  have member := List.mem_of_getLast? h
  simpa using List.mem_filter.mp member

/-- A store holds just the rows of runs as they were saved last. -/
structure Holds (s : Store) (saved : List TestRun) (t : Tables) : Prop where
  tables : s.tables = some t
  ids : (t.runs.map (·.id)).Nodup
  rows : ∀ id, t.run? id = (lastSave? id saved).map .ofRun

end Store

namespace Tables

theorem putRun_ids (row : RunRow) (rows : List RunRow) : (putRun row rows).map (·.id) =
    if row.id ∈ rows.map (·.id) then rows.map (·.id) else rows.map (·.id) ++ [row.id] := by
  induction rows with
  | nil => rfl
  | cons first rest ih =>
      rw [putRun]
      by_cases same : first.id = row.id
      · simp [same]
      · have notFirst : row.id ∈ (first :: rest).map (·.id) ↔ row.id ∈ rest.map (·.id) := by
          simp [Ne.symm same]
        rw [if_neg same, List.map_cons, ih]
        simp only [notFirst]
        split <;> rfl

theorem putRun_nodup {row : RunRow} {rows : List RunRow} (unique : (rows.map (·.id)).Nodup) :
    ((putRun row rows).map (·.id)).Nodup := by
  rw [putRun_ids]
  split
  · exact unique
  · rename_i new
    refine List.nodup_append.mpr ⟨unique, List.nodup_singleton _, ?_⟩
    intro id member other isNew
    rw [List.mem_singleton.mp isNew]
    rintro rfl
    exact new member

end Tables

namespace Store

variable {s : Store} {w : Write} {saved : List TestRun} {run : TestRun} {id : String} {t : Tables}

/-- Saving a run replaces its row or adds one. -/
theorem Holds.withRun (h : s.Holds saved t) (run : TestRun) (checksRuns : Bool) :
    Holds ⟨some (t.withRun run), checksRuns⟩ (saved ++ [run]) (t.withRun run) := by
  refine ⟨rfl, Tables.putRun_nodup h.ids, fun id => ?_⟩
  · rw [lastSave?_append]
    split
    · rename_i same
      subst same
      exact Tables.run?_putRun_self (.ofRun run) t.runs
    · rename_i other
      rw [Tables.run?_withRun (Ne.symm other), h.rows]

theorem Holds.after (h : s.Holds saved t) (w : Write) :
    ∃ t, (s.after w).Holds (saved ++ s.saves w) t := by
  cases answer : s.write w with
  | error e =>
      have none : s.saves w = [] := by
        unfold saves
        rw [answer]
        cases w <;> rfl
      rw [after_refused answer, none, List.append_nil]
      exact ⟨t, h⟩
  | ok next =>
      obtain ⟨_, tables, _, rfl⟩ := write_ok.mp answer
      cases h.tables.symm.trans tables
      have left : s.after w = ⟨some (w.put t), s.checksRuns⟩ := by
        rw [Store.after, answer]
        rfl
      rw [left]
      cases w with
      | run run =>
          have one : s.saves (.run run) = [run] := by
            unfold saves
            rw [answer]
          rw [one]
          exact ⟨_, h.withRun run s.checksRuns⟩
      | findings id found =>
          have none : s.saves (.findings id found) = [] := rfl
          rw [none, List.append_nil]
          exact ⟨_, rfl, h.ids, h.rows⟩

theorem Holds.afterAll (h : s.Holds saved t) (ws : List Write) :
    ∃ t, (s.afterAll ws).Holds (saved ++ s.savesAll ws) t := by
  induction ws generalizing s saved t with
  | nil =>
      rw [savesAll, List.append_nil]
      exact ⟨t, h⟩
  | cons w rest ih =>
      obtain ⟨t, next⟩ := h.after w
      obtain ⟨t, last⟩ := ih next
      rw [List.append_assoc] at last
      exact ⟨t, last⟩

/-- Is a line of the list to come before another? Lines of one time are in the order of the
    octets of their identities. -/
def Newer (a b : RunSummary) : Prop :=
  b.createdAt.lt a.createdAt ∨
    a.createdAt = b.createdAt ∧ Text.octets a.runId < Text.octets b.runId

/-- A list with a line for each run that was saved, as it was saved last, newest first. -/
structure Lists (saved : List TestRun) (lines : List RunSummary) : Prop where
  ids : (lines.map (·.runId)).Nodup
  members : ∀ line, line ∈ lines ↔
    ∃ run, lastSave? line.runId saved = some run ∧ line = .ofRun run
  ordered : lines.Pairwise Newer

/-- Can the times in the line of a run be read back? -/
def Readable (run : TestRun) : Prop :=
  ∀ t, run.completedAt = some t → t.hasPlainYear

theorem newer_of_precedes {a b : TestRun} (first : a.createdAt.Plain) (second : b.createdAt.Plain)
    (different : a.id ≠ b.id) (precedes : (RunRow.ofRun a).precedes (.ofRun b)) :
    Newer (.ofRun a) (.ofRun b) := by
  rcases RunRow.precedes_iff.mp precedes with newer | ⟨same, before⟩
  · exact .inl ((second.column_lt_iff first).mp newer)
  · refine .inr ⟨first.column_inj second same, Text.lt_iff_octets.mp ?_⟩
    by_contra after
    exact different (String.le_antisymm before (String.not_lt.mp after))

theorem Holds.row (h : s.Holds saved t) {row : RunRow} (member : row ∈ t.runs) :
    ∃ run, lastSave? run.id saved = some run ∧ RunRow.ofRun run = row := by
  have found : t.run? row.id = some row := Keyed.find?_of_mem h.ids member
  rw [h.rows, Option.map_eq_some_iff] at found
  obtain ⟨run, last, same⟩ := found
  rw [← (lastSave?_some last).2] at last
  exact ⟨run, last, same⟩

theorem Holds.ofRun_mem (h : s.Holds saved t) (last : lastSave? id saved = some run) :
    RunRow.ofRun run ∈ t.runs := by
  have found := h.rows id
  rw [last] at found
  exact List.mem_of_find?_eq_some found

/-- The runs behind the rows of the table, in the order of the list. -/
theorem Holds.sorted (h : s.Holds saved t) : ∃ runs : List TestRun,
    runs.map .ofRun = t.runs.mergeSort RunRow.precedes ∧ (runs.map (·.id)).Nodup ∧
      ∀ run, run ∈ runs ↔ lastSave? run.id saved = some run := by
  have rows : ∀ row ∈ t.runs.mergeSort RunRow.precedes,
      ∃ run, lastSave? run.id saved = some run ∧ RunRow.ofRun run = row := fun row member =>
    h.row (List.mem_mergeSort.mp member)
  obtain ⟨runs, last, sorted⟩ := exists_map_eq rows
  have ids : (runs.map (·.id)).Nodup := by
    have perm := (List.mergeSort_perm t.runs RunRow.precedes).map (·.id)
    rw [← sorted, List.map_map] at perm
    exact perm.nodup_iff.mpr h.ids
  refine ⟨runs, sorted, ids, fun run => ⟨last run, fun isLast => ?_⟩⟩
  have member : RunRow.ofRun run ∈ t.runs.mergeSort RunRow.precedes :=
    List.mem_mergeSort.mpr (h.ofRun_mem isLast)
  rw [← sorted] at member
  obtain ⟨other, isRun, same⟩ := List.mem_map.mp member
  have sameId : other.id = run.id := congrArg RunRow.id same
  have isLast' := last other isRun
  rw [sameId, isLast, Option.some.injEq] at isLast'
  exact isLast' ▸ isRun

theorem Holds.lists (h : s.Holds saved t) (created : ∀ run ∈ saved, run.createdAt.Plain)
    (completed : ∀ run ∈ saved, ∀ u, run.completedAt = some u → u.Proper)
    (readable : ∀ id run, lastSave? id saved = some run → Readable run) :
    ∃ lines, s.listRuns = .ok lines ∧ Lists saved lines := by
  obtain ⟨runs, sorted, ids, last⟩ := h.sorted
  have isSaved : ∀ run ∈ runs, run ∈ saved := fun run member =>
    (lastSave?_some ((last run).mp member)).1
  have read : (t.runs.mergeSort RunRow.precedes).mapM RunRow.toSummary? =
      some (runs.map .ofRun) := by
    rw [← sorted]
    refine mapM_map_some fun run member => ?_
    refine RunRow.toSummary_ofRun (created run (isSaved run member)) fun u time => ⟨?_, ?_⟩
    · exact completed run (isSaved run member) u time
    · exact readable run.id run ((last run).mp member) u time
  have listed : s.listRuns = .ok (runs.map .ofRun) := by
    rw [listRuns, requireTables_ok.mpr h.tables]
    exact Tables.listRuns_ok.mpr read
  refine ⟨_, listed, ?_, fun line => ?_, ?_⟩
  · rw [List.map_map]
    exact ids
  · constructor
    · intro member
      obtain ⟨run, isRun, rfl⟩ := List.mem_map.mp member
      exact ⟨run, (last run).mp isRun, rfl⟩
    · rintro ⟨run, isLast, isLine⟩
      have sameId := (lastSave?_some isLast).2
      rw [← sameId] at isLast
      exact isLine ▸ List.mem_map_of_mem ((last run).mpr isLast)
  · have rows := List.pairwise_mergeSort RunRow.precedes_trans RunRow.precedes_total t.runs
    rw [← sorted, List.pairwise_map] at rows
    rw [List.pairwise_map]
    refine (rows.and (List.pairwise_map.mp ids)).imp_of_mem fun {a b} first second both => ?_
    exact newer_of_precedes (created a (isSaved a first)) (created b (isSaved b second))
      both.2 both.1

theorem Holds.lost (h : s.Holds saved t) (last : lastSave? id saved = some run)
    (far : ¬ Readable run) : s.listRuns = .error .list := by
  have late : ∃ late, run.completedAt = some late ∧ ¬ late.hasPlainYear := by
    simpa [Readable] using far
  rw [listRuns, requireTables_ok.mpr h.tables]
  exact Tables.listRuns_unread (h.ofRun_mem last) (RunRow.toSummary_far (.inr late))

theorem holds_init : blank.init.Holds [] .empty :=
  ⟨rfl, List.nodup_nil, fun _ => rfl⟩

/-- The texts of times are in the order of the times. After any writes the list has a line
    for each run that was saved, as it was saved last, newest first, unless such a run was
    completed outside the years of four digits: then there is no list. -/
theorem listRuns_afterAll {ws : List Write}
    (created : ∀ run ∈ blank.init.savesAll ws, run.createdAt.Plain)
    (completed : ∀ run ∈ blank.init.savesAll ws, ∀ t, run.completedAt = some t → t.Proper) :
    (∀ a b : Instant, a.Plain → b.Plain →
      (Text.octets a.column < Text.octets b.column ↔ a.lt b)) ∧
    ((∀ id run, lastSave? id (blank.init.savesAll ws) = some run → Readable run) →
      ∃ lines, (blank.init.afterAll ws).listRuns = .ok lines ∧
        Lists (blank.init.savesAll ws) lines) ∧
    ∀ id run, lastSave? id (blank.init.savesAll ws) = some run → ¬ Readable run →
      (blank.init.afterAll ws).listRuns = .error .list := by
  obtain ⟨t, holds⟩ := holds_init.afterAll ws
  refine ⟨fun a b first second => ?_, holds.lists created completed, fun id run last far => ?_⟩
  · rw [← Text.lt_iff_octets]
    exact first.column_lt_iff second
  · exact holds.lost last far

/-- An illustration: a run is saved, then a later one, then a run that is refused, since it
    has one phase twice, and then the first one again. -/
def history : List Write :=
  let first : TestRun := .bare "R-1" none
  let again : PhaseRecord := ⟨"a", .pending, none, none⟩
  [.run first,
    .run { first with id := "R-2", createdAt := ⟨1677657600, 5⟩ },
    .run { first with id := "R-2", phases := [again, again] },
    .run { first with operator := "p" }]

theorem history_saves : blank.init.savesAll history =
    [.bare "R-1" none, { TestRun.bare "R-2" none with createdAt := ⟨1677657600, 5⟩ },
      { TestRun.bare "R-1" none with operator := "p" }] := by
  rfl

theorem history_created : ∀ run ∈ blank.init.savesAll history, run.createdAt.Plain := by
  rw [history_saves]
  have plain (nanos : Nat) (below : nanos < Instant.second) : (Instant.mk 1677657600 nanos).Plain :=
    ⟨.of_below below, rfl⟩
  simp only [List.forall_mem_cons]
  exact ⟨plain 0 (by decide), plain 5 (by decide), plain 0 (by decide), by simp⟩

theorem history_completed : ∀ run ∈ blank.init.savesAll history, run.completedAt = none := by
  rw [history_saves]
  simp [TestRun.bare]

/-- An instant within a leap second comes before the second that follows, and the history
    leaves a list of two runs. -/
theorem history_listed :
    ((Instant.mk 1677657599 1500000000).Plain ∧ (Instant.mk 1677657600 0).Plain ∧
      (Text.octets (Instant.mk 1677657599 1500000000).column <
          Text.octets (Instant.mk 1677657600 0).column ↔
        (Instant.mk 1677657599 1500000000).lt ⟨1677657600, 0⟩)) ∧
    (∀ run ∈ blank.init.savesAll history, run.createdAt.Plain) ∧
      (∀ run ∈ blank.init.savesAll history, run.completedAt = none) ∧
      ∃ lines, (blank.init.afterAll history).listRuns = .ok lines ∧
        Lists (blank.init.savesAll history) lines := by
  have leap : (Instant.mk 1677657599 1500000000).Plain := ⟨⟨by decide, by decide⟩, by decide⟩
  have next : (Instant.mk 1677657600 0).Plain := ⟨.of_below (by decide), by decide⟩
  obtain ⟨texts, listed, _⟩ := listRuns_afterAll history_created fun run member t time => by
    cases (history_completed run member).symm.trans time
  refine ⟨⟨leap, next, texts _ _ leap next⟩, history_created, history_completed, ?_⟩
  refine listed fun id run last t time => ?_
  cases (history_completed run (lastSave?_some last).1).symm.trans time

/-- All saved runs are created in years of four digits, and there is no list. -/
theorem listRuns_afterLate :
    let ws : List Write := [.run (.bare "R-1" none), .run lateRun]
    blank.init.savesAll ws = [.bare "R-1" none, lateRun] ∧
      (∀ run ∈ blank.init.savesAll ws, run.createdAt.Plain) ∧
      ¬ ∃ lines, (blank.init.afterAll ws).listRuns = .ok lines ∧
        Lists (blank.init.savesAll ws) lines := by
  intro ws
  have saves : blank.init.savesAll ws = [.bare "R-1" none, lateRun] := rfl
  have created : (TestRun.bare "R-1" none).createdAt.Plain := ⟨.of_below (by decide), by decide⟩
  refine ⟨saves, ?_, ?_⟩
  · rw [saves]
    exact List.forall_mem_cons.mpr ⟨created, List.forall_mem_singleton.mpr created⟩
  · obtain ⟨t, holds⟩ := holds_init.afterAll ws
    have last : lastSave? "R-2" (blank.init.savesAll ws) = some lateRun := by
      rw [saves]
      rfl
    have late : ¬ Readable lateRun := fun readable => absurd (readable _ rfl) (by decide)
    rintro ⟨lines, listed, _⟩
    rw [holds.lost last late] at listed
    cases listed

end Store

end Qualification
