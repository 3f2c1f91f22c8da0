import Qualification.Proofs.Run.Entries

/-! # Reviews

A review sets the flag of one entry, and its notes if any are given, and the run is judged
anew. Nothing else in the run changes.
-/

namespace Qualification.TestRun

variable {run marked next : TestRun} {p : ProtocolDefinition} {id : String} {flag : QualityFlag}
  {notes : Option String} {m : Measurement}

/-- A run after a review: the entry of an identity has a new flag, and new notes if any were
    given, and the run is judged by what counts now. -/
structure Rejudged (p : ProtocolDefinition) (id : String) (flag : QualityFlag)
    (notes : Option String) (run next : TestRun) : Prop where
  entries : ∃ earlier m later, run.ledger.entries = earlier ++ m :: later ∧ m.id = id ∧
    (∀ e ∈ earlier ++ later, e.id ≠ id) ∧
      next.ledger.entries = earlier ++ { m with flag, notes := notes.or m.notes } :: later
  acceptance : next.acceptance =
    Acceptance.evaluate p.acceptanceCriteria next.ledger run.parameters
  /-- Only the result of a completed run follows its verdicts. -/
  result : next.result =
    if run.status = .completed then Acceptance.aggregate next.acceptance else run.result
  rest : next = { run with
    ledger := next.ledger, acceptance := next.acceptance, result := next.result }

theorem exists_flag_ok : (∃ m marked, run.flag id flag notes = .ok (m, marked)) ↔
    ∃ m ∈ run.ledger.entries, m.id = id := by
  have found : (∃ m, run.ledger.get? id = some m) ↔ ∃ m ∈ run.ledger.entries, m.id = id := by
    rw [← Option.isSome_iff_exists, Ledger.get?, List.find?_isSome]
    simp
  rw [← found]
  constructor
  · rintro ⟨_, _, accepted⟩
    obtain ⟨⟨m, isEntry, _⟩, _⟩ := flag_ok.mp accepted
    exact ⟨m, isEntry⟩
  · rintro ⟨m, isEntry⟩
    exact ⟨_, _, flag_ok.mpr ⟨⟨m, isEntry, rfl⟩, rfl⟩⟩

theorem flag_bound (flagged : run.flag id flag notes = .ok (m, marked)) :
    marked.BoundTo p ↔ run.BoundTo p := by
  obtain ⟨_, rfl⟩ := flag_ok.mp flagged
  exact Iff.rfl

theorem evaluate_bound (judged : run.evaluate p = .ok next) : next.BoundTo p := by
  obtain ⟨bound, rfl⟩ := evaluate_ok.mp judged
  split <;> exact bound

/-- Where no two entries share an identity, a new flag is that of one entry alone. -/
theorem setFlag_alone (unique : (run.ledger.entries.map (·.id)).Nodup)
    (found : run.ledger.get? id = some m) (flag : QualityFlag) (notes : Option String) :
    ∃ earlier m later, run.ledger.entries = earlier ++ m :: later ∧ m.id = id ∧
      (∀ e ∈ earlier ++ later, e.id ≠ id) ∧ (run.ledger.setFlag id flag notes).entries =
        earlier ++ { m with flag, notes := notes.or m.notes } :: later := by
  obtain ⟨earlier, later, split, owner, _, changed⟩ := setFlag_entries found flag notes
  refine ⟨earlier, m, later, split, owner, ?_, changed⟩
  rw [split, List.map_append, List.map_cons, List.nodup_middle, ← List.map_append, owner,
    List.nodup_cons] at unique
  intro e member same
  exact unique.1 (List.mem_map.mpr ⟨e, member, same⟩)

/-- What a review that is accepted makes of a run. -/
theorem rejudged_of_ok (unique : (run.ledger.entries.map (·.id)).Nodup)
    (flagged : run.flag id flag notes = .ok (m, marked)) (judged : marked.evaluate p = .ok next) :
    run.Rejudged p id flag notes next := by
  obtain ⟨⟨_, found, _⟩, rfl⟩ := flag_ok.mp flagged
  obtain ⟨_, rfl⟩ := evaluate_ok.mp judged
  have entries := setFlag_alone unique found flag notes
  split
  · rename_i completed
    have status : run.status = .completed := completed
    refine ⟨entries, rfl, ?_, rfl⟩
    rw [if_pos status]
    rfl
  · rename_i other
    have status : run.status ≠ .completed := other
    refine ⟨entries, rfl, ?_, rfl⟩
    rw [if_neg status]
    rfl

/-- A run of the protocol can be reviewed whatever its status, if the entry is there. -/
theorem exists_rejudged (unique : (run.ledger.entries.map (·.id)).Nodup)
    (recorded : ∃ m ∈ run.ledger.entries, m.id = id) (bound : run.BoundTo p)
    (flag : QualityFlag) (notes : Option String) : ∃ m marked next,
      run.flag id flag notes = .ok (m, marked) ∧ marked.evaluate p = .ok next ∧
        run.Rejudged p id flag notes next := by
  obtain ⟨m, marked, flagged⟩ := exists_flag_ok.mpr recorded
  have judged := evaluate_ok.mpr ⟨(flag_bound flagged).mpr bound, rfl⟩
  exact ⟨m, marked, _, flagged, judged, rejudged_of_ok unique flagged judged⟩

theorem Rejudged.reviewed (h : run.Rejudged p id flag notes next) : run.Reviewed next := by
  obtain ⟨earlier, m, later, split, _, _, changed⟩ := h.entries
  have same (entries : List Measurement) : List.Forall₂ Measurement.Reviewed entries entries :=
    List.forall₂_same.mpr fun _ _ => rfl
  refine ⟨h.rest, ?_, fun other => ?_⟩
  · rw [split, changed]
    exact List.rel_append (same earlier) (.cons rfl (same later))
  · rw [h.result, if_neg other]

end Qualification.TestRun
