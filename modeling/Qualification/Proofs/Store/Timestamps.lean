import Qualification.Proofs.Instant.Reading
import Qualification.Proofs.Store.Frame
import Qualification.Proofs.Store.RoundTrip

/-! # Times of measurements

The time of a measurement is handed in as a text or read off the clock. Its column gives it
back just if its year has four digits, so the run that it stands in is loaded again just if
all times in its ledger have such years.
-/

namespace Qualification

/-- A time that is handed in with a measurement, or is read off the clock. -/
inductive Instant.Given (t : Instant) : Prop where
  | handedIn {place : Document.Place} {node : Document.Node} :
      decode place node = .ok t → Given t
  | clock : t.Plain → Given t

theorem Instant.Given.proper {t : Instant} (h : t.Given) : t.Proper := by
  cases h with
  | handedIn decoded =>
      obtain ⟨_, scanned⟩ := decode_ok decoded
      exact read_proper scanned
  | clock plain => exact plain.proper

namespace Store

/-- A time that is given comes back from its column just if its year has four digits, and a
    saved run is loaded again just if all times in its ledger do. -/
theorem loads_given_times {p : ProtocolDefinition} {run : TestRun} {s next : Store}
    (reachable : TestRun.Reachable p run) (clocked : run.Clocked) (documented : run.Documented)
    (given : ∀ m ∈ run.ledger.entries, m.timestamp.Given) (saved : s.saveRun run = .ok next) :
    (∀ t : Instant, t.Given →
      Instant.ofColumn? t.column = if t.hasPlainYear then some t else none) ∧
    next.loadRun run.id =
      if run.ledger.entries.all fun m => m.timestamp.hasPlainYear then
        .ok (some run.unsignedZeros)
      else .error (.load .measurements) := by
  refine ⟨fun t given => given.proper.ofColumn_column, ?_⟩
  obtain ⟨t, _, _, rfl⟩ := write_ok.mp (show s.write (.run run) = .ok next from saved)
  have load : loadRun ⟨some (t.withRun run), s.checksRuns⟩ run.id =
      (t.withRun run).loadRun run.id := rfl
  rw [Write.put, load]
  split
  · rename_i plain
    have timed : run.Timed :=
      { clocked with
        timestamps := fun m member =>
          ⟨(given m member).proper, List.all_eq_true.mp plain m member⟩ }
    exact Tables.loadRun_withRun_self (reachable.storable timed documented)
      fun m member => (reachable.attributed m member).1.runId
  · rename_i far
    obtain ⟨m, member, far⟩ : ∃ m ∈ run.ledger.entries, ¬ m.timestamp.hasPlainYear := by
      simpa using far
    exact Tables.loadRun_withRun_far (reachable.outline_storable clocked documented) member far

end Store

/-- An illustration: a new year that a text gives by its offset. -/
def Instant.lateNewYear : Instant :=
  ⟨253402304399, 0⟩

theorem Instant.lateNewYear_far : ¬ lateNewYear.hasPlainYear := by decide

theorem Instant.lateNewYear_given : lateNewYear.Given :=
  .handedIn (show decode (Document.Place.root .json)
    (.value (.text "9999-12-31T23:59:59-01:00")) = .ok lateNewYear from rfl)

namespace TestRun

/-- An illustration: a run with a reading that was taken then. -/
def lateReading : TestRun :=
  ofTwoPhases.after [still .start,
    still (.record { NewMeasurement.reading "power" 210 with timestamp := some .lateNewYear })]

theorem lateReading_ledger : lateReading.ledger.entries =
    [⟨"reading-1", "run-1", "power", .numeric 210, none, .lateNewYear, none, none, .duringTest,
      .good, none, []⟩] := by
  rw [lateReading, ofTwoPhases, ofTwoPhases_steps]
  rfl

theorem ofTwoPhases_clocked : ofTwoPhases.Clocked := by
  refine ⟨default_plain, nofun, nofun, fun ph member => ?_, fun s member => ?_⟩
  · obtain ⟨_, _, rfl⟩ := List.mem_map.mp member
    exact ⟨nofun, nofun⟩
  · obtain ⟨_, _, member⟩ := List.mem_flatMap.mp member
    obtain ⟨_, _, rfl⟩ := List.mem_map.mp member
    exact ⟨nofun, nofun⟩

theorem lateReading_reachable : Reachable .twoPhases lateReading :=
  (Reachable.created ofTwoPhases_created).after _

/-- Starting the run and recording leave its phases and steps alone. -/
theorem lateReading_clocked : lateReading.Clocked :=
  { ofTwoPhases_clocked with
    startedAt := fun _ isStart => Option.some.inj isStart ▸ default_plain }

theorem lateReading_documented : lateReading.Documented := by
  refine ⟨empty_storable rfl, fun m member v isJson => ?_, fun m member => ?_, ?_⟩
  · rw [lateReading_ledger, List.mem_singleton] at member
    subst member
    cases isJson
  · rw [lateReading_ledger, List.mem_singleton] at member
    subst member
    exact empty_storable rfl
  · exact fun _ member => absurd member List.not_mem_nil

theorem lateReading_given : ∀ m ∈ lateReading.ledger.entries, m.timestamp.Given := by
  rw [lateReading_ledger]
  exact List.forall_mem_singleton.mpr Instant.lateNewYear_given

theorem lateReading_admitted : Tables.empty.Admits lateReading :=
  lateReading_reachable.admits twoPhases_valid
    ⟨by simp [lateReading_ledger], fun _ _ _ row => absurd row List.not_mem_nil⟩

theorem lateReading_saved : Store.blank.init.saveRun lateReading =
    .ok ⟨some (Tables.empty.withRun lateReading), true⟩ :=
  (Store.write_ok (w := .run lateReading)).mpr ⟨Tables.empty, rfl, lateReading_admitted, rfl⟩

/-- The store takes the run, and does not give it back. -/
theorem lateReading_lost : Instant.lateNewYear.Given ∧
    Instant.ofColumn? Instant.lateNewYear.column ≠ some .lateNewYear ∧
      ∃ next, Store.blank.init.saveRun lateReading = .ok next ∧
        next.loadRun lateReading.id = .error (.load .measurements) := by
  have unread := Instant.ofColumn_far Instant.lateNewYear_far
  obtain ⟨m, isEntry, time⟩ : ∃ m ∈ lateReading.ledger.entries, m.timestamp = .lateNewYear := by
    rw [lateReading_ledger]
    exact ⟨_, List.mem_singleton_self _, rfl⟩
  refine ⟨Instant.lateNewYear_given, by simp [unread], _, lateReading_saved, ?_⟩
  have outline := lateReading_reachable.outline_storable lateReading_clocked lateReading_documented
  have load : Store.loadRun ⟨some (Tables.empty.withRun lateReading), true⟩ lateReading.id =
      (Tables.empty.withRun lateReading).loadRun lateReading.id := rfl
  rw [load]
  exact Tables.loadRun_withRun_far outline isEntry (time ▸ Instant.lateNewYear_far)

theorem lateReading_loaded :
    (Instant.lateNewYear.Given ∧ Instant.ofColumn? Instant.lateNewYear.column =
      if Instant.lateNewYear.hasPlainYear then some .lateNewYear else none) ∧
    Reachable .twoPhases lateReading ∧ lateReading.Clocked ∧ lateReading.Documented ∧
      (∀ m ∈ lateReading.ledger.entries, m.timestamp.Given) ∧
      Store.blank.init.saveRun lateReading =
        .ok ⟨some (Tables.empty.withRun lateReading), true⟩ ∧
      Store.loadRun ⟨some (Tables.empty.withRun lateReading), true⟩ lateReading.id =
        if lateReading.ledger.entries.all fun m => m.timestamp.hasPlainYear then
          .ok (some lateReading.unsignedZeros)
        else .error (.load .measurements) := by
  obtain ⟨times, loaded⟩ := Store.loads_given_times lateReading_reachable lateReading_clocked
    lateReading_documented lateReading_given lateReading_saved
  exact ⟨⟨Instant.lateNewYear_given, times _ Instant.lateNewYear_given⟩, lateReading_reachable,
    lateReading_clocked, lateReading_documented, lateReading_given, lateReading_saved, loaded⟩

end TestRun

end Qualification
