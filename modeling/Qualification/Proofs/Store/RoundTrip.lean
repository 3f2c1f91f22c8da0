import Qualification.Proofs.Run.Coherence
import Qualification.Proofs.Run.Document
import Qualification.Proofs.Store.Loading

/-! # Saving and loading

A run that came about by operations is saved and loaded as it was, if its times and the
values in its columns of JSON text can be read back. The findings of a stored run are too.
-/

namespace Qualification

namespace TestRun

/-- A run all of whose times have years of four digits. -/
structure Timed (run : TestRun) : Prop where
  createdAt : run.createdAt.Plain
  startedAt : PlainOrNull run.startedAt
  completedAt : PlainOrNull run.completedAt
  phases : ∀ p ∈ run.phases, p.Timed
  steps : ∀ s ∈ run.steps, s.Timed
  timestamps : ∀ m ∈ run.ledger.entries, m.timestamp.Plain

theorem timed_of_times {run : TestRun} (each : ∀ time ∈ run.times, time.Plain) : run.Timed :=
  have each := eachTime each
  { createdAt := each.createdAt
    startedAt := each.startedAt
    completedAt := each.completedAt
    phases := fun p member =>
      ⟨fun t given => each.phases p member t (PhaseRecord.mem_times.mpr (.inl given)),
        fun t given => each.phases p member t (PhaseRecord.mem_times.mpr (.inr given))⟩
    steps := fun s member =>
      ⟨fun t given => each.steps s member t (StepRecord.mem_times.mpr (.inl given)),
        fun t given => each.steps s member t (StepRecord.mem_times.mpr (.inr given))⟩
    timestamps := each.entries }

/-- A run whose columns of JSON text give back what is written in them. The verdicts stand
    in one column, three levels above the values that they were given on. -/
structure Documented (run : TestRun) : Prop where
  parameters : Json.Storable Json.levels (.object run.parameters)
  values : ∀ m ∈ run.ledger.entries, ∀ v, m.value = .json v → v.Storable Json.levels
  metadata : ∀ m ∈ run.ledger.entries, Json.Storable Json.levels (.object m.metadata)
  verdicts : ∀ e ∈ run.acceptance, ∀ v, e.value = some (.json v) → v.Storable (Json.levels - 3)

/-- The verdicts of a run stand deepest in its columns. -/
theorem Shallow.documented {run : TestRun} (h : run.Shallow (Json.levels - 3)) :
    run.Documented where
  parameters := h.parameters
  values m member v isJson := ((h.entries m member).value v isJson).mono (by decide)
  metadata m member := (h.entries m member).metadata.mono (by decide)
  verdicts e member v isJson := h.verdicts e member _ isJson v rfl

/-- A run whose measurements have identities that no other measurement of a store has. -/
structure Distinct (run : TestRun) (t : Tables) : Prop where
  measurements : (run.ledger.entries.map (·.id)).Nodup
  unclaimed : ∀ m ∈ run.ledger.entries, ∀ r ∈ t.measurements, r.id = m.id → r.runId = run.id

variable {run : TestRun} {p : ProtocolDefinition} {t : Tables}

theorem Documented.finiteParameters (h : run.Documented) : run.FiniteParameters := by
  intro e member
  cases h.parameters.writable with
  | object each => exact MeasuredValue.ofJson_finite (each e member)

/-- A run whose own times, those that are read off the clock, have years of four digits. -/
structure Clocked (run : TestRun) : Prop where
  createdAt : run.createdAt.Plain
  startedAt : PlainOrNull run.startedAt
  completedAt : PlainOrNull run.completedAt
  phases : ∀ p ∈ run.phases, p.Timed
  steps : ∀ s ∈ run.steps, s.Timed

theorem Timed.clocked (h : run.Timed) : run.Clocked :=
  { h with }

theorem Reachable.outline_storable (reachable : Reachable p run) (clocked : run.Clocked)
    (documented : run.Documented) : ({ run with ledger := .empty } : TestRun).Storable where
  createdAt := clocked.createdAt
  startedAt := clocked.startedAt
  completedAt := clocked.completedAt
  parameters := documented.parameters
  phases := clocked.phases
  steps := clocked.steps
  entries _ member := absurd member List.not_mem_nil
  verdicts e member v isValue := by
    have finite := reachable.founded.verdicts documented.finiteParameters e member v isValue
    exact MeasuredValue.storable_of_finite finite fun w isJson =>
      documented.verdicts e member w (isValue.trans (congrArg some isJson))

theorem Reachable.storable (reachable : Reachable p run) (timed : run.Timed)
    (documented : run.Documented) : run.Storable :=
  { reachable.outline_storable timed.clocked documented with
    entries := fun m member =>
      have finite := (reachable.attributed m member).1.finite
      ⟨MeasuredValue.storable_of_finite finite (documented.values m member),
        timed.timestamps m member, documented.metadata m member⟩ }

theorem Reachable.admits (valid : Validation.check p = .ok ()) (reachable : Reachable p run)
    (distinct : run.Distinct t) : t.Admits run where
  phases := (reachable.coherent valid).wellFormed.phaseIds
  steps := stepIds_nodup (reachable.coherent valid).wellFormed
  measurements := distinct.measurements
  unclaimed := distinct.unclaimed
  readings m member x isReading := by
    have finite := (reachable.attributed m member).1.finite x isReading
    exact Binary64.not_isNaN finite

end TestRun

namespace Store

/-- What is saved in a store is loaded from it again: a run of a valid protocol, but for the
    sign of a zero in its ledger, and the findings of a run in their order. -/
theorem loads_what_was_saved {p : ProtocolDefinition} (valid : Validation.check p = .ok ())
    {s : Store} {t : Tables} (tables : s.tables = some t) :
    (∀ run : TestRun, TestRun.Reachable p run → run.Timed → run.Documented → run.Distinct t →
      ∃ next, s.saveRun run = .ok next ∧ next.loadRun run.id = .ok (some run.unsignedZeros) ∧
        run.unsignedZeros == run) ∧
    ∀ (runId : String) (findings : List QcFinding), (t.run? runId).isSome →
      (∀ f ∈ findings, f.Storable) →
        ∃ next, s.saveFindings runId findings = .ok next ∧
          next.loadFindings runId = .ok findings := by
  constructor
  · intro run reachable timed documented distinct
    have storable := reachable.storable timed documented
    have saved := Tables.saveRun_ok.mpr ⟨reachable.admits valid distinct, rfl⟩
    have loaded : (t.withRun run).loadRun run.id = .ok (some run.unsignedZeros) :=
      Tables.loadRun_withRun_self storable fun m member => (reachable.attributed m member).1.runId
    refine ⟨{ s with tables := some (t.withRun run) }, ?_, ?_, TestRun.unsignedZeros_beq storable⟩
    · simp [saveRun, requireTables, tables, saved, bind, Except.bind, pure, Except.pure]
    · simpa [loadRun, requireTables, bind, Except.bind] using loaded
  · intro runId findings stored storable
    have saved : t.saveFindings s.checksRuns runId findings = .ok (t.withFindings runId findings) :=
      Tables.saveFindings_ok.mpr ⟨fun _ _ => stored, rfl⟩
    have loaded : (t.withFindings runId findings).loadFindings runId = .ok findings :=
      Tables.loadFindings_withFindings_self storable
    refine ⟨{ s with tables := some (t.withFindings runId findings) }, ?_, ?_⟩
    · simp [saveFindings, requireTables, tables, saved, bind, Except.bind, pure, Except.pure]
    · simpa [loadFindings, requireTables, bind, Except.bind] using loaded

end Store

namespace TestRun

/-- An illustration: a run with a value of each kind, one of them reviewed, and a verdict. -/
def varied : TestRun :=
  ofTwoPhases.after [numbered .start, numbered (.startStep "inspect"),
    numbered (.record (.reading "power" 210)),
    numbered (.record (.observation "sky" (.text "clear"))),
    numbered (.record (.observation "sealed" (.boolean true))),
    numbered (.record (.observation "cells" (.json (.array [.integer 60, .null])))),
    numbered (.flag "reading-0" .suspect none), numbered .evaluate]

theorem varied_values : varied.ledger.entries.map (·.value) =
    [.numeric 210, .text "clear", .boolean true, .json (.array [.integer 60, .null])] := by
  rw [varied, ofTwoPhases, ofTwoPhases_steps]
  rfl

theorem varied_verdicts : varied.acceptance.map (·.value) = [some (.numeric 210)] := by
  rw [varied, ofTwoPhases, ofTwoPhases_steps]
  rfl

theorem varied_times : ∀ time ∈ varied.times, time = default := by
  rw [varied, ofTwoPhases, ofTwoPhases_steps]
  decide +kernel

theorem varied_dictionaries : varied.parameters.isEmpty ∧
    (∀ m ∈ varied.ledger.entries, m.metadata.isEmpty) ∧
      (varied.ledger.entries.map (·.id)).Nodup := by
  rw [varied, ofTwoPhases, ofTwoPhases_steps]
  decide +kernel

theorem default_plain : (default : Instant).Plain :=
  ⟨.of_below (by decide), by decide⟩

theorem varied_timed : varied.Timed :=
  timed_of_times fun time member => varied_times time member ▸ default_plain

theorem empty_storable {d : Dictionary Json} (empty : d.isEmpty) :
    Json.Storable Json.levels (.object d) := by
  obtain rfl := List.isEmpty_iff.mp empty
  exact .empty

theorem varied_documented : varied.Documented := by
  obtain ⟨parameters, metadata, _⟩ := varied_dictionaries
  refine ⟨empty_storable parameters, fun m member v isJson => ?_,
    fun m member => empty_storable (metadata m member), fun e member v isJson => ?_⟩
  · have value : m.value ∈ varied.ledger.entries.map (·.value) := List.mem_map_of_mem member
    rw [varied_values, isJson] at value
    simp only [List.mem_cons, reduceCtorEq, List.not_mem_nil, or_false, false_or,
      MeasuredValue.json.injEq] at value
    subst value
    refine .array fun item isItem => ?_
    simp only [List.mem_cons, List.not_mem_nil, or_false] at isItem
    rcases isItem with rfl | rfl
    · exact .integer (by decide)
    · exact .null
  · have value : e.value ∈ varied.acceptance.map (·.value) := List.mem_map_of_mem member
    rw [varied_verdicts, isJson] at value
    simp at value

def variedFinding : QcFinding :=
  ⟨"completeness", .completeness, true, .info, .integer 4, .integer 4, "4 of 4 measured"⟩

theorem variedFinding_storable : variedFinding.Storable :=
  ⟨.integer (by decide), .integer (by decide)⟩

/-- An illustration: a store that the run is in already. -/
def variedStore : Store :=
  ⟨some (.withRun .empty varied), true⟩

theorem varied_distinct : varied.Distinct (.withRun .empty varied) := by
  refine ⟨varied_dictionaries.2.2, fun m member r isRow _ => ?_⟩
  obtain ⟨m, _, rfl⟩ := List.mem_map.mp isRow
  rfl

theorem varied_loaded :
    (∃ next, variedStore.saveRun varied = .ok next ∧
      next.loadRun varied.id = .ok (some varied.unsignedZeros) ∧
        varied.unsignedZeros == varied) ∧
    ∃ next, variedStore.saveFindings varied.id [variedFinding] = .ok next ∧
      next.loadFindings varied.id = .ok [variedFinding] := by
  obtain ⟨runs, findings⟩ := Store.loads_what_was_saved monitored_valid
    (s := variedStore) rfl
  refine ⟨runs varied (monitored_reachable _) varied_timed varied_documented varied_distinct,
    findings varied.id _ ?_ ?_⟩
  · have row := Tables.run?_putRun_self (.ofRun varied) []
    exact Option.isSome_iff_exists.mpr ⟨_, row⟩
  · intro f member
    obtain rfl := List.mem_singleton.mp member
    exact variedFinding_storable

end TestRun

end Qualification
