import Qualification.Proofs.Instant.Document
import Qualification.Proofs.Json.Decoded
import Qualification.Proofs.Run.Creation
import Qualification.Proofs.Run.Result
import Qualification.Run.Codec

/-! # Runs in documents

A run that came about by operations is read back from its document, as it is declared and as
reports show it: every time that is there and every one that is not, the entries with values
of every kind, what is left out when it is empty and what is written as null. The values in a
run stand four levels below it, and a run that is read has no more levels than the reader.
-/

namespace Qualification

open Document Json

variable {depth : Nat} {f : Json → Json}

/-- A time that a program holds: its year is one of the calendar. -/
structure Instant.Writable (t : Instant) : Prop where
  proper : t.Proper
  year : isYear t.day.year

theorem Instant.carries {t : Instant} (hf : Arranges f) (writable : t.Writable) :
    Carries depth decode (f t.toJson) t := by
  rw [toJson, hf.text]
  refine ⟨.text _, nofun, fun place deep => ?_⟩
  have read : read t.toText = .ok t := read_toText writable.proper writable.year
  simp [decode, Node.ofJson, read]

def PhaseRecord.times (p : PhaseRecord) : List Instant :=
  p.startedAt.toList ++ p.completedAt.toList

theorem PhaseRecord.mem_times {p : PhaseRecord} {t : Instant} :
    t ∈ p.times ↔ p.startedAt = some t ∨ p.completedAt = some t := by
  simp [times]

def StepRecord.times (s : StepRecord) : List Instant :=
  s.startedAt.toList ++ s.completedAt.toList

theorem StepRecord.mem_times {s : StepRecord} {t : Instant} :
    t ∈ s.times ↔ s.startedAt = some t ∨ s.completedAt = some t := by
  simp [times]

/-- All times in a run, those of its parts and measurements among them. -/
def TestRun.times (run : TestRun) : List Instant :=
  run.createdAt :: run.startedAt.toList ++ run.completedAt.toList ++
    run.phases.flatMap PhaseRecord.times ++ run.steps.flatMap StepRecord.times ++
      run.ledger.entries.map (·.timestamp)

theorem TestRun.mem_times {run : TestRun} {t : Instant} : t ∈ run.times ↔
    t = run.createdAt ∨ run.startedAt = some t ∨ run.completedAt = some t ∨
      (∃ p ∈ run.phases, t ∈ p.times) ∨ (∃ s ∈ run.steps, t ∈ s.times) ∨
        ∃ m ∈ run.ledger.entries, m.timestamp = t := by
  simp [times]

/-- What is known of every time in a run, part by part. -/
structure TestRun.EachTime (P : Instant → Prop) (run : TestRun) : Prop where
  createdAt : P run.createdAt
  startedAt : ∀ t, run.startedAt = some t → P t
  completedAt : ∀ t, run.completedAt = some t → P t
  phases : ∀ p ∈ run.phases, ∀ t ∈ p.times, P t
  steps : ∀ s ∈ run.steps, ∀ t ∈ s.times, P t
  entries : ∀ m ∈ run.ledger.entries, P m.timestamp

theorem TestRun.eachTime {run : TestRun} {P : Instant → Prop} (each : ∀ t ∈ run.times, P t) :
    run.EachTime P where
  createdAt := each _ (mem_times.mpr (.inl rfl))
  startedAt t given := each t (mem_times.mpr (.inr (.inl given)))
  completedAt t given := each t (mem_times.mpr (.inr (.inr (.inl given))))
  phases p isPhase t member := each t (mem_times.mpr (by grind))
  steps s isStep t member := each t (mem_times.mpr (by grind))
  entries m member := each _ (mem_times.mpr (by grind))

theorem PhaseRecord.carries {ph : PhaseRecord} (hf : Arranges f)
    (times : ∀ t ∈ ph.times, t.Writable) : Carries (depth + 1) decode (f ph.toJson) ph :=
  have started := fun t given => times t (mem_times.mpr (.inl given))
  have completed := fun t given => times t (mem_times.mpr (.inr given))
  Record.Fills.map PhaseRecord.mk (.field (.text ph.phaseId))
    |>.seq (.field (.word ph.status.ofText_text))
    |>.seq (.nullable fun t given => Instant.carries hf (started t given))
    |>.seq (.nullable fun t given => Instant.carries hf (completed t given))
    |>.arranged hf (by decide)
      (by simp [hf.text, hf.ofOption, Instant.toJson?, Function.comp_def])
      "PhaseRecord"

/-- A step is read back if its position fits a word. -/
theorem StepRecord.carries {s : StepRecord} (hf : Arranges f)
    (sequence : s.sequence < Word.count 32) (times : ∀ t ∈ s.times, t.Writable) :
    Carries (depth + 1) decode (f s.toJson) s :=
  have started := fun t given => times t (mem_times.mpr (.inl given))
  have completed := fun t given => times t (mem_times.mpr (.inr given))
  Record.Fills.map StepRecord.mk (.field (.text s.stepId))
    |>.seq (.field (.text s.phaseId))
    |>.seq (.field (.natBelow (by decide) sequence "u32"))
    |>.seq (.field (.text s.action))
    |>.seq (.field (.word s.status.ofText_text))
    |>.seq (.nullable fun b _ => .bool b)
    |>.seq (.nullable fun s _ => .text s)
    |>.seq (.nullable fun t given => Instant.carries hf (started t given))
    |>.seq (.nullable fun t given => Instant.carries hf (completed t given))
    |>.arranged hf (by decide)
      (by simp [hf.text, hf.ofNat, hf.ofText?, hf.comp_bool, hf.ofOption,
        Instant.toJson?, Function.comp_def])
      "StepRecord"

theorem MeasuredValue.storable_of_finite {v : MeasuredValue} (finite : v.IsFinite)
    (json : ∀ w, v = .json w → w.Storable depth) : v.Storable depth := by
  cases v with
  | numeric x => exact finite x rfl
  | json w => exact json w rfl
  | text | boolean => trivial

theorem MeasuredValue.ofJson_finite {v : Json} (writable : v.Writable) :
    (MeasuredValue.ofJson v).IsFinite := by
  intro x isReading
  cases writable with
  | integer held =>
      have range := Word.holds_iff.mp held
      cases isReading
      exact Binary64.ofInt_isFinite (by omega)
  | float finite =>
      cases isReading
      exact finite
  | _ => cases isReading

theorem MeasuredValue.ofJson_storable {v : Json} (storable : v.Storable depth) :
    (MeasuredValue.ofJson v).Storable depth := by
  refine storable_of_finite (ofJson_finite storable.writable) fun w isJson => ?_
  cases storable <;> cases isJson
  all_goals constructor <;> assumption

theorem MeasuredValue.ofJson_within {v : Json} (storable : v.Storable depth) :
    (MeasuredValue.ofJson v).Within depth := by
  intro w isJson
  have storable := ofJson_storable storable
  rwa [isJson] at storable

/-- A measurement whose data have at most so many levels. -/
structure Measurement.Shallow (depth : Nat) (m : Measurement) : Prop where
  value : m.value.Within depth
  metadata : Json.Storable (depth + 1) (.object m.metadata)

theorem Measurement.carries {m : Measurement} (hf : Arranges f)
    (timestamp : m.timestamp.Writable) (finite : m.value.IsFinite) (shallow : m.Shallow depth) :
    Carries (depth + 2) decode (f m.toJson) m :=
  have value := MeasuredValue.storable_of_finite finite shallow.value
  have metadata : ∀ v,
      (if m.metadata.isEmpty then none else some (f (.object m.metadata))) = some v →
        Carries (depth + 1) (Decoder.dictionary Decoder.json) v m.metadata := by
    intro v given
    split at given
    · cases given
    · cases given
      exact hf.dictionary shallow.metadata
  Record.Fills.map Measurement.mk (.field (.text m.id))
    |>.seq (.field (.text m.runId))
    |>.seq (.field (.text m.parameter))
    |>.seq (.field (MeasuredValue.carries hf value))
    |>.seq (.optional fun s _ => .text s)
    |>.seq (.field (Instant.carries hf timestamp))
    |>.seq (.optional fun s _ => .text s)
    |>.seq (.optional fun s _ => .text s)
    |>.seq (.field (.word m.type.ofText_text))
    |>.seq (.field (.word m.flag.ofText_text))
    |>.seq (.optional fun s _ => .text s)
    |>.seq (.defaulted metadata (by simp))
    |>.arranged hf (by decide)
      (by simp [hf.text, hf.comp_text, apply_ite (Dictionary.mapValues f)]) "Measurement"

theorem Measurement.produces_decode : decode.Produces (depth + 2) (Shallow depth) :=
  Record.Makes.readAs (.seq (.withDefault Decoder.produces_dictionary .empty) <|
    .skip <| .skip <| .skip <| .skip <| .skip <| .skip <| .skip <|
    .seq (.required MeasuredValue.produces_decode) <| .skip <| .skip <|
    .skipFirst fun _ _ _ _ within _ _ _ _ _ _ _ _ metadata => ⟨within, metadata⟩) _ _

theorem Ledger.carries {l : Ledger} (hf : Arranges f)
    (timestamps : ∀ m ∈ l.entries, m.timestamp.Writable)
    (finite : ∀ m ∈ l.entries, m.value.IsFinite) (shallow : ∀ m ∈ l.entries, m.Shallow depth) :
    Carries (depth + 3) decode (f l.toJson) l := by
  have entries : Carries (depth + 3) (Decoder.list Measurement.decode) (f l.toJson) l.entries := by
    rw [toJson, hf.ofList]
    exact .list fun m member =>
      Measurement.carries hf (timestamps m member) (finite m member) (shallow m member)
  refine ⟨entries.writable, entries.notNull, fun place deep => ?_⟩
  simp [decode, entries.gives place deep, Except.map]

theorem Ledger.produces_decode :
    decode.Produces (depth + 3) fun l => ∀ m ∈ l.entries, m.Shallow depth := by
  intro place node l reads read
  obtain ⟨entries, each, rfl⟩ := map_ok read
  exact Measurement.produces_decode.list place node entries reads each

namespace TestRun

variable {run : TestRun} {p : ProtocolDefinition}

/-- A run as a program holds it: its times are in the calendar, and its steps are numbered in
    words. -/
structure Writable (run : TestRun) : Prop where
  times : ∀ t ∈ run.times, t.Writable
  sequences : ∀ s ∈ run.steps, s.sequence < Word.count 32

/-- A run whose data have so few levels that its document has at most four more than given.
    The verdicts stand at the depth of the ledger, and the parameters two levels above. -/
structure Shallow (depth : Nat) (run : TestRun) : Prop where
  entries : ∀ m ∈ run.ledger.entries, m.Shallow depth
  parameters : Json.Storable (depth + 3) (.object run.parameters)
  verdicts : ∀ e ∈ run.acceptance, ∀ v, e.value = some v → v.Within depth

theorem Shallow.mono {less : Nat} (h : run.Shallow less) (enough : less ≤ depth) :
    run.Shallow depth where
  entries m member :=
    ⟨(h.entries m member).value.mono enough, (h.entries m member).metadata.mono (by omega)⟩
  parameters := h.parameters.mono (by omega)
  verdicts e member v isValue := (h.verdicts e member v isValue).mono enough

theorem Reachable.parameters_sorted (reachable : Reachable p run) : run.parameters.Sorted := by
  induction reachable with
  | created created =>
      obtain ⟨settled, resolved, rfl⟩ := map_ok created
      have empty : Dictionary.Sorted ([] : Dictionary Json) := List.Pairwise.nil
      exact settled_sorted empty (resolveParameters_ok.mp resolved).2
  | called c _ ih =>
      rw [(call_changes _ c).advances.parameters]
      exact ih

/-- The verdicts of a run are on the data in it. -/
theorem Reachable.shallow (reachable : Reachable p run)
    (entries : ∀ m ∈ run.ledger.entries, m.Shallow depth)
    (parameters : ∀ e ∈ run.parameters, e.2.Storable depth) : run.Shallow depth where
  entries := entries
  parameters := .object reachable.parameters_sorted fun e member =>
    (parameters e member).mono (by omega)
  verdicts e member v isValue := by
    rcases mem_values.mp (reachable.sourced e member v isValue) with
      ⟨m, isEntry, rfl⟩ | ⟨d, isParameter, rfl⟩
    · exact (entries m isEntry).value
    · exact MeasuredValue.ofJson_within (parameters d isParameter)

theorem Shallow.finiteParameters (h : run.Shallow depth) : run.FiniteParameters := by
  intro e member
  cases h.parameters.writable with
  | object each => exact MeasuredValue.ofJson_finite (each e member)

/-- A run is read back from its document, however documents are arranged. -/
theorem Reachable.carries (reachable : Reachable p run) (writable : run.Writable)
    (shallow : run.Shallow depth) (hf : Arranges f) :
    Carries (depth + 4) decode (f run.toJson) run :=
  have finite : ∀ m ∈ run.ledger.entries, m.value.IsFinite := fun m member =>
    (reachable.attributed m member).1.finite
  have verdicts : ∀ e ∈ run.acceptance, e.Storable depth := fun e member v isValue =>
    have finite := reachable.founded.verdicts shallow.finiteParameters e member v isValue
    MeasuredValue.storable_of_finite finite (shallow.verdicts e member v isValue)
  have times := eachTime writable.times
  Record.Fills.map TestRun.mk (.field (.text run.id))
    |>.seq (.field (.text run.protocolId))
    |>.seq (.field (.text run.protocolVersion))
    |>.seq (.field (.text run.specimenId))
    |>.seq (.field (.text run.operator))
    |>.seq (.field (hf.dictionary shallow.parameters))
    |>.seq (.field (.word run.status.ofText_text))
    |>.seq (.field (.word run.result.ofText_text))
    |>.seq (.optional fun s _ => .text s)
    |>.seq (.field (Instant.carries hf times.createdAt))
    |>.seq (.nullable fun t given => Instant.carries hf (times.startedAt t given))
    |>.seq (.nullable fun t given => Instant.carries hf (times.completedAt t given))
    |>.seq (.field (.list fun ph member => PhaseRecord.carries hf (times.phases ph member)))
    |>.seq (.field (.list fun s member =>
      StepRecord.carries hf (writable.sequences s member) (times.steps s member)))
    |>.seq (.field (Ledger.carries hf times.entries finite shallow.entries))
    |>.seq (.field (.list fun e member => Evaluation.carries hf (verdicts e member)))
    |>.arranged hf (by decide)
      (by simp [hf.text, hf.comp_text, hf.ofOption, hf.ofList, Instant.toJson?, Function.comp_def])
      "TestRun"

/-- Whatever run is read of a text has no more levels than the reader goes down. -/
theorem produces_decode : decode.Produces (depth + 4) (Shallow depth) :=
  Record.Makes.readAs (.seq
    (.withDefault Evaluation.produces_decode.list (List.forall_mem_nil _)) <|
    .seq (.required Ledger.produces_decode) <| .skip <| .skip <| .skip <| .skip <| .skip <|
    .skip <| .skip <| .skip <|
    .seq (.withDefault Decoder.produces_dictionary .empty) <|
    .skip <| .skip <| .skip <| .skip <|
    .skipFirst fun _ _ _ _ _ _ parameters _ _ _ _ _ _ _ _ _ entries _ verdicts =>
      ⟨entries, parameters, verdicts⟩) _ _

end TestRun

end Qualification
