import Qualification.Proofs.Protocol.Change
import Qualification.Proofs.Run.Document
import Qualification.Proofs.Session.Execution

/-! # What a session brings into a run

The data of a run that a session makes come from texts. Its parameters are defaults of the
protocol and overrides, all of them scalars, as each has passed the check of its declaration;
its entries are readings of the session, which stand five levels below the root of their text.
-/

namespace Qualification

open Document Json

variable {depth : Nat}

theorem Decoder.produces_natBelow (bound : Nat) (expected : String) :
    (Decoder.natBelow bound expected).Produces depth (· < bound) := by
  intro place node n _ read
  have settled {m : Int} (read : (if 0 ≤ m && m < bound then .ok m.toNat
      else place.fail (.invalidValue (.atom (.integer m)) expected)) = .ok n) : n < bound := by
    split at read
    · cases read
      rename_i within
      simp only [Bool.and_eq_true, decide_eq_true_eq] at within
      omega
    · cases read
  unfold Decoder.natBelow at read
  split at read
  · split at read
    · exact settled read
    · exact absurd read mismatch_ne_ok
  · split at read
    · exact settled read
    · exact absurd read mismatch_ne_ok
  · exact absurd read mismatch_ne_ok

namespace ParameterDef

theorem check_refuses {d : ParameterDef} {v : Json} (noNumber : v.toFloat? = none)
    (noText : v.toText? = none) (noBool : v.toBool? = none) : d.check v ≠ .ok () := by
  unfold check
  cases d.type <;> simp [noNumber, noText, noBool]

/-- A value that passes the check of a parameter is a scalar. -/
theorem storable_of_check {d : ParameterDef} {v : Json} (writable : v.Writable)
    (checked : d.check v = .ok ()) : v.Storable depth := by
  cases writable with
  | bool b => exact .bool b
  | integer held => exact .integer held
  | float finite => exact .float finite
  | text s => exact .text s
  | null | array | object => exact absurd checked (check_refuses rfl rfl rfl)

theorem produces_decode : decode.Produces (depth + 1) fun d =>
    ∀ v, d.default = some v → v.Writable :=
  Record.Makes.readAs (.seq (.optionalDefault Decoder.produces_json) <| .skip <| .skip <|
    .skip <| .skip <| .skipFirst fun _ _ _ _ _ _ known v given => (known v given).writable) _ _

end ParameterDef

theorem StepDef.produces_decode : decode.Produces (depth + 1) (·.sequence < Word.count 32) :=
  Record.Makes.readAs (.skip <| .skip <| .skip <| .skip <|
    .seq (.required (Decoder.produces_natBelow _ _)) <|
    .skipFirst fun _ _ bound _ _ _ _ => bound) _ _

theorem PhaseDef.produces_decode :
    decode.Produces (depth + 3) fun ph => ∀ s ∈ ph.steps, s.sequence < Word.count 32 :=
  Record.Makes.readAs (.seq (.required StepDef.produces_decode.list) <| .skip <| .skip <|
    .skipFirst fun _ _ _ _ sequences => sequences) _ _

namespace ProtocolDefinition

variable {p : ProtocolDefinition} {format : Format} {text : String}

/-- A protocol as a program holds it: its defaults are values of JSON, and its steps are
    numbered in words. -/
structure Held (p : ProtocolDefinition) : Prop where
  defaults : ∀ d ∈ p.parameters, ∀ v, d.default = some v → v.Writable
  sequences : ∀ ph ∈ p.phases, ∀ s ∈ ph.steps, s.sequence < Word.count 32

theorem produces_decode : decode.Produces (depth + 5) Held :=
  Record.Makes.readAs (.skip <| .skip <| .skip <| .skip <|
    .seq (.required PhaseDef.produces_decode.list) <|
    .seq (.withDefault (.list ParameterDef.produces_decode) (List.forall_mem_nil _)) <|
    .skip <| .skip <| .skip <| .skip <|
    .skipFirst fun _ _ _ _ _ _ defaults _ sequences _ _ _ _ => ⟨defaults, sequences⟩) _ _

theorem parse_held (h : parse format text = .ok p) : p.Held := by
  obtain ⟨q, ofText, h⟩ := bind_ok h
  obtain ⟨_, _, same⟩ := bind_ok h
  cases same
  unfold ProtocolDefinition.ofText at ofText
  cases format with
  | json =>
      dsimp only at ofText
      split at ofText
      · rename_i read
        cases ofText
        exact Source.decoded .json produces_decode read
      · cases ofText
  | yaml =>
      dsimp only at ofText
      split at ofText
      · rename_i read
        cases ofText
        exact Source.decoded .yaml produces_decode read
      · cases ofText

end ProtocolDefinition

/-- A reading whose data have at most so many levels. -/
structure NewMeasurement.Shallow (depth : Nat) (m : NewMeasurement) : Prop where
  value : m.value.Within depth
  metadata : Json.Storable (depth + 1) (.object m.metadata)

namespace Session

variable {s : Session} {overrides : List String} {parameters : Dictionary Json}

/-- A session whose readings have data of at most so many levels. -/
structure Shallow (depth : Nat) (s : Session) : Prop where
  parameters : ∀ e ∈ s.parameters, e.2.Writable
  readings : ∀ step ∈ s.steps, ∀ m ∈ step.inputs.readings, m.Shallow depth

theorem produces_decodeReading :
    decodeReading.Produces (depth + 2) (NewMeasurement.Shallow (depth + 1)) :=
  Record.Makes.readAs (.seq (.withDefault Decoder.produces_dictionary .empty) <| .skip <| .skip <|
    .skip <| .seq (.required Decoder.produces_json) <|
    .skipFirst fun _ _ value _ _ _ _ metadata =>
      ⟨MeasuredValue.ofJson_within value, metadata.mono (Nat.le_succ _)⟩) _ _

theorem produces_decodeStep : decodeStep.Produces (depth + 4)
    fun step => ∀ m ∈ step.inputs.readings, m.Shallow (depth + 1) :=
  Record.Makes.readAs (.skip <| .skip <| .skip <| .skip <|
    .seq (.withDefault produces_decodeReading.list (List.forall_mem_nil _)) <|
    .skipFirst fun _ _ readings _ _ _ _ => readings) _ _

theorem produces_decode : decode.Produces (depth + 6) (Shallow (depth + 1)) :=
  Record.Makes.readAs (.seq (.required produces_decodeStep.list) <|
    .first (.withDefault Decoder.produces_dictionary .empty)
      fun _ storable _ readings => ⟨writable_object.mp storable.writable, readings⟩) _ _

theorem overrideValue_writable (text : String) : (overrideValue text).Writable := by
  cases read : Json.decode Decoder.json text with
  | ok value =>
      rw [overrideValue, read]
      exact (Json.decoded Decoder.produces_json read).writable
  | error e =>
      rw [overrideValue, read]
      exact .text text

theorem parseOverride_writable {text : String} {e : String × Json}
    (h : parseOverride text = .ok e) : e.2.Writable := by
  unfold parseOverride at h
  generalize text.toList.takeWhile (· != '=') = name at h
  dsimp only at h
  generalize text.toList.drop name.length = rest at h
  split at h
  · rename_i value
    obtain rfl := Except.ok.inj h
    exact overrideValue_writable (String.ofList value)
  · cases h

theorem parseOverrides_writable {pairs : List (String × Json)}
    (h : overrides.mapM parseOverride = .ok pairs) : ∀ e ∈ pairs, e.2.Writable := by
  induction overrides generalizing pairs with
  | nil =>
      cases h
      exact nofun
  | cons text rest ih =>
      rw [List.mapM_cons] at h
      obtain ⟨first, parsed, h⟩ := bind_ok h
      obtain ⟨others, more, h⟩ := bind_ok h
      cases h
      exact List.forall_mem_cons.mpr ⟨parseOverride_writable parsed, ih more⟩

theorem overridden_writable (own : ∀ e ∈ s.parameters, e.2.Writable)
    (h : s.overridden overrides = .ok parameters) : ∀ e ∈ parameters, e.2.Writable := by
  obtain ⟨pairs, parsed, h⟩ := bind_ok h
  cases h
  intro e member
  exact (Dictionary.mem_foldl_insert member).elim (own e) (parseOverrides_writable parsed e)

end Session

namespace TestRun

variable {created : TestRun} {p : ProtocolDefinition} {overrides settled done : Dictionary Json}
  {defs : List ParameterDef}

theorem settled_storable (given : ∀ e ∈ overrides, e.2.Writable)
    (defaults : ∀ d ∈ defs, ∀ v, d.default = some v → v.Writable)
    (before : ∀ e ∈ settled, e.2.Storable depth)
    (h : settleParameters overrides settled defs = .ok done) :
    ∀ e ∈ done, e.2.Storable depth := by
  refine settled_keeps (P := fun d => ∀ e ∈ d, e.2.Storable depth) before ?_ h
  intro d isDeclared value settled origin checked before e member
  have writable : value.Writable := by
    rcases origin with ⟨e, isOverride, rfl⟩ | byDefault
    · exact given e isOverride
    · exact defaults d isDeclared value byDefault
  rcases Dictionary.mem_insert member with rfl | old
  · exact d.storable_of_check writable checked
  · exact before e old

/-- A new run has scalars for parameters. -/
theorem create_parameters {id specimen operator : String} {now : Instant} (held : p.Held)
    (given : ∀ e ∈ overrides, e.2.Writable)
    (h : create id now p specimen operator overrides = .ok created) :
    ∀ e ∈ created.parameters, e.2.Storable depth := by
  obtain ⟨settled, resolved, rfl⟩ := map_ok h
  exact settled_storable given held.defaults (List.forall_mem_nil _)
    (resolveParameters_ok.mp resolved).2

theorem create_sequences {id specimen operator : String} {now : Instant} (held : p.Held)
    (h : create id now p specimen operator overrides = .ok created) :
    ∀ s ∈ created.steps, s.sequence < Word.count 32 := by
  obtain ⟨settled, resolved, rfl⟩ := map_ok h
  intro s member
  obtain ⟨ph, isPhase, member⟩ := List.mem_flatMap.mp member
  obtain ⟨d, isStep, rfl⟩ := List.mem_map.mp member
  exact held.sequences ph isPhase d ((List.mergeSort_perm ph.steps _).mem_iff.mp isStep)

end TestRun

theorem Handler.passedOn_shallow (h : Handler) {readings : List NewMeasurement}
    (shallow : ∀ m ∈ readings, m.Shallow depth) : ∀ m ∈ h.passedOn readings, m.Shallow depth := by
  cases h with
  | measure | inspect => exact shallow
  | wait => exact nofun
  | expose =>
      intro m member
      obtain ⟨before, isReading, rfl⟩ := List.mem_map.mp member
      unfold exposed
      split
      · exact ⟨(shallow before isReading).value, (shallow before isReading).metadata⟩
      · exact shallow before isReading

theorem Handler.offered_shallow {h : Handler} {step : StepDef} {inputs : StepInputs}
    (shallow : ∀ m ∈ inputs.readings, m.Shallow depth) {readings : List NewMeasurement}
    (offered : h.offered step inputs = .ok readings) : ∀ m ∈ readings, m.Shallow depth := by
  unfold Handler.offered at offered
  split at offered
  · cases offered
    exact nofun
  · obtain ⟨_, _, rfl⟩ := map_ok offered
    exact h.passedOn_shallow shallow

theorem NewMeasurement.RecordedAs.shallow {m : NewMeasurement} {runId stepId phaseId : String}
    {e : Measurement} (h : m.RecordedAs runId stepId phaseId e) (shallow : m.Shallow depth) :
    e.Shallow depth :=
  ⟨h.value ▸ shallow.value, h.metadata ▸ shallow.metadata⟩

namespace TestRun

variable {run next : TestRun} {p q : ProtocolDefinition} {env : Surroundings} {step : SessionStep}
  {steps : List SessionStep}

/-- Only what is offered is recorded. -/
theorem Ending.offers {definition : StepDef} {stepId : String}
    {offered : Except String (List NewMeasurement)} {taken : List NewMeasurement}
    {entries : List Measurement} (h : Ending q definition stepId next offered taken entries) :
    ∀ m ∈ taken, ∃ readings, offered = .ok readings ∧ m ∈ readings := by
  cases h with
  | finished => exact fun m member => ⟨_, rfl, member⟩
  | failed => exact nofun
  | tripped => exact fun m member => ⟨_, rfl, List.mem_append_left _ member⟩
  | rejected => exact fun m member => ⟨_, rfl, List.mem_append_left _ member⟩

theorem Executed.entries_shallow {set : HandlerSet} {stepId : String} {inputs : StepInputs}
    {status : StepStatus} (h : Executed q set stepId inputs run status next)
    (shallow : ∀ m ∈ inputs.readings, m.Shallow depth)
    (before : ∀ m ∈ run.ledger.entries, m.Shallow depth) :
    ∀ m ∈ next.ledger.entries, m.Shallow depth := by
  obtain ⟨_, _, handler, _, _, _, _, taken, entries, grown, recordedAs, ending⟩ := h.recorded
  rw [grown]
  intro e member
  rcases List.mem_append.mp member with old | new
  · exact before e old
  · obtain ⟨m, isTaken, recordedAs⟩ := exists_of_forall₂ recordedAs new
    obtain ⟨readings, offered, isReading⟩ := ending.offers m isTaken
    exact recordedAs.shallow (Handler.offered_shallow shallow offered m isReading)

/-- A run of a protocol with what was read for it: its entries have data of at most so many
    levels, and so do its parameters. -/
structure Fed (depth : Nat) (p : ProtocolDefinition) (run : TestRun) : Prop where
  reachable : Reachable p run
  parameters : ∀ e ∈ run.parameters, e.2.Storable depth
  sequences : ∀ s ∈ run.steps, s.sequence < Word.count 32
  entries : ∀ m ∈ run.ledger.entries, m.Shallow depth

namespace Fed

/-- A call only adds to the entries. -/
theorem called (h : Fed depth p run) {c : Call} (left : (run.call c).2 = next)
    (entries : ∀ m ∈ next.ledger.entries, m.Shallow depth) : Fed depth p next := by
  have advances := (call_changes run c).advances
  rw [left] at advances
  refine ⟨left ▸ h.reachable.called c, ?_, fun s member => ?_, entries⟩
  · rw [advances.parameters]
    exact h.parameters
  · obtain ⟨before, isStep, advanced⟩ := exists_of_forall₂ advances.steps member
    rw [advanced.sequence]
    exact h.sequences before isStep

theorem abortIfRunning (h : Fed depth p run) (now : Instant) (reason : String) :
    Fed depth p (run.abortIfRunning now reason) := by
  cases aborted : run.abort now reason with
  | error e =>
      rw [TestRun.abortIfRunning, aborted]
      exact h
  | ok next =>
      have left : (run.call ⟨⟨fun _ => now, fun _ => ""⟩, p, .abort reason⟩).2 = next := by
        simp [call, apply, aborted, answeringWith]
      rw [TestRun.abortIfRunning, aborted]
      refine h.called left ?_
      obtain ⟨_, rfl⟩ := abort_ok.mp aborted
      exact h.entries

theorem playStep (valid : Validation.check p = .ok ()) (h : Fed depth p run)
    (env : Surroundings) (shallow : ∀ m ∈ step.inputs.readings, m.Shallow depth) :
    Fed depth p (run.playStep env p step) := by
  have coherent := h.reachable.coherent valid
  cases execution : run.executeStep env p .all step.stepId step.inputs with
  | mk answer next =>
      rw [TestRun.playStep, execution]
      cases answer with
      | ok status =>
          have left : (run.call ⟨env, p, .execute step.stepId step.inputs .all⟩).2 = next := by
            rw [call, apply, answeringAs_snd, execution]
          have executed := coherent.executeStep_concludes execution
          exact h.called left (executed.entries_shallow shallow h.entries)
      | error e =>
          -- A rejected step leaves the run as it was, and its abort adds no entry.
          have refused : (run.executeStep env p .all step.stepId step.inputs).1 = .error e :=
            congrArg Prod.fst execution
          obtain rfl : next = run := by
            rw [← coherent.executeWith_refused refused]
            exact (congrArg Prod.snd execution).symm
          exact h.abortIfRunning _ _

theorem endSession (h : Fed depth p run) (env : Surroundings) :
    Fed depth p (run.endSession env p) := by
  cases complete : run.complete (env.clock 0) p with
  | error e =>
      rw [TestRun.endSession, complete]
      exact h.abortIfRunning _ _
  | ok next =>
      have left : (run.call ⟨env, p, .complete⟩).2 = next := by
        simp [call, apply, complete, answeringWith]
      rw [TestRun.endSession, complete]
      refine h.called left ?_
      obtain ⟨_, _, _, rfl⟩ := complete_ok.mp complete
      exact h.entries

theorem play (valid : Validation.check p = .ok ()) (h : Fed depth p run) (env : Surroundings)
    (shallow : ∀ step ∈ steps, ∀ m ∈ step.inputs.readings, m.Shallow depth) :
    Fed depth p (run.play p env steps) := by
  induction steps generalizing env run with
  | nil => exact h.endSession env
  | cons step rest ih =>
      obtain ⟨first, others⟩ := List.forall_mem_cons.mp shallow
      have next := h.playStep valid env first
      rw [TestRun.play]
      split
      · exact next
      · exact ih next _ others

theorem shallow (h : Fed depth p run) : run.Shallow depth :=
  h.reachable.shallow h.entries h.parameters

end Fed

end TestRun

/-- The run that a session makes of a protocol has only data that were read. -/
theorem Session.execute_fed {p : ProtocolDefinition} (valid : Validation.check p = .ok ())
    (held : p.Held) {s : Session} (shallow : s.Shallow depth) {parameters : Dictionary Json}
    (given : ∀ e ∈ parameters, e.2.Writable) {env : Surroundings}
    {runId specimen operator : String} {run : TestRun}
    (h : Session.execute env runId p specimen operator parameters s.steps = .ok run) :
    run.Fed depth p := by
  obtain ⟨created, create, h⟩ := bind_ok h
  obtain ⟨started, start, h⟩ := bind_ok h
  cases h
  have left : (created.call ⟨⟨fun _ => env.clock 1, fun _ => ""⟩, p, .start⟩).2 = started := by
    simp [TestRun.call, TestRun.apply, start, TestRun.answeringWith]
  have noEntries : created.ledger.entries = [] := by
    obtain ⟨_, _, rfl⟩ := map_ok create
    rfl
  have fed : created.Fed depth p :=
    ⟨.created create, TestRun.create_parameters held given create,
      TestRun.create_sequences held create, by simp [noEntries]⟩
  refine (fed.called left ?_).play valid _ shallow.readings
  obtain ⟨_, rfl⟩ := TestRun.start_ok.mp start
  exact fed.entries

end Qualification
