import Qualification.Proofs.Run.Safety

/-! # Executions of steps

An execution that is accepted records, in their order, the readings that the handler of the
step passes on, each under the step and its phase. It records all of them and finishes the
step, or it stops early: the handler fails, a reading trips an aborting limit, or the ledger
rejects a reading. Then the run is aborted for a reason that says which it was.
-/

namespace Qualification

/-- What a handler passes on of the readings that are handed in. -/
def Handler.passedOn : Handler → List NewMeasurement → List NewMeasurement
  | .measure, readings => readings
  | .expose, readings => readings.map exposed
  | .inspect, readings => readings
  | .wait, _ => []

theorem Handler.run_readings {h : Handler} {step : StepDef} {inputs : StepInputs}
    {result : HandlerOutcome} (done : h.run step inputs = .ok result) :
    result.readings = h.passedOn inputs.readings := by
  cases h with
  | measure =>
      rw [run, runMeasure] at done
      split at done
      · rename_i empty
        cases done
        exact (List.isEmpty_iff.mp empty).symm
      · obtain ⟨_, _, rfl⟩ := map_ok done
        rfl
  | expose =>
      obtain ⟨_, _, done⟩ := bind_ok done
      split at done
      · cases done
        rfl
      · split at done
        · cases done
        · split at done <;> cases done <;> rfl
  | inspect =>
      rw [run, runInspect] at done
      split at done
      · cases done
      · obtain ⟨_, _, rfl⟩ := map_ok done
        rfl
  | wait =>
      cases done
      rfl

/-- The readings of a step that are to be recorded, or why its handler fails. -/
def Handler.offered (h : Handler) (step : StepDef) (inputs : StepInputs) :
    Except String (List NewMeasurement) :=
  if inputs.skip then .ok []
  else (h.run step inputs).map fun _ => h.passedOn inputs.readings

/-- A reading as it stands in the ledger of a run, under a step and a phase. -/
structure NewMeasurement.RecordedAs (m : NewMeasurement) (runId stepId phaseId : String)
    (e : Measurement) : Prop extends m.EnteredAs e where
  runId : e.runId = runId
  stepId : e.stepId = some stepId
  phaseId : e.phaseId = some phaseId

theorem NewMeasurement.RecordedAs.reviewed {m : NewMeasurement} {runId stepId phaseId : String}
    {e after : Measurement} (h : m.RecordedAs runId stepId phaseId e)
    (reviewed : e.Reviewed after) : m.RecordedAs runId stepId phaseId after := by
  refine ⟨reviewed.enteredAs h.toEnteredAs, ?_, ?_, ?_⟩
  · rw [reviewed]
    exact h.runId
  · rw [reviewed]
    exact h.stepId
  · rw [reviewed]
    exact h.phaseId

namespace TestRun

variable {run next : TestRun} {now : Instant} {env : Surroundings} {p q : ProtocolDefinition}
  {stepId : String} {s : StepRecord} {status : StepStatus}

/-- How an execution came out: what was to be recorded or why the handler failed, the
    readings that were recorded, and their entries. -/
inductive Ending (q : ProtocolDefinition) (step : StepDef) (stepId : String) (next : TestRun) :
    Except String (List NewMeasurement) → List NewMeasurement → List Measurement → Prop where
  | finished {readings : List NewMeasurement} {entries : List Measurement} :
      next.status = .inProgress → Ending q step stepId next (.ok readings) readings entries
  | failed {reason : String} :
      next.status = .aborted →
      next.reason = some
        ("action '" ++ step.action ++ "' failed on step '" ++ stepId ++ "': " ++ reason) →
      Ending q step stepId next (.error reason) [] []
  /-- The reading recorded last is beyond an aborting limit. -/
  | tripped {taken left : List NewMeasurement} {earlier : List Measurement} {e : Measurement}
      {limit : SafetyLimit} {x : Float} :
      next.status = .aborted → e.Exceeds q limit x → limit.action = .abort →
      next.reason = some (limitMessage e.parameter x limit) →
      Ending q step stepId next (.ok (taken ++ left)) taken (earlier ++ [e])
  /-- The reading after those recorded is rejected. -/
  | rejected {taken left : List NewMeasurement} {m : NewMeasurement} {entries : List Measurement}
      {e : EngineError} :
      next.status = .aborted → requireRecordable m = .error e →
      next.reason = some ("reading rejected on step '" ++ stepId ++ "': " ++ e.message) →
      Ending q step stepId next (.ok (taken ++ m :: left)) taken entries

/-- A step is over in a run that goes on, or failed in one that is aborted. -/
structure Concluded (stepId : String) (status : StepStatus) (next : TestRun) : Prop where
  final : (next.step? stepId).map (·.status) = some status
  terminal : status.isTerminal
  goesOn : next.status = .inProgress ∨ next.status = .aborted
  failed : next.status = .aborted → status = .failed

/-- What an execution of a step in a phase has recorded of the readings that were offered. -/
def Records (q : ProtocolDefinition) (step : StepDef) (stepId phaseId : String)
    (offered : Except String (List NewMeasurement)) (run next : TestRun) : Prop :=
  ∃ taken entries, next.ledger.entries = run.ledger.entries ++ entries ∧
    List.Forall₂ (·.RecordedAs run.id stepId phaseId) taken entries ∧
      Ending q step stepId next offered taken entries

/-- What an accepted execution of a step leaves. -/
structure Executed (q : ProtocolDefinition) (set : HandlerSet) (stepId : String)
    (inputs : StepInputs) (run : TestRun) (status : StepStatus) (next : TestRun) : Prop extends
    Concluded stepId status next where
  recorded : ∃ phase step handler s,
    q.step? stepId = some (phase, step) ∧ set.resolve? step = some handler ∧
      run.step? stepId = some s ∧
        Records q step stepId s.phaseId (handler.offered step inputs) run next

theorem stepStatus_eq (h : (next.step? stepId).map (·.status) = some status) :
    next.stepStatus stepId = status := by
  rw [stepStatus, h]
  rfl

theorem Coherent.finishStep_concluded (h : run.Coherent)
    (finishable : run.finishable stepId = .ok s) {outcome : StepOutcome}
    {observations : Option String}
    (done : run.finishStep env stepId outcome observations = (.ok (), next)) :
    Concluded stepId outcome.status next ∧ next.status = .inProgress := by
  obtain ⟨_, same, _, status, steps⟩ := h.finishStep_ok finishable env outcome observations
  cases done.symm.trans same
  obtain ⟨inProgress, found, _⟩ := finishable_ok.mp finishable
  have goesOn : next.status = .inProgress := status.trans inProgress
  have finished : (next.step? stepId).map (·.status) = some outcome.status := by
    rw [step?, steps, ← step?, step?_changeStep (by intro; rfl), found]
    rfl
  refine ⟨⟨finished, outcome_terminal outcome, .inl goesOn, fun aborted => ?_⟩, goesOn⟩
  cases goesOn.symm.trans aborted

theorem finishStep_entries {outcome : StepOutcome} {observations : Option String}
    {answer : Except EngineError Unit}
    (done : run.finishStep env stepId outcome observations = (answer, next)) :
    next.ledger.entries = run.ledger.entries := by
  have moved : run.Moved (answer, next).2 :=
    done ▸ finishStep_moved run env stepId outcome observations
  exact congrArg Ledger.entries moved.ledger

theorem step?_terminate (runStatus : RunStatus) (reason : String) :
    (run.terminate now runStatus reason).step? stepId =
      (run.step? stepId).map (closeOpenStep now) := by
  have kept : (fun s : StepRecord => decide (s.stepId = stepId)) ∘ closeOpenStep now =
      fun s => decide (s.stepId = stepId) := by
    funext s
    rw [Function.comp_apply, (closeOpenStep_advances now s).stepId]
  rw [step?, step?, terminate, List.find?_map, kept]

theorem terminate_concluded (finishable : run.finishable stepId = .ok s) (reason : String) :
    Concluded stepId .failed (run.terminate now .aborted reason) := by
  obtain ⟨_, found, active⟩ := finishable_ok.mp finishable
  refine ⟨?_, rfl, .inr rfl, fun _ => rfl⟩
  rw [step?_terminate, found]
  simp [closeOpenStep, active]

theorem abortStep_concluded (finishable : run.finishable stepId = .ok s) {reason : String}
    (done : run.abortStep now stepId reason = (.ok status, next)) :
    Concluded stepId status next ∧ next = run.terminate now .aborted reason := by
  obtain ⟨inProgress, _⟩ := finishable_ok.mp finishable
  have concluded : Concluded stepId .failed (run.terminate now .aborted reason) :=
    terminate_concluded finishable reason
  rw [abortStep, abort_ok.mpr ⟨inProgress, rfl⟩] at done
  cases done
  rw [stepStatus_eq concluded.final]
  exact ⟨concluded, rfl⟩

theorem entryOf_recordedAs (m : NewMeasurement) : m.RecordedAs run.id s.stepId s.phaseId
    (entryOf env run (some s) { m with stepId := some stepId }) := by
  have entered : NewMeasurement.EnteredAs { m with stepId := some stepId }
      (entryOf env run (some s) { m with stepId := some stepId }) := entryOf_enteredAs _ _
  exact ⟨⟨entered.parameter, entered.value, entered.unit, entered.type, entered.timestamp,
    entered.metadata⟩, rfl, rfl, rfl⟩

theorem stepFor_named {m : NewMeasurement} (found : run.step? stepId = some s) :
    run.stepFor { m with stepId := some stepId } = .ok (some s) := by
  simp [stepFor, getStep_ok.mpr found, Except.map]

/-- Only an unsound reading is rejected from a step in progress. -/
theorem record_rejected {m : NewMeasurement} {e : EngineError} (bound : run.BoundTo q)
    (finishable : run.finishable stepId = .ok s)
    (rejected : run.record env q { m with stepId := some stepId } = .error e) :
    requireRecordable m = .error e := by
  obtain ⟨inProgress, found, _⟩ := finishable_ok.mp finishable
  change requireRecordable { m with stepId := some stepId } = .error e
  rw [record, requireProtocol_ok.mpr bound, requireInProgress_ok.mpr inProgress] at rejected
  cases recordable : requireRecordable { m with stepId := some stepId } with
  | error reason =>
      rw [recordable] at rejected
      exact congrArg Except.error (Except.error.inj rejected)
  | ok _ =>
      rw [recordable, stepFor_named found] at rejected
      cases rejected

/-- A recording ends a run in progress only by an aborting limit. -/
theorem recorded_tripped {m : Measurement} (inProgress : run.status = .inProgress)
    (ended : (recorded env q m run).2.status ≠ .inProgress) :
    ∃ limit x, (recorded env q m run).1.Exceeds q limit x ∧ limit.action = .abort ∧
      (recorded env q m run).2 = terminate (env.clock 1) .aborted
        (limitMessage (recorded env q m run).1.parameter x limit)
          { run with ledger := run.ledger.append m } := by
  unfold recorded at ended ⊢
  split at ended
  · exact absurd inProgress ended
  · exact absurd inProgress ended
  · rename_i message alarm
    obtain ⟨limit, x, exceeds, aborting, rfl⟩ := exceeded?_eq_some.mp alarm
    exact ⟨limit, x, exceeds, aborting, rfl⟩

/-- A reading of the step in progress that is recorded is added to the ledger, and the run
    goes on or stops at it. -/
theorem record_reading (finishable : run.finishable stepId = .ok s) {m : NewMeasurement}
    {kept : Measurement}
    (h : run.record env q { m with stepId := some stepId } = .ok (kept, next)) :
    next.id = run.id ∧ Changes run next ∧ next.ledger.entries = run.ledger.entries ++ [kept] ∧
      m.RecordedAs run.id stepId s.phaseId kept ∧
      (next.status = .inProgress ∨ Concluded stepId .failed next ∧
        ∀ (step : StepDef) (left : List NewMeasurement),
          Ending q step stepId next (.ok ([m] ++ left)) [m] ([] ++ [kept])) := by
  obtain ⟨inProgress, found, active⟩ := finishable_ok.mp finishable
  obtain ⟨_, _, _, tag, tagged, same⟩ := record_ok.mp h
  cases (stepFor_named found).symm.trans tagged
  -- All that matters of the entry is that it records the reading.
  generalize entry : entryOf env run (some s) { m with stepId := some stepId } = e at same
  have recordedAs : m.RecordedAs run.id stepId s.phaseId e := by
    rw [← entry, ← step?_id found]
    exact entryOf_recordedAs m
  obtain rfl : kept = (recorded env q e run).1 := congrArg Prod.fst same
  obtain rfl : next = (recorded env q e run).2 := congrArg Prod.snd same
  refine ⟨recorded_id env q e run, recorded_changes e inProgress, recorded_entries env q e run,
    recordedAs.reviewed (recorded_reviewed env q e run), ?_⟩
  by_cases goesOn : (recorded env q e run).2.status = .inProgress
  · exact .inl goesOn
  · obtain ⟨limit, x, exceeds, aborting, stopped⟩ := recorded_tripped inProgress goesOn
    refine .inr ⟨?_, fun step left => .tripped ?_ exceeds aborting ?_⟩
    · rw [stopped]
      refine terminate_concluded (s := s) ?_ _
      exact finishable_ok.mpr ⟨inProgress, found, active⟩
    · rw [stopped]
      rfl
    · rw [stopped]
      rfl

theorem Ending.cons {step : StepDef} {m : NewMeasurement} {e : Measurement}
    {readings taken : List NewMeasurement} {entries : List Measurement}
    (h : Ending q step stepId next (.ok readings) taken entries) :
    Ending q step stepId next (.ok (m :: readings)) (m :: taken) (e :: entries) := by
  cases h with
  | finished goesOn => exact .finished goesOn
  | tripped aborted exceeds aborting reason =>
      rw [← List.cons_append, ← List.cons_append]
      exact .tripped aborted exceeds aborting reason
  | rejected aborted rejected reason =>
      rw [← List.cons_append]
      exact .rejected aborted rejected reason

theorem Records.nothing {step : StepDef} {phaseId : String}
    {offered : Except String (List NewMeasurement)}
    (same : next.ledger.entries = run.ledger.entries)
    (ending : Ending q step stepId next offered [] []) :
    Records q step stepId phaseId offered run next :=
  ⟨[], [], by rw [same, List.append_nil], .nil, ending⟩

theorem Records.cons {mid : TestRun} {step : StepDef} {phaseId : String} {m : NewMeasurement}
    {kept : Measurement} {readings : List NewMeasurement} (sameId : mid.id = run.id)
    (grown : mid.ledger.entries = run.ledger.entries ++ [kept])
    (first : m.RecordedAs run.id stepId phaseId kept)
    (rest : Records q step stepId phaseId (.ok readings) mid next) :
    Records q step stepId phaseId (.ok (m :: readings)) run next := by
  obtain ⟨taken, entries, more, recordedAs, ending⟩ := rest
  rw [sameId] at recordedAs
  refine ⟨m :: taken, kept :: entries, ?_, .cons first recordedAs, ending.cons⟩
  rw [more, grown, List.append_assoc, List.singleton_append]

/-- Recording the readings of the step in progress and finishing it leaves a beginning of
    the readings in the ledger. -/
theorem Coherent.recordThenFinish_ending (h : run.Coherent) (bound : run.BoundTo q)
    (finishable : run.finishable stepId = .ok s) (step : StepDef) {result : HandlerOutcome}
    {readings : List NewMeasurement}
    (done : recordThenFinish env q stepId result readings run = (.ok status, next)) :
    Concluded stepId status next ∧
      Records q step stepId s.phaseId (.ok readings) run next := by
  -- The run changes with each reading; as long as it goes on, its step stays in progress.
  induction readings generalizing env run with
  | nil =>
      rw [recordThenFinish, finishExecuted] at done
      split at done
      · rename_i next finished
        obtain ⟨concluded, goesOn⟩ := h.finishStep_concluded finishable finished
        cases done
        rw [stepStatus_eq concluded.final]
        exact ⟨concluded, .nothing (finishStep_entries finished) (.finished goesOn)⟩
      · cases done
  | cons m rest ih =>
      rw [recordThenFinish] at done
      split at done
      · rename_i e rejected
        obtain ⟨concluded, same⟩ := abortStep_concluded finishable done
        have ending : Ending q step stepId next (.ok ([] ++ m :: rest)) [] [] := by
          rw [same]
          exact .rejected rfl (record_rejected bound finishable rejected) rfl
        exact ⟨concluded, .nothing (by rw [same]; rfl) ending⟩
      · rename_i kept mid record
        obtain ⟨sameId, changes, grown, recordedAs, outcome⟩ := record_reading finishable record
        split at done
        · rename_i goesOn
          obtain ⟨concluded, records⟩ := ih (changes.coherent h) (changes.bound bound)
            (record_finishable record goesOn finishable) done
          exact ⟨concluded, records.cons sameId grown recordedAs⟩
        · rename_i ended
          obtain ⟨concluded, ending⟩ := outcome.resolve_left ended
          rw [stepStatus_eq concluded.final] at done
          cases done
          exact ⟨concluded, [m], [kept], grown, .cons recordedAs .nil, ending step rest⟩

theorem Coherent.perform_ending (h : run.Coherent) (bound : run.BoundTo q)
    (finishable : run.finishable stepId = .ok s) {step : StepDef} {handler : Handler}
    {inputs : StepInputs}
    (done : run.perform env q step handler.run stepId inputs = (.ok status, next)) :
    Concluded stepId status next ∧
      Records q step stepId s.phaseId (handler.offered step inputs) run next := by
  unfold perform at done
  unfold Handler.offered
  split at done
  · rename_i skip
    rw [if_pos skip]
    split at done
    · rename_i next skipped
      cases done
      obtain ⟨concluded, goesOn⟩ := h.finishStep_concluded finishable skipped
      exact ⟨concluded, .nothing (finishStep_entries skipped) (.finished goesOn)⟩
    · cases done
  · rename_i noSkip
    rw [if_neg noSkip]
    split at done
    · rename_i reason failed
      obtain ⟨concluded, same⟩ := abortStep_concluded finishable done
      rw [failed]
      refine ⟨concluded, .nothing (by rw [same]; rfl) ?_⟩
      rw [same]
      exact .failed rfl rfl
    · rename_i result ran
      rw [ran, Except.map, ← Handler.run_readings ran]
      exact h.recordThenFinish_ending bound finishable step done

theorem Coherent.executeStep_concludes (h : run.Coherent) {set : HandlerSet} {inputs : StepInputs}
    (done : run.executeStep env q set stepId inputs = (.ok status, next)) :
    Executed q set stepId inputs run status next := by
  unfold executeStep executeWith at done
  split at done
  · cases done
  · rename_i step performer executable
    obtain ⟨bound, phase, known, resolved⟩ := executable_ok executable
    obtain ⟨handler, chosen, rfl⟩ := Option.map_eq_some_iff.mp resolved
    split at done
    · cases done
    · rename_i started start
      obtain ⟨s, found, finishable⟩ := startStep_finishable start
      have changes := startStep_changes start
      have same : started.ledger = run.ledger := (startStep_moved start).ledger
      have sameId : started.id = run.id := changes.advances.id
      obtain ⟨concluded, records⟩ :=
        (changes.coherent h).perform_ending (changes.bound bound) finishable done
      rw [Records, same, sameId] at records
      exact ⟨concluded, phase, step, handler, s, known, chosen, found, records⟩

end TestRun
end Qualification
