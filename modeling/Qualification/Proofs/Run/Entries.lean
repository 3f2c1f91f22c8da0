import Qualification.Proofs.Run.Atomic
import Qualification.Proofs.Run.Effect

/-! # The entries of a ledger

A ledger only grows at its end. A review changes the flag of one entry, and its notes if any
are given; no other operation touches an entry that is there.

Every entry is sound, and says truly where it was taken: at no step at all, or at a step of
the run and in the phase that owns this step.
-/

namespace Qualification

/-- A measurement with all that was submitted of it. -/
structure NewMeasurement.EnteredAs (m : NewMeasurement) (e : Measurement) : Prop where
  parameter : e.parameter = m.parameter
  value : e.value = m.value
  unit : e.unit = m.unit
  type : e.type = m.type
  timestamp : ∀ time, m.timestamp = some time → e.timestamp = time
  metadata : e.metadata = m.metadata

/-- What an operation makes of the entries of a ledger when it is accepted. -/
def Operation.Continues : Operation → List Measurement → List Measurement → Prop
  | .record m, before, after => ∃ e, m.EnteredAs e ∧ after = before ++ [e]
  | .flag id trust notes, before, after =>
      ∃ earlier m later, before = earlier ++ m :: later ∧ m.id = id ∧
        (∀ e ∈ earlier, e.id ≠ id) ∧
          after = earlier ++ { m with flag := trust, notes := notes.or m.notes } :: later
  | .execute .., before, after => before <+: after
  | .executeWith .., before, after => before <+: after
  | _, before, after => after = before

/-- A measurement of a run that names a parameter and, if it is a reading, is finite. -/
structure Measurement.Sound (m : Measurement) (runId : String) : Prop where
  runId : m.runId = runId
  named : ¬ Text.isBlank m.parameter
  finite : ∀ x, m.value = .numeric x → x.isFinite

/-- A measurement taken at no step, or at a step of the run and in the phase that owns it. -/
def Measurement.PlacedIn (m : Measurement) (run : TestRun) : Prop :=
  m.stepId = none ∧ m.phaseId = none ∨
    ∃ s, run.step? s.stepId = some s ∧ m.stepId = some s.stepId ∧ m.phaseId = some s.phaseId

/-- A measurement whose place is that of a step of the layout, if it has one. -/
def Measurement.PlacedBy (m : Measurement) (layout : Layout) : Prop :=
  m.stepId = none ∧ m.phaseId = none ∨
    ∃ slot ∈ layout.slots, m.stepId = some slot.stepId ∧ m.phaseId = some slot.phaseId

theorem Measurement.Reviewed.sound {m after : Measurement} {runId : String}
    (h : m.Reviewed after) (sound : m.Sound runId) : after.Sound runId := by
  rw [h]
  exact ⟨sound.runId, sound.named, sound.finite⟩

theorem Measurement.Reviewed.placed {m after : Measurement} {layout : Layout}
    (h : m.Reviewed after) (placed : m.PlacedBy layout) : after.PlacedBy layout := by
  rw [h]
  exact placed

theorem Measurement.Reviewed.enteredAs {m : NewMeasurement} {e after : Measurement}
    (h : e.Reviewed after) (entered : m.EnteredAs e) : m.EnteredAs after := by
  rw [h]
  exact ⟨entered.parameter, entered.value, entered.unit, entered.type, entered.timestamp,
    entered.metadata⟩

namespace TestRun

variable {run next : TestRun} {env : Surroundings} {p : ProtocolDefinition}

theorem Effect.entries_grow (h : Effect p run next) :
    run.ledger.entries <+: next.ledger.entries := by
  cases h with
  | moved moved => simp [moved.ledger]
  | recorded env m step =>
      rw [recorded_entries]
      exact List.prefix_append _ _
  | _ => exact List.prefix_refl _

theorem Effects.entries_grow (h : Effects p run next) :
    run.ledger.entries <+: next.ledger.entries := by
  induction h with
  | refl => exact List.prefix_refl _
  | tail _ effect ih => exact ih.trans effect.entries_grow

theorem setFlag_entries {id : String} {m : Measurement} (found : run.ledger.get? id = some m)
    (flag : QualityFlag) (notes : Option String) :
    ∃ earlier later, run.ledger.entries = earlier ++ m :: later ∧ m.id = id ∧
      (∀ e ∈ earlier, e.id ≠ id) ∧ (run.ledger.setFlag id flag notes).entries =
        earlier ++ Ledger.reflag flag notes m :: later := by
  obtain ⟨same, earlier, later, split, others⟩ := List.find?_eq_some_iff_append.mp found
  have same : m.id = id := by simpa using same
  have others : ∀ e ∈ earlier, e.id ≠ id := fun e member => by simpa using others e member
  refine ⟨earlier, later, split, same, others, ?_⟩
  rw [Ledger.setFlag, split]
  exact Keyed.changeFirst_append (Ledger.reflag flag notes) others same

theorem entryOf_enteredAs (step : Option StepRecord) (m : NewMeasurement) :
    m.EnteredAs (entryOf env run step m) := by
  refine ⟨rfl, rfl, rfl, rfl, fun time given => ?_, rfl⟩
  simp [entryOf, given]

theorem record_entries {m : NewMeasurement} {kept : Measurement}
    (h : run.record env p m = .ok (kept, next)) :
    m.EnteredAs kept ∧ next.ledger.entries = run.ledger.entries ++ [kept] := by
  obtain ⟨_, _, _, step, _, same⟩ := record_ok.mp h
  rw [show kept = _ from congrArg Prod.fst same, show next = _ from congrArg Prod.snd same]
  exact ⟨(recorded_reviewed env p _ run).enteredAs (entryOf_enteredAs step m),
    recorded_entries env p _ run⟩

theorem call_continues (c : Call) (accepted : accepted (run.call c)) :
    c.operation.Continues run.ledger.entries (run.call c).2.ledger.entries := by
  obtain ⟨env, p, op⟩ := c
  -- Only recordings and executions touch the ledger, and reviews.
  have quiet {answer : TestRun → Answer} {result : Except EngineError TestRun}
      (same : ∀ next, result = .ok next → next.ledger = run.ledger) :
      (run.answeringWith answer result).2.ledger.entries = run.ledger.entries :=
    congrArg Ledger.entries
      (answeringWith_leaves (P := fun next => next.ledger = run.ledger) rfl same)
  cases op with
  | start =>
      refine quiet fun next h => ?_
      obtain ⟨_, rfl⟩ := start_ok.mp h
      rfl
  | abort reason =>
      refine quiet fun next h => ?_
      obtain ⟨_, rfl⟩ := abort_ok.mp h
      rfl
  | fail reason =>
      refine quiet fun next h => ?_
      obtain ⟨_, rfl⟩ := fail_ok.mp h
      rfl
  | complete =>
      refine quiet fun next h => ?_
      obtain ⟨_, _, _, rfl⟩ := complete_ok.mp h
      rfl
  | enterPhase phaseId => exact quiet fun next h => (enterPhase_moved h).ledger
  | exitPhase phaseId => exact quiet fun next h => (exitPhase_moved h).ledger
  | startStep stepId => exact quiet fun next h => (startStep_moved h).ledger
  | finishStep stepId outcome observations =>
      rw [call, apply, answeringAs_snd]
      exact congrArg Ledger.entries (finishStep_moved run env stepId outcome observations).ledger
  | record m =>
      rw [call, apply] at accepted ⊢
      cases h : run.record env p m with
      | error e =>
          rw [h] at accepted
          cases accepted
      | ok recording => exact ⟨recording.1, record_entries h⟩
  | flag id flag notes =>
      obtain ⟨refused, _⟩ | ⟨m, found, same⟩ := review_cases run env p id flag notes
      · exact absurd accepted refused
      · obtain ⟨earlier, later, split, owner, others, changed⟩ :=
          setFlag_entries found flag notes
        rw [same]
        exact ⟨earlier, m, later, split, owner, others, changed⟩
  | evaluate =>
      refine quiet fun next h => ?_
      obtain ⟨_, rfl⟩ := evaluate_ok.mp h
      split <;> rfl
  | execute => exact (call_effects run _ (by simp [Operation.isReview])).entries_grow
  | executeWith => exact (call_effects run _ (by simp [Operation.isReview])).entries_grow

theorem requireRecordable_ok {m : NewMeasurement} (h : requireRecordable m = .ok ()) :
    ¬ Text.isBlank m.parameter ∧ ∀ x, m.value = .numeric x → x.isFinite := by
  unfold requireRecordable at h
  split at h
  · cases h
  · rename_i named
    refine ⟨named, fun x isReading => ?_⟩
    rw [isReading] at h
    by_cases finite : x.isFinite
    · exact finite
    · simp [finite] at h

theorem stepFor_mem {m : NewMeasurement} {s : StepRecord} (h : run.stepFor m = .ok (some s)) :
    s ∈ run.steps := by
  unfold stepFor at h
  split at h
  · obtain ⟨t, found, same⟩ := map_ok h
    cases same
    exact List.mem_of_find?_eq_some (getStep_ok.mp found)
  · exact List.mem_of_find?_eq_some (Except.ok.inj h)

theorem entryOf_sound {m : NewMeasurement} (recordable : requireRecordable m = .ok ())
    (step : Option StepRecord) : (entryOf env run step m).Sound run.id := by
  obtain ⟨named, finite⟩ := requireRecordable_ok recordable
  exact ⟨rfl, named, finite⟩

theorem entryOf_placed {m : NewMeasurement} {step : Option StepRecord}
    (tagged : run.stepFor m = .ok step) : (entryOf env run step m).PlacedBy run.layout := by
  cases step with
  | none => exact .inl ⟨rfl, rfl⟩
  | some s => exact .inr ⟨s.slot, List.mem_map_of_mem (stepFor_mem tagged), rfl, rfl⟩

/-- A run whose entries are all sound and placed by its layout. -/
def Attributed (run : TestRun) : Prop :=
  ∀ m ∈ run.ledger.entries, m.Sound run.id ∧ m.PlacedBy run.layout

theorem Effect.attributed (h : Effect p run next) (attributed : run.Attributed) :
    next.Attributed := by
  have id := h.id
  have layout := h.layout
  rw [Attributed, id, layout]
  cases h with
  | moved moved =>
      rw [moved.same]
      exact attributed
  | recorded env m step inProgress recordable tagged =>
      intro e member
      rw [recorded_entries] at member
      rcases List.mem_append.mp member with old | new
      · exact attributed e old
      · obtain rfl := List.mem_singleton.mp new
        have marked := recorded_reviewed env p (entryOf env run step m) run
        exact ⟨marked.sound (entryOf_sound recordable step), marked.placed (entryOf_placed tagged)⟩
  | _ => exact attributed

theorem reviewed_attributed (id : String) (flag : QualityFlag) (notes : Option String)
    (attributed : run.Attributed) :
    Attributed { run with ledger := run.ledger.setFlag id flag notes } := by
  intro e member
  obtain ⟨m, old, reviewed⟩ :=
    exists_of_forall₂ (setFlag_reviewed run.ledger id flag notes) member
  obtain ⟨sound, placed⟩ := attributed m old
  exact ⟨reviewed.sound sound, reviewed.placed placed⟩

theorem Reachable.attributed (h : Reachable p run) : run.Attributed := by
  induction h with
  | created created =>
      obtain ⟨_, _, rfl⟩ := map_ok created
      intro m member
      cases member
  | called c _ ih =>
      exact call_keeps_of_effects Effect.attributed
        (fun id flag notes _ => reviewed_attributed id flag notes) ih

theorem placedIn_of_placedBy (wellFormed : run.layout.WellFormed) {m : Measurement}
    (h : m.PlacedBy run.layout) : m.PlacedIn run := by
  refine h.imp_right ?_
  rintro ⟨slot, isSlot, stepId, phaseId⟩
  obtain ⟨s, step, rfl⟩ := List.mem_map.mp isSlot
  exact ⟨s, step?_of_mem wellFormed step, stepId, phaseId⟩

/-- Whatever is done to a run, its entries stay, but for what a review changes of one of
    them; and all of them are sound and say truly where they were taken. -/
theorem ledger_append_only (valid : Validation.check p = .ok ()) (reachable : Reachable p run) :
    (∀ c : Call,
      (accepted (run.call c) →
        c.operation.Continues run.ledger.entries (run.call c).2.ledger.entries) ∧
      (¬ accepted (run.call c) → (run.call c).2.ledger = run.ledger)) ∧
    ∀ m ∈ run.ledger.entries, m.Sound run.id ∧ m.PlacedIn run := by
  have coherent := reachable.coherent valid
  refine ⟨fun c => ⟨call_continues c, fun refused => ?_⟩, fun m member => ?_⟩
  · obtain ⟨e, failed⟩ := not_accepted.mp (Bool.eq_false_iff.mpr refused)
    rw [coherent.call_unchanged c failed]
  · obtain ⟨sound, placed⟩ := reachable.attributed m member
    exact ⟨sound, placedIn_of_placedBy coherent.wellFormed placed⟩

end TestRun

/-- An illustration: the two phases under a criterion and two safety limits. -/
def ProtocolDefinition.monitored : ProtocolDefinition :=
  { twoPhases with
    acceptanceCriteria := [⟨"rated power", "", .critical, ⟨"power", .ge, .scalar (.number 200)⟩⟩]
    safetyLimits := [("humidity", ⟨60, .warn, .max⟩), ("temperature", ⟨85, .abort, .max⟩)] }

theorem monitored_valid : Validation.check .monitored = .ok () := by
  have passed := Validation.check_ok.mp twoPhases_valid
  exact Validation.check_ok.mpr ⟨passed.id, passed.name, passed.category, passed.version,
    passed.parameters, passed.peopled, passed.phases, passed.specs, by decide +kernel,
    by decide +kernel, passed.settings⟩

/-- A reading as an instrument submits it. -/
def NewMeasurement.reading (parameter : String) (x : Float) : NewMeasurement :=
  ⟨parameter, .numeric x, none, .duringTest, none, none, []⟩

def NewMeasurement.observation (parameter : String) (v : MeasuredValue) : NewMeasurement :=
  ⟨parameter, v, none, .duringTest, none, none, []⟩

namespace TestRun

theorem ofTwoPhases_monitored :
    create "run-1" default .monitored "cell-7" "night shift" [] = .ok ofTwoPhases := rfl

theorem monitored_reachable (calls : List Call) :
    Reachable .monitored (ofTwoPhases.after calls) :=
  (Reachable.created ofTwoPhases_monitored).after calls

theorem ofTwoPhases_steps : pendingSteps ProtocolDefinition.twoPhases.phases = [
    ⟨"inspect", "prepare", 1, "measure", .pending, none, none, none, none⟩,
    ⟨"mount", "prepare", 2, "measure", .pending, none, none, none, none⟩,
    ⟨"irradiate", "expose", 1, "measure", .pending, none, none, none, none⟩] := by cbv

/-- A call of an illustration, with an identity for each place of the ledger. -/
def numbered (operation : Operation) : Call :=
  ⟨⟨fun _ => default, fun place => "reading-" ++ place.repr⟩, .monitored, operation⟩

/-- An illustration: two readings during the first step, the first of them too damp. -/
def dampStart : TestRun :=
  ofTwoPhases.after [numbered .start, numbered (.startStep "inspect"),
    numbered (.record (.reading "humidity" 75)), numbered (.record (.reading "power" 210))]

/-- An illustration: a review of its first reading. -/
def dampReview : Operation :=
  .flag "reading-0" .bad (some "sensor iced up")

theorem dampStart_ledger :
    Validation.check .monitored = .ok () ∧ Reachable .monitored dampStart ∧
      accepted (dampStart.call (numbered dampReview)) ∧
      dampReview.Continues dampStart.ledger.entries
        (dampStart.call (numbered dampReview)).2.ledger.entries ∧
      ∀ m ∈ dampStart.ledger.entries, m.Sound dampStart.id ∧ m.PlacedIn dampStart := by
  have reachable : Reachable .monitored dampStart := monitored_reachable _
  have done : accepted (dampStart.call (numbered dampReview)) := by
    rw [dampStart, ofTwoPhases, ofTwoPhases_steps]
    decide +kernel
  obtain ⟨calls, entries⟩ := ledger_append_only monitored_valid reachable
  exact ⟨monitored_valid, reachable, done, (calls _).1 done, entries⟩

end TestRun
end Qualification
