import Qualification.Proofs.Run.Order

/-! # Effects of operations

`Change` says how phases and steps move. Here they are left open, and what an operation
does to the rest of a run is said in full: to its status, its reason, its ledger and its
verdicts. Every operation but a review comes down to such effects, all of them by the
protocol that it was given; a review changes an entry of the ledger and nothing else.
-/

namespace Qualification

open Relation

/-- Does the operation review a measurement? -/
def Operation.isReview : Operation → Bool
  | .flag .. => true
  | _ => false

namespace TestRun

/-- A run in which nothing but statuses and times of phases and steps is different. -/
structure Moved (run next : TestRun) : Prop where
  same : next = { run with phases := next.phases, steps := next.steps }
  layout : next.layout = run.layout

/-- What an operation does to a run by a protocol, phases and steps left open. -/
inductive Effect (p : ProtocolDefinition) (run : TestRun) : TestRun → Prop where
  | moved {next : TestRun} : run.Moved next → Effect p run next
  | started (now : Instant) :
      run.status = .pending →
      Effect p run { run with status := .inProgress, startedAt := some now }
  | ended (now : Instant) (status : RunStatus) (reason : String) :
      run.status = .inProgress → status = .failed ∨ status = .aborted →
      Effect p run (run.terminate now status reason)
  | completed (now : Instant) :
      run.status = .inProgress →
      Effect p run { run.graded p with status := .completed, completedAt := some now }
  | graded : run.status = .completed → Effect p run (run.graded p)
  | judged : run.status ≠ .completed → Effect p run (run.judged p)
  | recorded (env : Surroundings) (m : NewMeasurement) (step : Option StepRecord) :
      run.status = .inProgress → requireRecordable m = .ok () → run.stepFor m = .ok step →
      Effect p run (TestRun.recorded env p (entryOf env run step m) run).2

abbrev Effects (p : ProtocolDefinition) : TestRun → TestRun → Prop :=
  ReflTransGen (Effect p)

variable {run next last : TestRun} {now : Instant} {env : Surroundings}
  {p : ProtocolDefinition} {stepId : String}

theorem Moved.refl (run : TestRun) : run.Moved run :=
  ⟨rfl, rfl⟩

theorem Moved.ledger (h : run.Moved next) : next.ledger = run.ledger := by
  rw [h.same]

theorem Moved.trans (h : run.Moved next) (k : next.Moved last) : run.Moved last := by
  refine ⟨?_, k.layout.trans h.layout⟩
  rw [k.same, h.same]

theorem terminate_layout (now : Instant) (status : RunStatus) (reason : String)
    (run : TestRun) : (run.terminate now status reason).layout = run.layout := by
  simp [TestRun.layout, terminate, Function.comp_def,
    fun ph => (closeOpenPhase_advances now ph).phaseId,
    fun s => (closeOpenStep_advances now s).slot]

theorem recorded_layout (env : Surroundings) (p : ProtocolDefinition) (m : Measurement)
    (run : TestRun) : (TestRun.recorded env p m run).2.layout = run.layout := by
  unfold TestRun.recorded
  split
  · rfl
  · rfl
  · exact terminate_layout _ _ _ { run with ledger := run.ledger.append m }

theorem recorded_id (env : Surroundings) (p : ProtocolDefinition) (m : Measurement)
    (run : TestRun) : (TestRun.recorded env p m run).2.id = run.id := by
  unfold TestRun.recorded
  split <;> rfl

/-- A recorded measurement is appended, perhaps with a mark on it. -/
theorem recorded_entries (env : Surroundings) (p : ProtocolDefinition) (m : Measurement)
    (run : TestRun) : (TestRun.recorded env p m run).2.ledger.entries =
      run.ledger.entries ++ [(TestRun.recorded env p m run).1] := by
  unfold TestRun.recorded
  split <;> rfl

theorem recorded_reviewed (env : Surroundings) (p : ProtocolDefinition) (m : Measurement)
    (run : TestRun) : m.Reviewed (TestRun.recorded env p m run).1 := by
  unfold TestRun.recorded
  split <;> rfl

theorem Effect.id (h : Effect p run next) : next.id = run.id := by
  cases h with
  | moved moved => rw [moved.same]
  | recorded env m step => exact recorded_id env p _ run
  | _ => rfl

theorem Effect.layout (h : Effect p run next) : next.layout = run.layout := by
  cases h with
  | moved moved => exact moved.layout
  | ended now status reason => exact terminate_layout now status reason run
  | recorded env m step => exact recorded_layout env p _ run
  | _ => rfl

theorem enterPhase_moved {phaseId : String} (h : run.enterPhase now phaseId = .ok next) :
    run.Moved next := by
  refine ⟨?_, (enterPhase_change h).advances.layout⟩
  obtain ⟨_, _, _, rfl⟩ := enterPhase_ok.mp h
  rfl

theorem exitPhase_moved {phaseId : String} (h : run.exitPhase now phaseId = .ok next) :
    run.Moved next := by
  refine ⟨?_, (exitPhase_change h).advances.layout⟩
  obtain ⟨_, _, _, rfl⟩ := exitPhase_ok.mp h
  rfl

theorem startStep_moved (h : run.startStep env stepId = .ok next) : run.Moved next := by
  refine ⟨?_, (startStep_changes h).advances.layout⟩
  obtain ⟨s, ready, _, enter, rfl⟩ := startStep_ok.mp h
  have entered : run.Moved ready := by
    obtain ⟨rfl | entering, _⟩ := enterPhaseOf_spec enter
    · exact .refl ready
    · exact enterPhase_moved entering
  rw [changeStep, entered.same]

theorem finishStep_moved (run : TestRun) (env : Surroundings) (stepId : String)
    (outcome : StepOutcome) (observations : Option String) :
    run.Moved (run.finishStep env stepId outcome observations).2 := by
  obtain ⟨e, _, same⟩ | ⟨s, mid, _, changed, leaving⟩ :=
    finishStep_cases run env stepId outcome observations
  · rw [same]
    exact .refl run
  · have finished : run.Moved mid := changed ▸ ⟨rfl, changeStep_layout fun _ => rfl⟩
    rcases leaving with ⟨_, same⟩ | ⟨_, same⟩
    · rw [same]
      cases left : mid.exitPhase (env.clock 1) s.phaseId with
      | error e => exact finished
      | ok next => exact finished.trans (exitPhase_moved left)
    · rw [same]
      exact finished

theorem record_effect {m : NewMeasurement} {kept : Measurement}
    (h : run.record env p m = .ok (kept, next)) : Effect p run next := by
  obtain ⟨_, inProgress, recordable, step, tagged, same⟩ := record_ok.mp h
  rw [show next = _ from congrArg Prod.snd same]
  exact .recorded env m step inProgress recordable tagged

theorem executeWith_effects (run : TestRun) (env : Surroundings) (p : ProtocolDefinition)
    (resolve : StepDef → Option Performer) (stepId : String) (inputs : StepInputs) :
    Effects p run (run.executeWith env p resolve stepId inputs).2 := by
  have parts : KeptInExecution env p fun _ => Effects p run := by
    refine ⟨?_, ?_, ?_, ?_⟩
    · exact fun started before => before.tail (.moved (startStep_moved started))
    · exact fun recorded before => before.tail (record_effect recorded)
    · exact fun _ stepId outcome observations before =>
        before.tail (.moved (finishStep_moved _ _ stepId outcome observations))
    · intro mid next n reason aborted before
      obtain ⟨inProgress, rfl⟩ := abort_ok.mp aborted
      exact before.tail (.ended _ .aborted reason inProgress (.inr rfl))
  obtain ⟨_, _, effects⟩ := parts.executeWith .refl resolve stepId inputs
  exact effects

theorem call_effects (run : TestRun) (c : Call) (noReview : ¬ c.operation.isReview) :
    Effects c.protocol run (run.call c).2 := by
  obtain ⟨env, p, op⟩ := c
  have leaves {answer : TestRun → Answer} {result : Except EngineError TestRun}
      (accepted : ∀ next, result = .ok next → Effect p run next) :
      Effects p run (run.answeringWith answer result).2 :=
    answeringWith_leaves (P := Effects p run) .refl fun next h => .single (accepted next h)
  cases op with
  | start =>
      refine leaves fun next h => ?_
      obtain ⟨pending, rfl⟩ := start_ok.mp h
      exact .started _ pending
  | abort reason =>
      refine leaves fun next h => ?_
      obtain ⟨inProgress, rfl⟩ := abort_ok.mp h
      exact .ended _ _ _ inProgress (.inr rfl)
  | fail reason =>
      refine leaves fun next h => ?_
      obtain ⟨inProgress, rfl⟩ := fail_ok.mp h
      exact .ended _ _ _ inProgress (.inl rfl)
  | complete =>
      refine leaves fun next h => ?_
      obtain ⟨_, inProgress, _, rfl⟩ := complete_ok.mp h
      exact .completed _ inProgress
  | enterPhase phaseId =>
      exact leaves fun next h => .moved (enterPhase_moved h)
  | exitPhase phaseId => exact leaves fun next h => .moved (exitPhase_moved h)
  | startStep stepId => exact leaves fun next h => .moved (startStep_moved h)
  | finishStep stepId outcome observations =>
      rw [call, apply, answeringAs_snd]
      exact .single (.moved (finishStep_moved run env stepId outcome observations))
  | record m =>
      rw [call, apply, answering_snd]
      cases h : run.record env p m with
      | error e => exact .refl
      | ok recording => exact .single (record_effect h)
  | flag => simp [Operation.isReview] at noReview
  | evaluate =>
      refine leaves fun next h => ?_
      obtain ⟨_, rfl⟩ := evaluate_ok.mp h
      split
      · exact .graded ‹_›
      · exact .judged ‹_›
  | execute stepId inputs handlers =>
      rw [call, apply, answeringAs_snd]
      exact executeWith_effects run env p _ stepId inputs
  | executeWith stepId inputs resolve =>
      rw [call, apply, answeringAs_snd]
      exact executeWith_effects run env p resolve stepId inputs

/-- A review leaves every entry as it is, but for its flag and its notes. -/
theorem setFlag_reviewed (l : Ledger) (id : String) (flag : QualityFlag)
    (notes : Option String) :
    List.Forall₂ Measurement.Reviewed l.entries (l.setFlag id flag notes).entries :=
  Keyed.forall₂_changeFirst (fun _ => rfl) (fun _ _ => rfl)

/-- A review finds its measurement and changes it, or is refused and changes nothing. -/
theorem review_cases (run : TestRun) (env : Surroundings) (p : ProtocolDefinition) (id : String)
    (flag : QualityFlag) (notes : Option String) :
    (¬ accepted (run.call ⟨env, p, .flag id flag notes⟩) ∧
        (run.call ⟨env, p, .flag id flag notes⟩).2 = run) ∨
      ∃ m, run.ledger.get? id = some m ∧
        (run.call ⟨env, p, .flag id flag notes⟩).2 =
          { run with ledger := run.ledger.setFlag id flag notes } := by
  cases h : run.flag id flag notes with
  | error e =>
      left
      rw [call, apply, h]
      exact ⟨by simp [answering, accepted], rfl⟩
  | ok reviewed =>
      obtain ⟨⟨m, found, _⟩, same⟩ := flag_ok.mp h
      right
      rw [call, apply, h]
      exact ⟨m, found, same⟩

theorem Effects.keeps {Kept : TestRun → Prop}
    (effect : ∀ {run next}, Effect p run next → Kept run → Kept next)
    (h : Effects p run next) (kept : Kept run) : Kept next := by
  induction h with
  | refl => exact kept
  | tail _ step ih => exact effect step ih

/-- What the effects of operations keep, and reviews, calls keep. -/
theorem call_keeps_of_effects {Kept : TestRun → Prop} {c : Call}
    (effect : ∀ {run next}, Effect c.protocol run next → Kept run → Kept next)
    (review : ∀ {run} id flag notes, c.operation = .flag id flag notes → Kept run →
      Kept { run with ledger := run.ledger.setFlag id flag notes })
    (kept : Kept run) : Kept (run.call c).2 := by
  by_cases isReview : c.operation.isReview
  · obtain ⟨env, p, op⟩ := c
    cases op with
    | flag id flag notes =>
        obtain ⟨_, same⟩ | ⟨m, _, same⟩ := review_cases run env p id flag notes
        · rwa [same]
        · rw [same]
          exact review id flag notes rfl kept
    | _ => cases isReview
  · exact (call_effects run c isReview).keeps effect kept

/-- What every one of some calls keeps is kept by all of them, one after the other. -/
theorem after_keeps {Kept : TestRun → Prop} {calls : List Call}
    (each : ∀ c ∈ calls, ∀ run, Kept run → Kept (TestRun.call run c).2) (kept : Kept run) :
    Kept (run.after calls) := by
  induction calls generalizing run with
  | nil => exact kept
  | cons c rest ih =>
      obtain ⟨first, others⟩ := List.forall_mem_cons.mp each
      exact ih others (first run kept)

end TestRun
end Qualification
