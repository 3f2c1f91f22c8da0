import Qualification.Proofs.Run.Execution
import Qualification.Session.Execution

/-! # How sessions end

The steps of a session are executed one after the other. The first that is rejected, or
that aborts the run, is the last one that is looked at; a session whose steps are all
executed completes the run if it can. Whichever it is, the run is over.
-/

namespace Qualification.TestRun

variable {run next mid last created : TestRun} {env later : Surroundings}
  {p : ProtocolDefinition} {step : SessionStep} {steps done rest : List SessionStep}

/-- A run that is aborted, and says why. -/
structure Aborted (run : TestRun) : Prop where
  status : run.status = .aborted
  reason : run.reason.isSome

/-- A step of a session is executed: it is accepted, and the run goes on. -/
structure Executes (env : Surroundings) (p : ProtocolDefinition) (step : SessionStep)
    (run next : TestRun) : Prop where
  accepted : ∃ status,
    run.executeStep env p .all step.stepId step.inputs = (.ok status, next)
  goesOn : next.status = .inProgress

/-- Steps of a session are executed in order, each with the surroundings that it finds. -/
inductive ExecutesAll (p : ProtocolDefinition) :
    Surroundings → TestRun → List SessionStep → Surroundings → TestRun → Prop where
  | none {env : Surroundings} {run : TestRun} : ExecutesAll p env run [] env run
  | next {env later : Surroundings} {run mid last : TestRun} {step : SessionStep}
      {rest : List SessionStep} :
      Executes env p step run mid →
      ExecutesAll p (env.later (step.ticks + 1)) mid rest later last →
      ExecutesAll p env run (step :: rest) later last

/-- A step of a session stops the run: it is rejected and the run aborted as the step found
    it, or it is accepted and has itself aborted the run. -/
inductive Stops (env : Surroundings) (p : ProtocolDefinition) (step : SessionStep)
    (run : TestRun) : TestRun → Prop where
  | rejected {e : EngineError} :
      (run.executeStep env p .all step.stepId step.inputs).1 = .error e →
      Stops env p step run (run.terminate (env.clock step.ticks) .aborted
        ("session step '" ++ step.stepId ++ "' rejected: " ++ e.message))
  | aborted {status : StepStatus} {next : TestRun} :
      run.executeStep env p .all step.stepId step.inputs = (.ok status, next) →
      next.Aborted → Stops env p step run next

/-- How a session ends a run. -/
inductive Ends (p : ProtocolDefinition) (env : Surroundings) (run : TestRun)
    (steps : List SessionStep) (last : TestRun) : Prop where
  | completed {later : Surroundings} {mid : TestRun} :
      ExecutesAll p env run steps later mid → mid.complete (later.clock 0) p = .ok last →
      Ends p env run steps last
  | early {later : Surroundings} {mid : TestRun} {e : EngineError} :
      ExecutesAll p env run steps later mid → mid.complete (later.clock 0) p = .error e →
      last = mid.terminate (later.clock 1) .aborted ("session ended early: " ++ e.message) →
      Ends p env run steps last
  /-- Some steps are executed, and the next one stops the run. -/
  | stopped {later : Surroundings} {mid : TestRun} {done rest : List SessionStep}
      {step : SessionStep} :
      steps = done ++ step :: rest → ExecutesAll p env run done later mid →
      Stops later p step mid last → Ends p env run steps last

theorem terminate_aborted (now : Instant) (reason : String) (run : TestRun) :
    (run.terminate now .aborted reason).Aborted :=
  ⟨rfl, rfl⟩

theorem Aborted.not_inProgress (h : run.Aborted) : run.status ≠ .inProgress := by
  simp [h.status]

theorem Aborted.not_completed (h : run.Aborted) : run.status ≠ .completed := by
  simp [h.status]

theorem recorded_goesOn (inProgress : run.status = .inProgress) (m : Measurement) :
    (recorded env p m run).2.status = .inProgress ∨ (recorded env p m run).2.Aborted := by
  unfold recorded
  split
  · exact .inl inProgress
  · exact .inl inProgress
  · exact .inr (terminate_aborted _ _ _)

/-- An execution leaves a run in progress, or aborts it and says why. -/
theorem executeStep_goesOn (inProgress : run.status = .inProgress) (env : Surroundings)
    (p : ProtocolDefinition) (set : HandlerSet) (stepId : String) (inputs : StepInputs) :
    (run.executeStep env p set stepId inputs).2.status = .inProgress ∨
      (run.executeStep env p set stepId inputs).2.Aborted := by
  have moved {run next : TestRun} (moved : run.Moved next)
      (before : run.status = .inProgress ∨ run.Aborted) :
      next.status = .inProgress ∨ next.Aborted := by
    rw [moved.same]
    exact before.imp_right fun aborted => ⟨aborted.status, aborted.reason⟩
  have parts : KeptInExecution env p fun _ run => run.status = .inProgress ∨ run.Aborted := by
    refine ⟨?_, ?_, ?_, ?_⟩
    · exact fun started => moved (startStep_moved started)
    · intro _ next _ _ _ record _
      obtain ⟨_, inProgress, _, _, _, same⟩ := record_ok.mp record
      rw [show next = _ from congrArg Prod.snd same]
      exact recorded_goesOn inProgress _
    · exact fun _ stepId outcome observations =>
        moved (finishStep_moved _ _ stepId outcome observations)
    · intro _ _ _ reason abort _
      obtain ⟨_, rfl⟩ := abort_ok.mp abort
      exact .inr (terminate_aborted _ reason _)
  obtain ⟨_, _, kept⟩ := parts.executeWith (.inl inProgress)
    (fun step => (set.resolve? step).map Handler.run) stepId inputs
  exact kept

theorem executeStep_changes (run : TestRun) (env : Surroundings) (p : ProtocolDefinition)
    (set : HandlerSet) (stepId : String) (inputs : StepInputs) :
    Changes run (run.executeStep env p set stepId inputs).2 := by
  have changes := call_changes run ⟨env, p, .execute stepId inputs set⟩
  rwa [call, apply, answeringAs_snd] at changes

theorem abortIfRunning_inProgress (inProgress : run.status = .inProgress) (now : Instant)
    (reason : String) : run.abortIfRunning now reason = run.terminate now .aborted reason := by
  rw [abortIfRunning, abort_ok.mpr ⟨inProgress, rfl⟩]

/-- A step of a session is executed, or it stops the run. -/
theorem Coherent.playStep_cases (h : run.Coherent) (inProgress : run.status = .inProgress)
    (env : Surroundings) (p : ProtocolDefinition) (step : SessionStep) :
    Executes env p step run (run.playStep env p step) ∨
      Stops env p step run (run.playStep env p step) := by
  have left := executeStep_goesOn inProgress env p .all step.stepId step.inputs
  rw [playStep]
  cases execution : run.executeStep env p .all step.stepId step.inputs with
  | mk answer next =>
      rw [execution] at left
      cases answer with
      | ok status =>
          exact left.imp (fun goesOn => ⟨⟨status, execution⟩, goesOn⟩) (.aborted execution)
      | error e =>
          have refused : (run.executeStep env p .all step.stepId step.inputs).1 = .error e :=
            congrArg Prod.fst execution
          have unchanged : next = run := by
            rw [← h.executeWith_refused refused]
            exact (congrArg Prod.snd execution).symm
          dsimp only
          rw [unchanged, abortIfRunning_inProgress inProgress]
          exact .inr (.rejected refused)

theorem Stops.ended (h : Stops env p step run next) : next.Aborted := by
  cases h with
  | rejected => exact terminate_aborted _ _ _
  | aborted _ aborted => exact aborted

theorem Executes.unique (h : Executes env p step run next) (k : Executes env p step run last) :
    next = last := by
  obtain ⟨⟨_, first⟩, _⟩ := h
  obtain ⟨⟨_, second⟩, _⟩ := k
  exact congrArg Prod.snd (first.symm.trans second)

theorem Stops.not_executes (h : Stops env p step run last) : ¬ Executes env p step run next := by
  rintro ⟨⟨status, accepted⟩, goesOn⟩
  cases h with
  | rejected refused =>
      rw [accepted] at refused
      cases refused
  | aborted execution aborted =>
      rw [accepted] at execution
      cases execution
      exact aborted.not_inProgress goesOn

theorem Executes.playStep (h : Executes env p step run next) : run.playStep env p step = next := by
  obtain ⟨⟨_, accepted⟩, _⟩ := h
  rw [TestRun.playStep, accepted]

theorem Executes.changes (h : Executes env p step run next) : Changes run next := by
  obtain ⟨⟨_, accepted⟩, _⟩ := h
  have changes := executeStep_changes run env p .all step.stepId step.inputs
  rwa [accepted] at changes

theorem ExecutesAll.changes (h : ExecutesAll p env run steps later last) : Changes run last := by
  induction h with
  | none => exact .refl
  | next executes _ ih => exact executes.changes.trans ih

theorem ExecutesAll.goesOn (h : ExecutesAll p env run steps later last)
    (inProgress : run.status = .inProgress) : last.status = .inProgress := by
  induction h with
  | none => exact inProgress
  | next executes _ ih => exact ih executes.goesOn

theorem ExecutesAll.unique {later' : Surroundings} {last' : TestRun}
    (h : ExecutesAll p env run steps later last) (k : ExecutesAll p env run steps later' last') :
    later = later' ∧ last = last' := by
  induction h with
  | none =>
      cases k
      exact ⟨rfl, rfl⟩
  | next executes _ ih =>
      cases k with
      | next executes' rest =>
          cases executes.unique executes'
          exact ih rest

/-- Steps that are executed are executed up to each of them. -/
theorem ExecutesAll.split (h : ExecutesAll p env run (done ++ rest) later last) :
    ∃ between mid, ExecutesAll p env run done between mid ∧
      ExecutesAll p between mid rest later last := by
  induction done generalizing env run with
  | nil => exact ⟨env, run, .none, h⟩
  | cons step done ih =>
      cases h with
      | next executes more =>
          obtain ⟨between, mid, before, after⟩ := ih more
          exact ⟨between, mid, .next executes before, after⟩

/-- Playing goes on after the steps that are executed. -/
theorem ExecutesAll.play (h : ExecutesAll p env run done later mid) (rest : List SessionStep) :
    run.play p env (done ++ rest) = mid.play p later rest := by
  induction h with
  | none => rfl
  | next executes _ ih =>
      rw [List.cons_append, TestRun.play, executes.playStep, isTerminal, executes.goesOn]
      exact ih

theorem Ends.cons (executes : Executes env p step run mid)
    (ends : Ends p (env.later (step.ticks + 1)) mid rest last) :
    Ends p env run (step :: rest) last := by
  cases ends with
  | completed all complete => exact .completed (.next executes all) complete
  | early all refused same => exact .early (.next executes all) refused same
  | stopped split before stops =>
      exact .stopped (congrArg (step :: ·) split) (.next executes before) stops

/-- Whatever its steps are, a session ends a run in progress. -/
theorem Coherent.play_ends (h : run.Coherent) (inProgress : run.status = .inProgress)
    (env : Surroundings) (p : ProtocolDefinition) (steps : List SessionStep) :
    Ends p env run steps (run.play p env steps) := by
  -- Each step that is executed leaves a coherent run in progress.
  induction steps generalizing env run with
  | nil =>
      rw [play, endSession]
      cases complete : run.complete (env.clock 0) p with
      | ok next => exact .completed .none complete
      | error e => exact .early .none complete (abortIfRunning_inProgress inProgress _ _)
  | cons step rest ih =>
      rw [play]
      rcases h.playStep_cases inProgress env p step with executes | stops
      · rw [isTerminal, executes.goesOn]
        exact .cons executes (ih (executes.changes.coherent h) executes.goesOn _)
      · rw [isTerminal, stops.ended.status]
        exact .stopped rfl .none stops

/-- What a session makes of a run. -/
structure Conducted (p : ProtocolDefinition) (env : Surroundings) (run : TestRun)
    (steps : List SessionStep) (last : TestRun) : Prop where
  terminal : last.isTerminal
  completed : last.status = .completed ↔ ∃ later mid,
    ExecutesAll p env run steps later mid ∧ ∀ ph ∈ mid.phases, ph.status.isClosed
  aborted : last.status ≠ .completed → last.Aborted
  /-- After the first step that is not executed nothing happens any more, whatever steps
      come next. -/
  stopped : ∀ done step rest later mid, steps = done ++ step :: rest →
    ExecutesAll p env run done later mid → (∀ next, ¬ Executes later p step mid next) →
      Stops later p step mid last ∧ ∀ other, run.play p env (done ++ step :: other) = last

theorem Ends.cases (h : Ends p env run steps last) : last.status = .completed ∨ last.Aborted := by
  cases h with
  | completed _ complete =>
      obtain ⟨_, _, _, rfl⟩ := complete_ok.mp complete
      exact .inl rfl
  | early _ _ same =>
      rw [same]
      exact .inr (terminate_aborted _ _ _)
  | stopped _ _ stops => exact .inr stops.ended

theorem Ends.completed_iff (h : Ends p env run steps last) (bound : run.BoundTo p)
    (inProgress : run.status = .inProgress) : last.status = .completed ↔ ∃ later mid,
      ExecutesAll p env run steps later mid ∧ ∀ ph ∈ mid.phases, ph.status.isClosed := by
  cases h with
  | completed all complete =>
      obtain ⟨_, _, closed, rfl⟩ := complete_ok.mp complete
      exact iff_of_true rfl ⟨_, _, all, closed⟩
  | @early later mid e all refused same =>
      rw [same]
      refine iff_of_false (terminate_aborted _ _ _).not_completed ?_
      rintro ⟨_, _, all', closed⟩
      obtain ⟨rfl, rfl⟩ := all.unique all'
      obtain ⟨_, complete⟩ : ∃ next, mid.complete (later.clock 0) p = .ok next :=
        ⟨_, complete_ok.mpr ⟨all.changes.bound bound, all.goesOn inProgress, closed, rfl⟩⟩
      rw [complete] at refused
      cases refused
  | stopped split before stops =>
      refine iff_of_false stops.ended.not_completed ?_
      rintro ⟨_, _, all, _⟩
      rw [split] at all
      obtain ⟨_, _, before', after⟩ := all.split
      obtain ⟨rfl, rfl⟩ := before.unique before'
      cases after with
      | next executes _ => exact stops.not_executes executes

theorem Stops.bound (h : Stops env p step run last) (bound : run.BoundTo p) : last.BoundTo p := by
  cases h with
  | rejected => exact bound
  | aborted execution =>
      have changes := executeStep_changes run env p .all step.stepId step.inputs
      rw [execution] at changes
      exact changes.bound bound

theorem Ends.bound (h : Ends p env run steps last) (bound : run.BoundTo p) : last.BoundTo p := by
  cases h with
  | completed all complete =>
      obtain ⟨_, _, _, rfl⟩ := complete_ok.mp complete
      exact all.changes.bound bound
  | early all _ same =>
      rw [same]
      exact all.changes.bound bound
  | stopped _ before stops => exact stops.bound (before.changes.bound bound)

/-- A run in progress is over at the end of a session. -/
theorem Coherent.play_conducted (h : run.Coherent) (bound : run.BoundTo p)
    (inProgress : run.status = .inProgress) (env : Surroundings) (steps : List SessionStep) :
    Conducted p env run steps (run.play p env steps) := by
  have ends := h.play_ends inProgress env p steps
  refine ⟨?_, ends.completed_iff bound inProgress, ends.cases.resolve_left, ?_⟩
  · rcases ends.cases with completed | aborted
    · rw [isTerminal, completed]
      rfl
    · rw [isTerminal, aborted.status]
      rfl
  · rintro done step rest later mid rfl before unexecuted
    have stops : Stops later p step mid (mid.playStep later p step) :=
      ((before.changes.coherent h).playStep_cases (before.goesOn inProgress) later p step)
        |>.resolve_left (unexecuted _)
    have played (other : List SessionStep) :
        run.play p env (done ++ step :: other) = mid.playStep later p step := by
      rw [before.play, TestRun.play, isTerminal, stops.ended.status]
      rfl
    rw [played]
    exact ⟨stops, played⟩

end Qualification.TestRun

namespace Qualification

open TestRun

/-- A run that is created is started, and conducted through its session. -/
theorem Session.execute_conducted {p : ProtocolDefinition} (valid : Validation.check p = .ok ())
    {env : Surroundings} {runId specimen operator : String} {parameters : Dictionary Json}
    {created : TestRun}
    (create : TestRun.create runId (env.clock 0) p specimen operator parameters = .ok created)
    (steps : List SessionStep) : ∃ started last,
      created.start (env.clock 1) = .ok started ∧
        execute env runId p specimen operator parameters steps = .ok last ∧
          last.BoundTo p ∧ Conducted p (env.later 2) started steps last := by
  have pending : created.status = .pending := by
    obtain ⟨_, _, rfl⟩ := map_ok create
    rfl
  obtain ⟨started, start⟩ : ∃ started, created.start (env.clock 1) = .ok started :=
    ⟨_, start_ok.mpr ⟨pending, rfl⟩⟩
  obtain ⟨changes, inProgress⟩ : Changes created started ∧ started.status = .inProgress := by
    obtain ⟨_, rfl⟩ := start_ok.mp start
    exact ⟨.single (.started _ pending), rfl⟩
  have coherent : started.Coherent := changes.coherent (create_coherent valid create)
  have bound : started.BoundTo p := changes.bound (create_bound create)
  have ends := coherent.play_ends inProgress (env.later 2) p steps
  refine ⟨started, _, start, ?_, ends.bound bound,
    coherent.play_conducted bound inProgress (env.later 2) steps⟩
  rw [execute, create]
  simp only [bind, Except.bind, start]
  rfl

end Qualification
