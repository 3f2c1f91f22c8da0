import Qualification.Proofs.Run.Coherence

/-! # Refused operations change nothing

Most operations check everything before they change the run. Finishing a step leaves its
phase after the step is changed, and executing one comes back to the run many times: what
they do after their first change could still be refused. In a coherent run it never is.
-/

namespace Qualification.TestRun

variable {run next : TestRun} {env : Surroundings} {p : ProtocolDefinition} {stepId : String}
  {e : EngineError}

/-- A step just started is the one that can be finished. -/
theorem startStep_finishable (h : run.startStep env stepId = .ok next) :
    ∃ s, run.step? stepId = some s ∧ next.finishable stepId = .ok (begun (env.clock 1) s) := by
  obtain ⟨s, ready, startable, enter, rfl⟩ := startStep_ok.mp h
  obtain ⟨_, steps, status, _⟩ := enterPhaseOf_spec enter
  obtain ⟨inProgress, found, _⟩ := startable_ok.mp startable
  have readyFound : ready.step? stepId = some s := by
    rw [step?, steps]
    exact found
  refine ⟨s, found, finishable_ok.mpr ⟨status.trans inProgress, ?_, rfl⟩⟩
  rw [step?_changeStep (by intro; rfl), readyFound]
  rfl

/-- While the run goes on, a recorded measurement leaves the steps alone. -/
theorem record_finishable {m : NewMeasurement} {kept : Measurement} {s : StepRecord}
    (h : run.record env p m = .ok (kept, next)) (goesOn : next.status = .inProgress)
    (finishable : run.finishable stepId = .ok s) : next.finishable stepId = .ok s := by
  obtain ⟨_, _, _, step, _, same⟩ := record_ok.mp h
  obtain ⟨_, found, active⟩ := finishable_ok.mp finishable
  refine finishable_ok.mpr ⟨goesOn, ?_, active⟩
  obtain rfl : next = (recorded env p (entryOf env run step m) run).2 := congrArg Prod.snd same
  unfold recorded at goesOn ⊢
  split at goesOn
  · exact found
  · exact found
  · cases goesOn

theorem abortStep_accepted (now : Instant) (reason : String)
    (inProgress : run.status = .inProgress) : accepted (run.abortStep now stepId reason) := by
  rw [abortStep, abort_ok.mpr ⟨inProgress, rfl⟩]
  rfl

theorem Coherent.finishExecuted_accepted (h : run.Coherent) {s : StepRecord}
    (finishable : run.finishable stepId = .ok s) (outcome : StepOutcome)
    (observations : Option String) :
    accepted (run.finishExecuted env stepId outcome observations) := by
  obtain ⟨next, same, _⟩ := h.finishStep_ok finishable env outcome observations
  rw [finishExecuted, same]
  rfl

/-- However the readings of a step come out, recording them is not refused. -/
theorem Coherent.recordThenFinish_accepted (h : run.Coherent) {s : StepRecord}
    (finishable : run.finishable stepId = .ok s) (result : HandlerOutcome)
    (readings : List NewMeasurement) :
    accepted (recordThenFinish env p stepId result readings run) := by
  induction readings generalizing env run with
  | nil => exact h.finishExecuted_accepted finishable result.outcome result.observations
  | cons m rest ih =>
      rw [recordThenFinish]
      cases record : run.record env p { m with stepId := some stepId } with
      | error e => exact abortStep_accepted _ _ (finishable_ok.mp finishable).1
      | ok recording =>
          obtain ⟨kept, next⟩ := recording
          obtain ⟨_, inProgress, _, _, _, same⟩ := record_ok.mp record
          have coherent : next.Coherent := by
            rw [show next = _ from congrArg Prod.snd same]
            exact (recorded_changes _ inProgress).coherent h
          dsimp only
          split
          · rename_i goesOn
            exact ih coherent (record_finishable record goesOn finishable)
          · rfl

/-- Once a step is started, what is left of its execution is not refused. -/
theorem Coherent.perform_accepted (h : run.Coherent) {s : StepRecord}
    (finishable : run.finishable stepId = .ok s) (step : StepDef) (performer : Performer)
    (inputs : StepInputs) : accepted (run.perform env p step performer stepId inputs) := by
  unfold perform
  split
  · obtain ⟨next, same, _⟩ := h.finishStep_ok finishable env .skipped inputs.observations
    rw [same]
    rfl
  · split
    · exact abortStep_accepted _ _ (finishable_ok.mp finishable).1
    · exact h.recordThenFinish_accepted finishable _ _

theorem Coherent.finishStep_refused (h : run.Coherent) {outcome : StepOutcome}
    {observations : Option String}
    (refused : (run.finishStep env stepId outcome observations).1 = .error e) :
    (run.finishStep env stepId outcome observations).2 = run := by
  cases finishable : run.finishable stepId with
  | error e => rw [finishStep, finishable]
  | ok s =>
      obtain ⟨next, same, _⟩ := h.finishStep_ok finishable env outcome observations
      rw [same] at refused
      cases refused

/-- Executing a step is refused before it starts, or not at all. -/
theorem Coherent.executeWith_refused (h : run.Coherent) {resolve : StepDef → Option Performer}
    {inputs : StepInputs}
    (refused : (run.executeWith env p resolve stepId inputs).1 = .error e) :
    (run.executeWith env p resolve stepId inputs).2 = run := by
  unfold executeWith at refused ⊢
  split
  · rfl
  · rename_i step performer executable
    rw [executable] at refused
    dsimp only at refused ⊢
    cases start : run.startStep env stepId with
    | error e => rfl
    | ok started =>
        obtain ⟨s, _, finishable⟩ := startStep_finishable start
        have coherent : started.Coherent := (startStep_changes start).coherent h
        rw [start] at refused
        exact absurd refused
          (not_refused (coherent.perform_accepted finishable step performer inputs))

theorem Coherent.call_unchanged (h : run.Coherent) (c : Call)
    (refused : (run.call c).1 = .error e) : (run.call c).2 = run := by
  obtain ⟨env, p, op⟩ := c
  cases op with
  | start | abort | fail | complete | enterPhase | exitPhase | startStep | evaluate =>
      exact answeringWith_refused refused
  | record | flag => exact answering_refused refused
  | finishStep stepId outcome observations =>
      exact answeringAs_snd.trans (h.finishStep_refused (answeringAs_refused refused))
  | execute stepId inputs handlers =>
      exact answeringAs_snd.trans (h.executeWith_refused (answeringAs_refused refused))
  | executeWith stepId inputs resolve =>
      exact answeringAs_snd.trans (h.executeWith_refused (answeringAs_refused refused))

/-- Whatever operation is refused, the run is as it was before. -/
theorem refused_unchanged (valid : Validation.check p = .ok ()) (reachable : Reachable p run)
    (c : Call) (refused : (run.call c).1 = .error e) : (run.call c).2 = run :=
  (reachable.coherent valid).call_unchanged c refused

theorem mount_refused_unchanged :
    Reachable .twoPhases (ofTwoPhases.after [still .start]) ∧
      ((ofTwoPhases.after [still .start]).call (still (.startStep "mount"))).1 =
        .error (.invalidTransition .step "mount" "PENDING" "start"
          "step 'inspect' (sequence 1) has not finished") ∧
      ((ofTwoPhases.after [still .start]).call (still (.startStep "mount"))).2 =
        ofTwoPhases.after [still .start] := by
  have reachable : Reachable .twoPhases (ofTwoPhases.after [still .start]) :=
    (Reachable.created ofTwoPhases_created).after _
  have refused : ((ofTwoPhases.after [still .start]).call (still (.startStep "mount"))).1 =
      .error (.invalidTransition .step "mount" "PENDING" "start"
        "step 'inspect' (sequence 1) has not finished") := by cbv
  exact ⟨reachable, refused, refused_unchanged twoPhases_valid reachable _ refused⟩

end Qualification.TestRun
