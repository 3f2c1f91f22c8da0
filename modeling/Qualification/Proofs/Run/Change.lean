import Mathlib.Logic.Relation
import Qualification.Proofs.Keyed
import Qualification.Proofs.Run.Accepted
import Qualification.Run.History

/-! # What can change in a run

A run changes at single strokes only, each under a condition on the run before. Every
operation is a row of such strokes, a refused one as far as it got: what they all keep,
every operation keeps.

Executing a step is no stroke of its own. It comes down to starting the step, recording
its readings, and finishing the step or aborting the run.

The outcome of an operation is read off the transition that it comes down to: the run that
is left, whether the operation is accepted, and what a refusal leaves.
-/

namespace Qualification.TestRun

variable {α : Type} {run : TestRun} {e : EngineError}

theorem not_accepted {outcome : Outcome α} :
    accepted outcome = false ↔ ∃ e, outcome.1 = .error e := by
  obtain ⟨result, next⟩ := outcome
  cases result with
  | error e => simp [accepted]
  | ok a => simp [accepted]

theorem not_refused {outcome : Outcome α} (h : accepted outcome) : outcome.1 ≠ .error e := by
  intro refused
  rw [not_accepted.mpr ⟨e, refused⟩] at h
  cases h

theorem answering_snd {answer : α → Answer} {result : Except EngineError (α × TestRun)} :
    (run.answering answer result).2 = match result with
      | .ok (_, next) => next
      | .error _ => run := by
  unfold answering
  split <;> rfl

/-- A transition leaves what it has if it is accepted, and the run as it was if not. -/
theorem answeringWith_leaves {P : TestRun → Prop} {answer : TestRun → Answer}
    {result : Except EngineError TestRun} (before : P run)
    (accepted : ∀ next, result = .ok next → P next) : P (run.answeringWith answer result).2 := by
  cases result with
  | error e => exact before
  | ok next => exact accepted next rfl

theorem answeringAs_snd {answer : α → Answer} {result : Outcome α} :
    (answeringAs answer result).2 = result.2 := by
  unfold answeringAs
  split <;> rfl

theorem answeringWith_accepted {answer : TestRun → Answer} {result : Except EngineError TestRun} :
    accepted (run.answeringWith answer result) ↔ ∃ next, result = .ok next := by
  cases result with
  | error e => simp [answeringWith, accepted]
  | ok next => simp [answeringWith, accepted]

theorem answeringAs_accepted {answer : α → Answer} {outcome : Outcome α} :
    accepted (answeringAs answer outcome) = accepted outcome := by
  obtain ⟨result, next⟩ := outcome
  cases result <;> rfl

theorem answering_refused {answer : α → Answer}
    {result : Except EngineError (α × TestRun)}
    (refused : (run.answering answer result).1 = .error e) :
    (run.answering answer result).2 = run := by
  cases result with
  | error _ => rfl
  | ok _ => cases refused

theorem answeringWith_refused {answer : TestRun → Answer} {result : Except EngineError TestRun}
    (refused : (run.answeringWith answer result).1 = .error e) :
    (run.answeringWith answer result).2 = run := by
  cases result with
  | error _ => rfl
  | ok _ => cases refused

theorem answeringAs_refused {answer : α → Answer} {outcome : Outcome α}
    (refused : (answeringAs answer outcome).1 = .error e) : outcome.1 = .error e := by
  obtain ⟨result, next⟩ := outcome
  cases result with
  | error _ => exact congrArg Except.error (Except.error.inj refused)
  | ok _ => cases refused

end Qualification.TestRun

namespace Qualification

/-- Is the operation more than a row of other operations? -/
def Operation.isSimple : Operation → Bool
  | .execute .. | .executeWith .. => false
  | _ => true

namespace TestRun

/-- A change of a run at a single stroke. -/
inductive Change (run : TestRun) : TestRun → Prop where
  | started (now : Instant) :
      run.status = .pending →
      Change run { run with status := .inProgress, startedAt := some now }
  | terminated (now : Instant) (status : RunStatus) (reason : String) :
      run.status = .inProgress → status = .failed ∨ status = .aborted →
      Change run (run.terminate now status reason)
  /-- The run ends with every phase closed. -/
  | completed (now : Instant) (p : ProtocolDefinition) :
      run.status = .inProgress → (∀ ph ∈ run.phases, ph.status.isClosed) →
      Change run { run.graded p with status := .completed, completedAt := some now }
  | judged (p : ProtocolDefinition) : Change run (run.judged p)
  /-- The completed run is judged and gets a new result. -/
  | graded (p : ProtocolDefinition) : run.status = .completed → Change run (run.graded p)
  | entered (now : Instant) (ph : PhaseRecord) :
      run.status = .inProgress → run.phase? ph.phaseId = some ph → ph.status = .pending →
      run.openBefore? ph.phaseId = none →
      Change run (run.changePhase ph.phaseId (TestRun.entered now))
  | left (now : Instant) (ph : PhaseRecord) :
      run.status = .inProgress → run.phase? ph.phaseId = some ph → ph.status = .inProgress →
      (∀ s ∈ run.stepsIn ph.phaseId, s.status.isTerminal) →
      Change run (run.changePhase ph.phaseId (TestRun.left now))
  /-- A step is started, its phase being open. -/
  | begun (now : Instant) (s : StepRecord) (ph : PhaseRecord) :
      run.startable s.stepId = .ok s → run.phase? s.phaseId = some ph →
      ph.status = .inProgress →
      Change run (run.changeStep s.stepId (TestRun.begun now))
  /-- A step is finished, and its phase is left with its last step. -/
  | finished (env : Surroundings) (stepId : String) (outcome : StepOutcome)
      (observations : Option String) :
      Change run (run.finishStep env stepId outcome observations).2
  | measured (m : Measurement) :
      run.status = .inProgress → Change run { run with ledger := run.ledger.append m }
  | flagged (id : String) (flag : QualityFlag) (notes : Option String) :
      Change run { run with ledger := run.ledger.setFlag id flag notes }

abbrev Changes : TestRun → TestRun → Prop :=
  Relation.ReflTransGen Change

variable {run next : TestRun} {now : Instant} {env : Surroundings} {p : ProtocolDefinition}

theorem phase?_id {phaseId : String} {ph : PhaseRecord} (found : run.phase? phaseId = some ph) :
    ph.phaseId = phaseId := by
  simpa using List.find?_some found

theorem step?_id {stepId : String} {s : StepRecord} (found : run.step? stepId = some s) :
    s.stepId = stepId := by
  simpa using List.find?_some found

theorem enterPhase_change {phaseId : String} (h : run.enterPhase now phaseId = .ok next) :
    Change run next := by
  obtain ⟨inProgress, ⟨ph, found, pending⟩, earlier, rfl⟩ := enterPhase_ok.mp h
  cases phase?_id found
  exact .entered now ph inProgress found pending earlier

theorem exitPhase_change {phaseId : String} (h : run.exitPhase now phaseId = .ok next) :
    Change run next := by
  obtain ⟨inProgress, ⟨ph, found, isOpen⟩, terminal, rfl⟩ := exitPhase_ok.mp h
  cases phase?_id found
  exact .left now ph inProgress found isOpen terminal

theorem phase?_changePhase {phaseId : String} {change : PhaseRecord → PhaseRecord}
    (kept : ∀ ph, (change ph).phaseId = ph.phaseId) :
    (run.changePhase phaseId change).phase? phaseId = (run.phase? phaseId).map change :=
  Keyed.find?_changeFirst kept run.phases

theorem step?_changeStep {stepId : String} {change : StepRecord → StepRecord}
    (kept : ∀ s, (change s).stepId = s.stepId) :
    (run.changeStep stepId change).step? stepId = (run.step? stepId).map change :=
  Keyed.find?_changeFirst kept run.steps

/-- Starting a step finds its phase open, or opens it first. -/
theorem enterPhaseOf_spec {s : StepRecord} {stepId : String}
    (h : run.enterPhaseOf now s stepId = .ok next) :
    (next = run ∨ run.enterPhase now s.phaseId = .ok next) ∧
      next.steps = run.steps ∧ next.status = run.status ∧
        ∃ ph, next.phase? s.phaseId = some ph ∧ ph.status = .inProgress := by
  obtain ⟨ph, found, ⟨isOpen, rfl⟩ | ⟨_, enter⟩⟩ := enterPhaseOf_ok.mp h
  · exact ⟨.inl rfl, rfl, rfl, ph, found, isOpen⟩
  · obtain ⟨_, _, _, rfl⟩ := enterPhase_ok.mp enter
    refine ⟨.inr enter, rfl, rfl, entered now ph, ?_, rfl⟩
    rw [phase?_changePhase (by intro; rfl), found]
    rfl

/-- A step that can be started still can when nothing changed but the phases. -/
theorem startable_of_same_steps {stepId : String} {s : StepRecord}
    (steps : next.steps = run.steps) (status : next.status = run.status)
    (h : run.startable stepId = .ok s) : next.startable stepId = .ok s := by
  obtain ⟨inProgress, found, pending, idle, earlier⟩ := startable_ok.mp h
  refine startable_ok.mpr ⟨status.trans inProgress, ?_, pending, ?_, ?_⟩
  · simpa only [step?, steps] using found
  · simpa only [activeStep?, steps] using idle
  · simpa only [stepsIn, steps] using earlier

theorem startStep_changes {stepId : String} (h : run.startStep env stepId = .ok next) :
    Changes run next := by
  obtain ⟨s, ready, startable, enter, rfl⟩ := startStep_ok.mp h
  obtain ⟨entering, steps, status, ph, found, isOpen⟩ := enterPhaseOf_spec enter
  have same := startable_of_same_steps steps status startable
  cases step?_id (startable_ok.mp startable).2.1
  have step : Change ready _ := .begun (env.clock 1) s ph same found isOpen
  rcases entering with rfl | entering
  · exact .single step
  · exact .tail (.single (enterPhase_change entering)) step

theorem recorded_changes (m : Measurement) (inProgress : run.status = .inProgress) :
    Changes run (recorded env p m run).2 := by
  unfold recorded
  split
  · exact .single (.measured m inProgress)
  · exact .single (.measured _ inProgress)
  · exact .tail (.single (.measured m inProgress))
      (.terminated (env.clock 1) .aborted _ inProgress (.inr rfl))

theorem simple_changes {c : Call} (simple : c.operation.isSimple) :
    Changes run (run.call c).2 := by
  obtain ⟨env, p, op⟩ := c
  have leaves {answer : TestRun → Answer} {result : Except EngineError TestRun}
      (accepted : ∀ next, result = .ok next → Changes run next) :
      Changes run (run.answeringWith answer result).2 :=
    answeringWith_leaves (P := Changes run) .refl accepted
  cases op with
  | start =>
      refine leaves fun next h => ?_
      obtain ⟨pending, rfl⟩ := start_ok.mp h
      exact .single (.started _ pending)
  | abort reason =>
      refine leaves fun next h => ?_
      obtain ⟨inProgress, rfl⟩ := abort_ok.mp h
      exact .single (.terminated _ _ _ inProgress (.inr rfl))
  | fail reason =>
      refine leaves fun next h => ?_
      obtain ⟨inProgress, rfl⟩ := fail_ok.mp h
      exact .single (.terminated _ _ _ inProgress (.inl rfl))
  | complete =>
      refine leaves fun next h => ?_
      obtain ⟨_, inProgress, closed, rfl⟩ := complete_ok.mp h
      exact .single (.completed _ p inProgress closed)
  | enterPhase phaseId =>
      exact leaves fun next h => .single (enterPhase_change h)
  | exitPhase phaseId =>
      exact leaves fun next h => .single (exitPhase_change h)
  | startStep stepId => exact leaves fun next h => startStep_changes h
  | finishStep stepId outcome observations =>
      rw [call, apply, answeringAs_snd]
      exact .single (.finished env stepId outcome observations)
  | record m =>
      rw [call, apply, answering_snd]
      cases h : run.record env p m with
      | error e => exact .refl
      | ok recording =>
          obtain ⟨kept, next⟩ := recording
          obtain ⟨_, inProgress, _, step, _, same⟩ := record_ok.mp h
          change Changes run (kept, next).2
          rw [same]
          exact recorded_changes _ inProgress
  | flag measurementId flag notes =>
      rw [call, apply, answering_snd]
      cases h : run.flag measurementId flag notes with
      | error e => exact .refl
      | ok flagging =>
          obtain ⟨kept, next⟩ := flagging
          obtain ⟨_, rfl⟩ := flag_ok.mp h
          exact .single (.flagged measurementId flag notes)
  | evaluate =>
      refine leaves fun next h => ?_
      obtain ⟨_, rfl⟩ := evaluate_ok.mp h
      split
      · exact .single (.graded p ‹_›)
      · exact .single (.judged p)
  | execute => cases simple
  | executeWith => cases simple

theorem after_append (calls more : List Call) :
    run.after (calls ++ more) = (run.after calls).after more := by
  induction calls generalizing run with
  | nil => rfl
  | cons c rest ih => exact ih

/-- Is the run what some simple calls leave of another one? -/
def Simply (run next : TestRun) : Prop :=
  ∃ calls : List Call, (∀ c ∈ calls, c.operation.isSimple) ∧ run.after calls = next

theorem Simply.refl (run : TestRun) : run.Simply run :=
  ⟨[], by simp, rfl⟩

theorem Simply.call (run : TestRun) (c : Call) (simple : c.operation.isSimple) :
    run.Simply (run.call c).2 :=
  ⟨[c], by simpa using simple, rfl⟩

theorem Simply.trans {last : TestRun} (first : run.Simply next) (second : next.Simply last) :
    run.Simply last := by
  obtain ⟨calls, simple, rfl⟩ := first
  obtain ⟨more, alsoSimple, rfl⟩ := second
  refine ⟨calls ++ more, fun c member => ?_, after_append calls more⟩
  exact (List.mem_append.mp member).elim (simple c) (alsoSimple c)

theorem Simply.ofCall (env : Surroundings) (p : ProtocolDefinition) (op : Operation)
    (simple : op.isSimple) (same : (run.call ⟨env, p, op⟩).2 = next) : run.Simply next :=
  same ▸ .call run ⟨env, p, op⟩ simple

theorem executable_ok {resolve : StepDef → Option Performer} {stepId : String} {step : StepDef}
    {performer : Performer} (h : run.executable p resolve stepId = .ok (step, performer)) :
    run.BoundTo p ∧
      ∃ phase, p.step? stepId = some (phase, step) ∧ resolve step = some performer := by
  obtain ⟨_, bound, h⟩ := bind_ok h
  split at h
  · cases h
  · rename_i phase found known
    split at h
    · cases h
    · rename_i handler resolved
      cases h
      exact ⟨requireProtocol_ok.mp bound, phase, known, resolved⟩

/-- The readings that are made of a step, if it is there and its performer can. -/
def readingsOf (p : ProtocolDefinition) (resolve : StepDef → Option Performer) (stepId : String)
    (inputs : StepInputs) : List NewMeasurement :=
  match p.step? stepId with
  | none => []
  | some (_, step) =>
      match resolve step with
      | none => []
      | some performer =>
          match performer step inputs with
          | .error _ => []
          | .ok result => result.readings

/-- How many readings of the clock the execution of a step may take. -/
def executionTicks (p : ProtocolDefinition) (resolve : StepDef → Option Performer)
    (stepId : String) (inputs : StepInputs) : Nat :=
  2 * (readingsOf p resolve stepId inputs).length + 4

/-- Does every part of an execution keep it: starting the step, recording its readings by
    the protocol, finishing the step, aborting the run? It may speak of the number of readings
    of the clock that are past; every part takes two at most. -/
structure KeptInExecution (env : Surroundings) (p : ProtocolDefinition)
    (Kept : Nat → TestRun → Prop) : Prop where
  started : ∀ {run next n stepId}, run.startStep (env.later n) stepId = .ok next →
    Kept n run → Kept (n + 2) next
  recorded : ∀ {run next n m kept}, run.record (env.later n) p m = .ok (kept, next) →
    Kept n run → Kept (n + 2) next
  finished : ∀ {run} n stepId outcome observations,
    Kept n run → Kept (n + 2) (run.finishStep (env.later n) stepId outcome observations).2
  aborted : ∀ {run next n reason}, run.abort (env.clock n) reason = .ok next →
    Kept n run → Kept (n + 2) next

theorem later_zero (env : Surroundings) : env.later 0 = env := by
  simp [Surroundings.later]

theorem later_later (env : Surroundings) (n m : Nat) :
    (env.later n).later m = env.later (n + m) := by
  simp [Surroundings.later, Nat.add_assoc]

section Execution

variable {Kept : Nat → TestRun → Prop} {stepId reason : String} {n : Nat}

theorem KeptInExecution.abortStep (h : KeptInExecution env p Kept) (kept : Kept n run) :
    ∃ m ≤ n + 2, Kept m (run.abortStep (env.clock n) stepId reason).2 := by
  rw [TestRun.abortStep]
  split
  · rename_i aborted
    exact ⟨n + 2, Nat.le_refl _, h.aborted aborted kept⟩
  · exact ⟨n, Nat.le_add_right n 2, kept⟩

theorem KeptInExecution.recordThenFinish (h : KeptInExecution env p Kept) (kept : Kept n run)
    (result : HandlerOutcome) (readings : List NewMeasurement) :
    ∃ m ≤ n + 2 * readings.length + 2,
      Kept m (TestRun.recordThenFinish (env.later n) p stepId result readings run).2 := by
  induction readings generalizing n run with
  | nil =>
      have finish := h.finished n stepId result.outcome result.observations kept
      refine ⟨n + 2, by simp, ?_⟩
      rw [TestRun.recordThenFinish, finishExecuted]
      split <;> simpa only [*] using finish
  | cons m rest ih =>
      rw [List.length_cons, TestRun.recordThenFinish]
      split
      · obtain ⟨last, within, kept⟩ := h.abortStep kept
        exact ⟨last, by omega, kept⟩
      · rename_i recorded
        have next := h.recorded recorded kept
        split
        · obtain ⟨last, within, kept⟩ := ih next
          rw [later_later]
          exact ⟨last, by omega, kept⟩
        · exact ⟨n + 2, by omega, next⟩

/-- What every part of an execution keeps, the execution keeps. -/
theorem KeptInExecution.executeWith (h : KeptInExecution env p Kept) (kept : Kept 0 run)
    (resolve : StepDef → Option Performer) (stepId : String) (inputs : StepInputs) :
    ∃ m ≤ executionTicks p resolve stepId inputs,
      Kept m (run.executeWith env p resolve stepId inputs).2 := by
  rw [TestRun.executeWith]
  split
  · exact ⟨0, Nat.zero_le _, kept⟩
  · rename_i step performer executable
    obtain ⟨_, phase, known, resolved⟩ := executable_ok executable
    split
    · exact ⟨0, Nat.zero_le _, kept⟩
    · rename_i start
      have started := h.started (n := 0) (by rwa [later_zero]) kept
      rw [TestRun.perform, executionTicks]
      split
      · have finish := h.finished 2 stepId .skipped inputs.observations started
        refine ⟨4, by omega, ?_⟩
        split <;> simpa only [*] using finish
      · split
        · obtain ⟨last, within, kept⟩ := h.abortStep started
          exact ⟨last, by omega, kept⟩
        · rename_i result done
          obtain ⟨last, within, kept⟩ := h.recordThenFinish started result result.readings
          have readings : readingsOf p resolve stepId inputs = result.readings := by
            simp [readingsOf, known, resolved, done]
          rw [readings]
          exact ⟨last, by omega, kept⟩

end Execution

/-- Executing a step is a row of simple calls. -/
theorem executeWith_simply {resolve : StepDef → Option Performer} {stepId : String}
    {inputs : StepInputs} : run.Simply (run.executeWith env p resolve stepId inputs).2 := by
  have parts : KeptInExecution env p fun _ => run.Simply := by
    refine ⟨?_, ?_, ?_, ?_⟩
    · intro mid next n stepId started before
      refine before.trans (.ofCall (env.later n) p (.startStep stepId) rfl ?_)
      rw [call, apply, started]
      rfl
    · intro mid next n m kept recorded before
      refine before.trans (.ofCall (env.later n) p (.record m) rfl ?_)
      rw [call, apply, recorded]
      rfl
    · intro mid n stepId outcome observations before
      refine before.trans
        (.ofCall (env.later n) p (.finishStep stepId outcome observations) rfl ?_)
      rw [call, apply, answeringAs_snd]
    · intro mid next n reason aborted before
      refine before.trans (.ofCall (env.later n) p (.abort reason) rfl ?_)
      rw [call, apply]
      simp only [Surroundings.later, Nat.add_zero, aborted]
      rfl
  obtain ⟨_, _, simply⟩ := parts.executeWith (.refl run) resolve stepId inputs
  exact simply

theorem call_simply (run : TestRun) (c : Call) : run.Simply (run.call c).2 := by
  obtain ⟨env, p, op⟩ := c
  cases op with
  | execute stepId inputs handlers =>
      rw [call, apply, answeringAs_snd]
      exact executeWith_simply
  | executeWith stepId inputs resolve =>
      rw [call, apply, answeringAs_snd]
      exact executeWith_simply
  | _ => exact .call run _ rfl

/-- What every simple call keeps, every call keeps. -/
theorem call_keeps {Kept : TestRun → Prop}
    (simple : ∀ run c, c.operation.isSimple → Kept run → Kept (run.call c).2)
    (c : Call) (h : Kept run) : Kept (run.call c).2 := by
  obtain ⟨calls, allSimple, same⟩ := call_simply run c
  rw [← same]
  clear same
  induction calls generalizing run with
  | nil => exact h
  | cons first rest ih =>
      obtain ⟨firstSimple, restSimple⟩ := List.forall_mem_cons.mp allSimple
      exact ih (simple run first firstSimple h) restSimple

theorem call_changes (run : TestRun) (c : Call) : Changes run (run.call c).2 :=
  call_keeps (fun _ _ simple before => before.trans (simple_changes simple)) c .refl

end TestRun
end Qualification
