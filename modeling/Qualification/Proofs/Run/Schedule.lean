import Qualification.Proofs.Run.Atomic
import Qualification.Proofs.Run.Orderly

/-! # The schedule of a run

While a run is in progress and not every phase is closed, one step transition is due and no
other is accepted: finishing the step in progress, or else starting the first pending one.
Once every phase is closed no step transition is left, and the run can be completed.
-/

namespace Qualification

/-- Is the operation a transition of a step? -/
def Operation.movesStep : Operation → Bool
  | .startStep .. | .finishStep .. => true
  | _ => false

/-- A step transition that is due. -/
inductive Due where
  | start (stepId : String)
  /-- The step is to be finished, whatever its outcome. -/
  | finish (stepId : String)
  deriving Repr, DecidableEq

def Due.Admits : Due → Operation → Prop
  | start stepId, op => op = .startStep stepId
  | finish stepId, op => ∃ outcome observations, op = .finishStep stepId outcome observations

namespace TestRun

/-- The first step in order that is not started. -/
def firstPending? (run : TestRun) : Option StepRecord :=
  run.steps.find? fun s => s.status = .pending

def due? (run : TestRun) : Option Due :=
  match run.activeStep? with
  | some s => some (.finish s.stepId)
  | none => run.firstPending?.map fun s => .start s.stepId

/-- The schedule of a run in progress leaves no choice. -/
structure Forced (p : ProtocolDefinition) (run : TestRun) : Prop where
  closed : (∀ ph ∈ run.phases, ph.status.isClosed) →
    (∀ env, accepted (run.call ⟨env, p, .complete⟩)) ∧
      ∀ c : Call, c.operation.movesStep → ¬ accepted (run.call c)
  unclosed : (¬ ∀ ph ∈ run.phases, ph.status.isClosed) →
    (∀ env q, ¬ accepted (run.call ⟨env, q, .complete⟩)) ∧
      ∃ due, run.due? = some due ∧
        ∀ c : Call, c.operation.movesStep →
          (accepted (run.call c) ↔ due.Admits c.operation)

variable {run next : TestRun} {env : Surroundings} {p : ProtocolDefinition} {stepId : String}

theorem activeStep?_some {s : StepRecord} (h : run.activeStep? = some s) :
    s ∈ run.steps ∧ s.status = .inProgress :=
  ⟨List.mem_of_find?_eq_some h, by simpa using List.find?_some h⟩

theorem activeStep?_none :
    run.activeStep? = none ↔ ∀ s ∈ run.steps, s.status ≠ .inProgress := by
  simp [activeStep?]

theorem firstPending?_some {s : StepRecord} (h : run.firstPending? = some s) :
    s ∈ run.steps ∧ s.status = .pending :=
  ⟨List.mem_of_find?_eq_some h, by simpa using List.find?_some h⟩

theorem firstPending?_none :
    run.firstPending? = none ↔ ∀ s ∈ run.steps, s.status ≠ .pending := by
  simp [firstPending?]

theorem due?_eq_start : run.due? = some (.start stepId) ↔
    run.activeStep? = none ∧ ∃ s, run.firstPending? = some s ∧ s.stepId = stepId := by
  unfold due?
  split
  · rename_i active
    simp [active]
  · rename_i idle
    simp [idle]

theorem due?_eq_finish : run.due? = some (.finish stepId) ↔
    ∃ s, run.activeStep? = some s ∧ s.stepId = stepId := by
  unfold due?
  split
  · rename_i active
    simp [active]
  · rename_i idle
    simp [idle]

/-- Nothing is due when all steps are over, and only then. -/
theorem due?_eq_none : run.due? = none ↔ ∀ s ∈ run.steps, s.status.isTerminal := by
  have terminalIff : ∀ s : StepStatus, s.isTerminal ↔ s ≠ .inProgress ∧ s ≠ .pending := by
    intro s
    cases s <;> simp
  unfold due?
  split
  · rename_i s active
    obtain ⟨member, inProgress⟩ := activeStep?_some active
    refine ⟨fun none => (by cases none), fun terminal => ?_⟩
    simpa [inProgress] using terminal s member
  · rename_i idle
    rw [Option.map_eq_none_iff, firstPending?_none]
    simp only [terminalIff]
    exact ⟨fun notPending s member => ⟨activeStep?_none.mp idle s member, notPending s member⟩,
      fun terminal s member => (terminal s member).2⟩

theorem Agreeing.active_unique (h : run.Agreeing) {s t : StepRecord} (hs : s ∈ run.steps)
    (ht : t ∈ run.steps) (active : s.status = .inProgress) (also : t.status = .inProgress) :
    s = t := by
  obtain same | before | after :=
    h.wellFormed.trichotomy (List.mem_map_of_mem hs) (List.mem_map_of_mem ht)
  · exact eq_of_stepId h.wellFormed hs ht (congrArg Slot.stepId same)
  · have order := h.stepOrder s hs t ht before
    simp [active, also] at order
  · have order := h.stepOrder t ht s hs after
    simp [active, also] at order

/-- Every other pending step comes after the first one. -/
theorem Agreeing.firstPending_before (h : run.Agreeing) {s t : StepRecord}
    (first : run.firstPending? = some s) (member : t ∈ run.steps)
    (pending : t.status = .pending) : t = s ∨ run.layout.Before s.slot t.slot := by
  obtain ⟨_, earlier, later, split, skipped⟩ := List.find?_eq_some_iff_append.mp first
  have ordered : run.steps.Pairwise fun a b => run.layout.Before a.slot b.slot :=
    List.pairwise_map.mp h.wellFormed.ordered
  rw [split] at member ordered
  rcases List.mem_append.mp member with inEarlier | _ | ⟨_, inLater⟩
  · simpa [pending] using skipped t inEarlier
  · exact .inl rfl
  · exact .inr ((List.pairwise_cons.mp (List.pairwise_append.mp ordered).2.1).1 t inLater)

/-- When no step is in progress, everything before the first pending one is over. -/
theorem Agreeing.over_before_first (h : run.Agreeing) (idle : run.activeStep? = none)
    {s t : StepRecord} (first : run.firstPending? = some s) (member : t ∈ run.steps)
    (before : run.layout.Before t.slot s.slot) : t.status.isTerminal := by
  cases status : t.status with
  | completed | failed | skipped => rfl
  | inProgress => exact absurd status (activeStep?_none.mp idle t member)
  | pending =>
      rcases h.firstPending_before first member status with rfl | after
      · exact absurd before before.asymm
      · exact absurd before after.asymm

/-- A step that can be started is the one that is due. -/
theorem Coherent.due_of_startStep (h : run.Coherent) (start : run.startStep env stepId = .ok next) :
    run.due? = some (.start stepId) := by
  obtain ⟨s, ready, startable, enter, rfl⟩ := startStep_ok.mp start
  obtain ⟨entering, steps, status, ph, phaseFound, isOpen⟩ := enterPhaseOf_spec enter
  obtain ⟨_, found, pending, idle, _⟩ := startable_ok.mp startable
  obtain ⟨inProgress, _, _, _, earlier⟩ :=
    startable_ok.mp (startable_of_same_steps steps status startable)
  have readyCoherent : ready.Coherent := by
    rcases entering with rfl | entering
    · exact h
    · exact (enterPhase_change entering).coherent h
  have member : s ∈ run.steps := List.mem_of_find?_eq_some found
  refine due?_eq_start.mpr ⟨idle, ?_⟩
  cases first : run.firstPending? with
  | none => exact absurd pending (firstPending?_none.mp first s member)
  | some t =>
      have readyFirst : ready.firstPending? = some t := by rwa [firstPending?, steps]
      obtain ⟨inSteps, waiting⟩ := firstPending?_some readyFirst
      rcases readyCoherent.firstPending_before readyFirst (steps ▸ member) pending with rfl | before
      · exact ⟨s, rfl, step?_id found⟩
      · have terminal := readyCoherent.over_before inProgress (List.mem_of_find?_eq_some phaseFound)
          (phase?_id phaseFound).symm (by simp [isOpen]) earlier inSteps before
        simp [waiting] at terminal

/-- The first pending step can be started, whether its phase is open or still to be entered. -/
theorem Coherent.startStep_of_due (h : run.Coherent) (inProgress : run.status = .inProgress)
    (due : run.due? = some (.start stepId)) (env : Surroundings) :
    ∃ next, run.startStep env stepId = .ok next := by
  obtain ⟨idle, s, first, rfl⟩ := due?_eq_start.mp due
  obtain ⟨member, pending⟩ := firstPending?_some first
  have startable : run.startable s.stepId = .ok s := by
    refine startable_ok.mpr ⟨inProgress, step?_of_mem h.wellFormed member, pending, idle, ?_⟩
    intro t owned less
    obtain ⟨inSteps, samePhase⟩ := mem_stepsIn.mp owned
    exact h.over_before_first idle first inSteps (.inr ⟨samePhase, less⟩)
  obtain ⟨ph, phase, owner⟩ := exists_phase h.wellFormed member
  have found : run.phase? s.phaseId = some ph := owner ▸ phase?_of_mem h.wellFormed phase
  have unclosed : ¬ ph.status.isClosed := by
    intro closed
    have terminal := h.over_of_closed inProgress phase closed member owner.symm
    simp [pending] at terminal
  have enter : ∃ ready, run.enterPhaseOf (env.clock 0) s s.stepId = .ok ready := by
    cases status : ph.status with
    | inProgress => exact ⟨run, enterPhaseOf_ok.mpr ⟨ph, found, .inl ⟨status, rfl⟩⟩⟩
    | pending =>
        have earlier : run.openBefore? s.phaseId = none := by
          refine (openBefore?_eq_none h.wellFormed).mpr fun a inA before => ?_
          refine h.closed_of_over inA fun t step owned => ?_
          refine h.over_before_first idle first step (.inl ?_)
          rw [StepRecord.slot, owned]
          exact before
        exact ⟨_, enterPhaseOf_ok.mpr ⟨ph, found, .inr ⟨status,
          enterPhase_ok.mpr ⟨inProgress, ⟨ph, found, status⟩, earlier, rfl⟩⟩⟩⟩
    | completed | failed => simp [status] at unclosed
  obtain ⟨ready, enter⟩ := enter
  exact ⟨_, startStep_ok.mpr ⟨s, ready, startable, enter, rfl⟩⟩

theorem Agreeing.finishable_iff_due (h : run.Agreeing) (inProgress : run.status = .inProgress) :
    (∃ s, run.finishable stepId = .ok s) ↔ run.due? = some (.finish stepId) := by
  rw [due?_eq_finish]
  constructor
  · rintro ⟨s, finishable⟩
    obtain ⟨_, found, active⟩ := finishable_ok.mp finishable
    have member : s ∈ run.steps := List.mem_of_find?_eq_some found
    cases first : run.activeStep? with
    | none => exact absurd active (activeStep?_none.mp first s member)
    | some t =>
        obtain ⟨inSteps, also⟩ := activeStep?_some first
        obtain rfl := h.active_unique member inSteps active also
        exact ⟨s, rfl, step?_id found⟩
  · rintro ⟨s, first, rfl⟩
    obtain ⟨member, active⟩ := activeStep?_some first
    exact ⟨s, finishable_ok.mpr ⟨inProgress, step?_of_mem h.wellFormed member, active⟩⟩

theorem complete_accepted : accepted (run.call ⟨env, p, .complete⟩) ↔
    run.BoundTo p ∧ run.status = .inProgress ∧ ∀ ph ∈ run.phases, ph.status.isClosed := by
  rw [call, apply, answeringWith_accepted]
  constructor
  · rintro ⟨next, completed⟩
    obtain ⟨bound, inProgress, closed, _⟩ := complete_ok.mp completed
    exact ⟨bound, inProgress, closed⟩
  · rintro ⟨bound, inProgress, closed⟩
    exact ⟨_, complete_ok.mpr ⟨bound, inProgress, closed, rfl⟩⟩

theorem Coherent.finishStep_accepted (h : run.Coherent) {outcome : StepOutcome}
    {observations : Option String} :
    accepted (run.finishStep env stepId outcome observations) ↔
      ∃ s, run.finishable stepId = .ok s := by
  cases finishable : run.finishable stepId with
  | error e => simp [finishStep, finishable, accepted]
  | ok s =>
      obtain ⟨next, same, _⟩ := h.finishStep_ok finishable env outcome observations
      simp [same, accepted]

/-- In a run in progress the step transitions accepted are those that are due. -/
theorem Coherent.accepted_iff_due (h : run.Coherent) (inProgress : run.status = .inProgress)
    {c : Call} (moves : c.operation.movesStep) :
    accepted (run.call c) ↔ ∃ due, run.due? = some due ∧ due.Admits c.operation := by
  obtain ⟨env, p, op⟩ := c
  cases op with
  | startStep stepId =>
      rw [call, apply, answeringWith_accepted]
      constructor
      · rintro ⟨next, start⟩
        exact ⟨.start stepId, h.due_of_startStep start, rfl⟩
      · rintro ⟨_ | _, due, admits⟩
        · cases admits
          exact h.startStep_of_due inProgress due env
        · obtain ⟨_, _, other⟩ := admits
          cases other
  | finishStep stepId outcome observations =>
      rw [call, apply, answeringAs_accepted, h.finishStep_accepted, h.finishable_iff_due inProgress]
      constructor
      · exact fun due => ⟨.finish stepId, due, outcome, observations, rfl⟩
      · rintro ⟨_ | _, due, admits⟩
        · cases admits
        · obtain ⟨_, _, same⟩ := admits
          cases same
          exact due
  | _ => cases moves

/-- In a run in progress every phase is closed when every step is over, and only then. -/
theorem Coherent.closed_iff_over (h : run.Coherent) (inProgress : run.status = .inProgress) :
    (∀ ph ∈ run.phases, ph.status.isClosed) ↔ ∀ s ∈ run.steps, s.status.isTerminal := by
  constructor
  · intro closed s member
    obtain ⟨ph, phase, owner⟩ := exists_phase h.wellFormed member
    exact h.over_of_closed inProgress phase (closed ph phase) member owner.symm
  · exact fun terminal ph phase => h.closed_of_over phase fun s member _ => terminal s member

theorem Coherent.forced (h : run.Coherent) (bound : run.BoundTo p)
    (inProgress : run.status = .inProgress) : run.Forced p where
  closed closed := by
    refine ⟨fun env => complete_accepted.mpr ⟨bound, inProgress, closed⟩, fun c moves => ?_⟩
    have none : run.due? = none := due?_eq_none.mpr ((h.closed_iff_over inProgress).mp closed)
    rw [h.accepted_iff_due inProgress moves, none]
    rintro ⟨_, due, _⟩
    cases due
  unclosed unclosed := by
    refine ⟨fun env q completed => unclosed (complete_accepted.mp completed).2.2, ?_⟩
    cases next : run.due? with
    | none => exact absurd ((h.closed_iff_over inProgress).mpr (due?_eq_none.mp next)) unclosed
    | some due =>
        refine ⟨due, rfl, fun c moves => ?_⟩
        rw [h.accepted_iff_due inProgress moves, next]
        simp

end TestRun
end Qualification
