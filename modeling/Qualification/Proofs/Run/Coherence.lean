import Qualification.Proofs.Run.Order

/-! # Coherent runs

The three levels of status of a run agree: the run admits the statuses of its phases, and
each phase those of its steps. Along the layout everything before a record that has begun
is over. An open phase still has something to do.

Every stroke keeps this, so it holds of every run that comes of a valid protocol.
-/

namespace Qualification

/-- May a run of this status have a phase of that one? -/
@[simp]
def RunStatus.Admits : RunStatus → PhaseStatus → Prop
  | .pending, ph => ph = .pending
  | .inProgress, ph => ph ≠ .failed
  | .completed, ph => ph = .completed
  | .failed, ph | .aborted, ph => ph ≠ .inProgress

/-- May a phase of this status have a step of that one? -/
@[simp]
def PhaseStatus.Admits : PhaseStatus → StepStatus → Prop
  | .pending, s => s = .pending
  | .inProgress, _ => True
  | .completed, s => s.isTerminal
  | .failed, s => s ≠ .inProgress

namespace TestRun

/-- The statuses agree from level to level, and along the layout. -/
structure Agreeing (run : TestRun) : Prop where
  wellFormed : run.layout.WellFormed
  runAdmits : ∀ ph ∈ run.phases, run.status.Admits ph.status
  phaseAdmits : ∀ ph ∈ run.phases, ∀ s ∈ run.steps, s.phaseId = ph.phaseId →
    ph.status.Admits s.status
  phaseOrder : ∀ a ∈ run.phases, ∀ b ∈ run.phases, run.layout.Earlier a.phaseId b.phaseId →
    a.status.isClosed ∨ b.status = .pending
  stepOrder : ∀ s ∈ run.steps, ∀ t ∈ run.steps, run.layout.Before s.slot t.slot →
    s.status.isTerminal ∨ t.status = .pending
  unrecorded : run.status = .pending → run.ledger.entries = []

/-- An agreeing run without an open phase that has nothing left to do. -/
structure Coherent (run : TestRun) : Prop extends Agreeing run where
  busy : ∀ ph ∈ run.phases, ph.status = .inProgress →
    ∃ s ∈ run.steps, s.phaseId = ph.phaseId ∧ ¬ s.status.isTerminal

variable {run next : TestRun} {now : Instant} {p : ProtocolDefinition}

theorem Agreeing.same (h : run.Agreeing) (phases : next.phases = run.phases)
    (steps : next.steps = run.steps) (admits : ∀ ph ∈ run.phases, next.status.Admits ph.status)
    (unrecorded : next.status = .pending → next.ledger.entries = []) : next.Agreeing := by
  have layout : next.layout = run.layout := by rw [layout, layout, phases, steps]
  refine ⟨layout ▸ h.wellFormed, ?_, ?_, ?_, ?_, unrecorded⟩
  · rwa [phases]
  · rw [phases, steps]
    exact h.phaseAdmits
  · rw [phases, layout]
    exact h.phaseOrder
  · rw [steps, layout]
    exact h.stepOrder

theorem Coherent.same (h : run.Coherent) (phases : next.phases = run.phases)
    (steps : next.steps = run.steps) (admits : ∀ ph ∈ run.phases, next.status.Admits ph.status)
    (unrecorded : next.status = .pending → next.ledger.entries = []) : next.Coherent := by
  refine ⟨h.toAgreeing.same phases steps admits unrecorded, ?_⟩
  rw [phases, steps]
  exact h.busy

theorem Agreeing.changePhase (h : run.Agreeing) {ph : PhaseRecord} (member : ph ∈ run.phases)
    {change : PhaseRecord → PhaseRecord} (kept : ∀ ph, (change ph).phaseId = ph.phaseId)
    (admitted : run.status.Admits (change ph).status)
    (admits : ∀ s ∈ run.steps, s.phaseId = ph.phaseId → (change ph).status.Admits s.status)
    (before : ∀ a ∈ run.phases, run.layout.Earlier a.phaseId ph.phaseId →
      a.status.isClosed ∨ (change ph).status = .pending)
    (after : ∀ b ∈ run.phases, run.layout.Earlier ph.phaseId b.phaseId →
      (change ph).status.isClosed ∨ b.status = .pending) :
    (run.changePhase ph.phaseId change).Agreeing := by
  have layout : (run.changePhase ph.phaseId change).layout = run.layout :=
    changePhase_layout kept
  have members : ∀ {other}, other ∈ (run.changePhase ph.phaseId change).phases →
      other = change ph ∨ other ∈ run.phases := fun inNext =>
    ((mem_changePhase h.wellFormed member).mp inNext).imp_right And.left
  refine ⟨layout ▸ h.wellFormed, ?_, ?_, ?_, layout ▸ h.stepOrder, h.unrecorded⟩
  · intro other inNext
    rcases members inNext with rfl | old
    · exact admitted
    · exact h.runAdmits other old
  · intro other inNext s step owned
    rcases members inNext with rfl | old
    · exact admits s step (owned.trans (kept ph))
    · exact h.phaseAdmits other old s step owned
  · rw [layout]
    intro a inA b inB earlier
    rcases members inA with rfl | oldA
    · rw [kept] at earlier
      rcases members inB with rfl | oldB
      · exact absurd (kept ph).symm earlier.ne
      · exact after b oldB earlier
    · rcases members inB with rfl | oldB
      · rw [kept] at earlier
        exact before a oldA earlier
      · exact h.phaseOrder a oldA b oldB earlier

theorem Agreeing.changeStep (h : run.Agreeing) {s : StepRecord} (member : s ∈ run.steps)
    {change : StepRecord → StepRecord} (kept : ∀ s, (change s).slot = s.slot)
    (admitted : ∀ ph ∈ run.phases, s.phaseId = ph.phaseId →
      ph.status.Admits (change s).status)
    (before : ∀ t ∈ run.steps, run.layout.Before t.slot s.slot →
      t.status.isTerminal ∨ (change s).status = .pending)
    (after : ∀ t ∈ run.steps, run.layout.Before s.slot t.slot →
      (change s).status.isTerminal ∨ t.status = .pending) :
    (run.changeStep s.stepId change).Agreeing := by
  have layout : (run.changeStep s.stepId change).layout = run.layout := changeStep_layout kept
  have members : ∀ {other}, other ∈ (run.changeStep s.stepId change).steps →
      other = change s ∨ other ∈ run.steps := fun inNext =>
    ((mem_changeStep h.wellFormed member).mp inNext).imp_right And.left
  have phaseId : (change s).phaseId = s.phaseId := congrArg Slot.phaseId (kept s)
  refine ⟨layout ▸ h.wellFormed, h.runAdmits, ?_, layout ▸ h.phaseOrder, ?_, h.unrecorded⟩
  · intro ph phase other inNext owned
    rcases members inNext with rfl | old
    · exact admitted ph phase (phaseId.symm.trans owned)
    · exact h.phaseAdmits ph phase other old owned
  · rw [layout]
    intro t inT u inU before'
    rcases members inT with rfl | oldT
    · rw [kept] at before'
      rcases members inU with rfl | oldU
      · rw [kept] at before'
        exact absurd before' before'.asymm
      · exact after u oldU before'
    · rcases members inU with rfl | oldU
      · rw [kept] at before'
        exact before t oldT before'
      · exact h.stepOrder t oldT u oldU before'

theorem closeOpenPhase_status (ph : PhaseRecord) : (closeOpenPhase now ph).status =
    if ph.status = .inProgress then .failed else ph.status := by
  unfold closeOpenPhase
  split <;> rfl

theorem closeOpenStep_status (s : StepRecord) : (closeOpenStep now s).status =
    if s.status = .inProgress then .failed else s.status := by
  unfold closeOpenStep
  split <;> rfl

/-- A run that ends before its time leaves nothing in progress. -/
theorem Agreeing.terminate (h : run.Agreeing) {status : RunStatus} {reason : String}
    (inProgress : run.status = .inProgress) (ended : status = .failed ∨ status = .aborted) :
    (run.terminate now status reason).Coherent := by
  have advances : run.Advances (run.terminate now status reason) :=
    Change.advances (.terminated now status reason inProgress ended)
  have notOpen : ∀ ph, (closeOpenPhase now ph).status ≠ .inProgress := by
    intro ph
    rw [closeOpenPhase_status]
    split <;> simp [*]
  refine ⟨⟨advances.layout ▸ h.wellFormed, ?_, ?_, ?_, ?_, ?_⟩, ?_⟩
  · intro _ inNext
    obtain ⟨ph, _, rfl⟩ := List.mem_map.mp inNext
    rcases ended with rfl | rfl
    · exact notOpen ph
    · exact notOpen ph
  · intro _ inNext _ step owned
    obtain ⟨ph, phase, rfl⟩ := List.mem_map.mp inNext
    obtain ⟨s, old, rfl⟩ := List.mem_map.mp step
    have same : s.phaseId = ph.phaseId := by
      rw [← (closeOpenPhase_advances now ph).phaseId, ← (closeOpenStep_advances now s).phaseId]
      exact owned
    have admits := h.phaseAdmits ph phase s old same
    rw [closeOpenPhase_status, closeOpenStep_status]
    cases status : ph.status <;> rw [status] at admits <;>
      cases inside : s.status <;> simp_all
  · rw [advances.layout]
    intro _ inA _ inB earlier
    obtain ⟨a, oldA, rfl⟩ := List.mem_map.mp inA
    obtain ⟨b, oldB, rfl⟩ := List.mem_map.mp inB
    rw [(closeOpenPhase_advances now a).phaseId, (closeOpenPhase_advances now b).phaseId]
      at earlier
    have order := h.phaseOrder a oldA b oldB earlier
    rw [closeOpenPhase_status, closeOpenPhase_status]
    cases inA : a.status <;> simp_all
  · rw [advances.layout]
    intro _ inS _ inT before
    obtain ⟨s, oldS, rfl⟩ := List.mem_map.mp inS
    obtain ⟨t, oldT, rfl⟩ := List.mem_map.mp inT
    rw [(closeOpenStep_advances now s).slot, (closeOpenStep_advances now t).slot] at before
    have order := h.stepOrder s oldS t oldT before
    rw [closeOpenStep_status, closeOpenStep_status]
    cases inS : s.status <;> simp_all
  · intro pending
    rcases ended with rfl | rfl <;> cases pending
  · intro _ inNext isOpen
    obtain ⟨ph, _, rfl⟩ := List.mem_map.mp inNext
    exact absurd isOpen (notOpen ph)

theorem Coherent.entered (h : run.Coherent) {ph : PhaseRecord}
    (inProgress : run.status = .inProgress) (found : run.phase? ph.phaseId = some ph)
    (pending : ph.status = .pending) (earlier : run.openBefore? ph.phaseId = none) :
    (run.changePhase ph.phaseId (entered now)).Coherent := by
  have member : ph ∈ run.phases := List.mem_of_find?_eq_some found
  have closed := (openBefore?_eq_none h.wellFormed).mp earlier
  refine ⟨h.toAgreeing.changePhase member (fun _ => rfl) ?_ ?_ ?_ ?_, ?_⟩
  · rw [inProgress]
    exact fun same => by cases same
  · exact fun _ _ _ => trivial
  · exact fun a inA before => .inl (closed a inA before)
  · intro b inB after
    have order := h.phaseOrder ph member b inB after
    exact .inr (order.resolve_left (by simp [pending]))
  · intro other inNext isOpen
    rcases (mem_changePhase h.wellFormed member).mp inNext with rfl | ⟨old, _⟩
    · obtain ⟨s, step, owned⟩ := exists_step h.wellFormed member
      have waiting := h.phaseAdmits ph member s step owned
      rw [pending] at waiting
      exact ⟨s, step, owned, by simp [show s.status = .pending from waiting]⟩
    · exact h.busy other old isOpen

/-- Leaving a phase mends a run in which nothing but that phase had nothing left to do. -/
theorem Agreeing.left (h : run.Agreeing) {ph : PhaseRecord} (inProgress : run.status = .inProgress)
    (member : ph ∈ run.phases) (isOpen : ph.status = .inProgress)
    (terminal : ∀ s ∈ run.stepsIn ph.phaseId, s.status.isTerminal)
    (busy : ∀ other ∈ run.phases, other.phaseId ≠ ph.phaseId → other.status = .inProgress →
      ∃ s ∈ run.steps, s.phaseId = other.phaseId ∧ ¬ s.status.isTerminal) :
    (run.changePhase ph.phaseId (left now)).Coherent := by
  refine ⟨h.changePhase member (fun _ => rfl) ?_ ?_ ?_ ?_, ?_⟩
  · rw [inProgress]
    exact fun same => by cases same
  · intro s step owned
    exact terminal s (mem_stepsIn.mpr ⟨step, owned⟩)
  · intro a inA before
    have order := h.phaseOrder a inA ph member before
    exact .inl (order.resolve_right (by simp [isOpen]))
  · exact fun _ _ _ => .inl rfl
  · intro other inNext stillOpen
    rcases (mem_changePhase h.wellFormed member).mp inNext with rfl | ⟨old, different⟩
    · cases stillOpen
    · exact busy other old different stillOpen

/-- While a run is in progress, the steps of a closed phase are over. -/
theorem Agreeing.over_of_closed (h : run.Agreeing) (inProgress : run.status = .inProgress)
    {ph : PhaseRecord} (phase : ph ∈ run.phases) (closed : ph.status.isClosed) {s : StepRecord}
    (member : s ∈ run.steps) (owned : s.phaseId = ph.phaseId) : s.status.isTerminal := by
  have notFailed := h.runAdmits ph phase
  rw [inProgress] at notFailed
  have admits := h.phaseAdmits ph phase s member owned
  cases status : ph.status with
  | completed => rwa [status] at admits
  | failed => exact absurd status notFailed
  | pending | inProgress => simp [status] at closed

/-- A phase is closed once all its steps are over. -/
theorem Coherent.closed_of_over (h : run.Coherent) {ph : PhaseRecord} (phase : ph ∈ run.phases)
    (terminal : ∀ s ∈ run.steps, s.phaseId = ph.phaseId → s.status.isTerminal) :
    ph.status.isClosed := by
  cases status : ph.status with
  | completed | failed => rfl
  | pending =>
      obtain ⟨s, step, owned⟩ := exists_step h.wellFormed phase
      have waiting := h.phaseAdmits ph phase s step owned
      rw [status] at waiting
      have finished := terminal s step owned
      simp [show s.status = .pending from waiting] at finished
  | inProgress =>
      obtain ⟨s, step, owned, unfinished⟩ := h.busy ph phase status
      exact absurd (terminal s step owned) unfinished

/-- In a run in progress, everything before a step is over once its phase is open and the
    earlier steps of its phase are over. -/
theorem Agreeing.over_before (h : run.Agreeing) (inProgress : run.status = .inProgress)
    {s : StepRecord} {ph : PhaseRecord} (phase : ph ∈ run.phases)
    (owned : s.phaseId = ph.phaseId) (notPending : ph.status ≠ .pending)
    (earlier : ∀ t ∈ run.stepsIn s.phaseId, t.sequence < s.sequence → t.status.isTerminal)
    {t : StepRecord} (member : t ∈ run.steps) (before : run.layout.Before t.slot s.slot) :
    t.status.isTerminal := by
  rcases before with inEarlierPhase | ⟨samePhase, less⟩
  · obtain ⟨a, inA, owner⟩ := exists_phase h.wellFormed member
    have closed : a.status.isClosed := by
      refine (h.phaseOrder a inA ph phase ?_).resolve_right notPending
      rw [owner, ← owned]
      exact inEarlierPhase
    exact h.over_of_closed inProgress inA closed member owner.symm
  · exact earlier t (mem_stepsIn.mpr ⟨member, samePhase⟩) less

theorem Coherent.begun (h : run.Coherent) {s : StepRecord} {ph : PhaseRecord}
    (startable : run.startable s.stepId = .ok s) (found : run.phase? s.phaseId = some ph)
    (isOpen : ph.status = .inProgress) : (run.changeStep s.stepId (begun now)).Coherent := by
  obtain ⟨inProgress, stepFound, pending, _, earlier⟩ := startable_ok.mp startable
  have member : s ∈ run.steps := List.mem_of_find?_eq_some stepFound
  have phase : ph ∈ run.phases := List.mem_of_find?_eq_some found
  have owned : s.phaseId = ph.phaseId := (phase?_id found).symm
  refine ⟨h.toAgreeing.changeStep member (fun _ => rfl) ?_ ?_ ?_, ?_⟩
  · intro other inPhases owner
    have same : other = ph :=
      eq_of_phaseId h.wellFormed inPhases phase (owner.symm.trans owned)
    rw [same, isOpen]
    trivial
  · intro t step before
    have notPending : ph.status ≠ .pending := by simp [isOpen]
    exact .inl (h.over_before inProgress phase owned notPending earlier step before)
  · intro t step after
    have order := h.stepOrder s member t step after
    exact .inr (order.resolve_left (by simp [pending]))
  · intro other inPhases stillOpen
    obtain ⟨t, step, owner, unfinished⟩ := h.busy other inPhases stillOpen
    by_cases same : t.stepId = s.stepId
    · cases eq_of_stepId h.wellFormed step member same
      exact ⟨TestRun.begun now s, (mem_changeStep h.wellFormed member).mpr (.inl rfl), owner,
        by simp [TestRun.begun]⟩
    · exact ⟨t, (mem_changeStep h.wellFormed member).mpr (.inr ⟨step, same⟩), owner, unfinished⟩

/-- The phase of a step in progress is open. -/
theorem Agreeing.open_of_active (h : run.Agreeing) {s : StepRecord} (member : s ∈ run.steps)
    (active : s.status = .inProgress) {ph : PhaseRecord} (phase : ph ∈ run.phases)
    (owned : s.phaseId = ph.phaseId) : ph.status = .inProgress := by
  have admits := h.phaseAdmits ph phase s member owned
  rw [active] at admits
  cases status : ph.status with
  | inProgress => rfl
  | pending | completed | failed =>
      simp [status] at admits

theorem outcome_terminal (outcome : StepOutcome) : outcome.status.isTerminal := by
  cases outcome <;> rfl

theorem Coherent.finished_agreeing (h : run.Coherent) {s : StepRecord}
    (finishable : run.finishable s.stepId = .ok s) (outcome : StepOutcome)
    (observations : Option String) :
    (run.changeStep s.stepId (finished now outcome observations)).Agreeing := by
  obtain ⟨_, found, active⟩ := finishable_ok.mp finishable
  have member : s ∈ run.steps := List.mem_of_find?_eq_some found
  refine h.toAgreeing.changeStep member (fun _ => rfl) ?_ ?_ ?_
  · intro ph phase owned
    rw [h.open_of_active member active phase owned]
    trivial
  · intro t step before
    have order := h.stepOrder t step s member before
    exact .inl (order.resolve_right (by simp [active]))
  · exact fun _ _ _ => .inl (outcome_terminal outcome)

/-- Once a step is finished, the other phases still have what they had to do. -/
theorem Coherent.finished_busy (h : run.Coherent) {s : StepRecord} (member : s ∈ run.steps)
    (outcome : StepOutcome) (observations : Option String) {other : PhaseRecord}
    (phase : other ∈ run.phases) (different : other.phaseId ≠ s.phaseId)
    (isOpen : other.status = .inProgress) :
    ∃ t ∈ (run.changeStep s.stepId (finished now outcome observations)).steps,
      t.phaseId = other.phaseId ∧ ¬ t.status.isTerminal := by
  obtain ⟨t, step, owned, unfinished⟩ := h.busy other phase isOpen
  refine ⟨t, (mem_changeStep h.wellFormed member).mpr (.inr ⟨step, fun same => ?_⟩), owned,
    unfinished⟩
  rw [eq_of_stepId h.wellFormed step member same] at owned
  exact different owned.symm

/-- In a coherent run the step in progress can be finished, with its phase or without. -/
theorem Coherent.finishStep_ok (h : run.Coherent) {stepId : String} {s : StepRecord}
    (finishable : run.finishable stepId = .ok s) (env : Surroundings) (outcome : StepOutcome)
    (observations : Option String) :
    ∃ next, run.finishStep env stepId outcome observations = (.ok (), next) ∧
      next.Coherent ∧ next.status = run.status ∧
        next.steps =
          (run.changeStep stepId (finished (env.clock 0) outcome observations)).steps := by
  obtain ⟨e, refused, _⟩ | ⟨_, mid, ready, changed, leaving⟩ :=
    finishStep_cases run env stepId outcome observations
  · cases finishable.symm.trans refused
  cases finishable.symm.trans ready
  obtain ⟨inProgress, found, active⟩ := finishable_ok.mp finishable
  have member : s ∈ run.steps := List.mem_of_find?_eq_some found
  obtain rfl : s.stepId = stepId := step?_id found
  obtain ⟨ph, phase, owner⟩ := exists_phase h.wellFormed member
  have isOpen : ph.status = .inProgress := h.open_of_active member active phase owner.symm
  have agreeing : mid.Agreeing := changed ▸ h.finished_agreeing finishable outcome observations
  have midInProgress : mid.status = .inProgress := by rw [changed]; exact inProgress
  have midPhases : mid.phases = run.phases := by rw [changed]; rfl
  have busy : ∀ other ∈ mid.phases, other.phaseId ≠ s.phaseId → other.status = .inProgress →
      ∃ t ∈ mid.steps, t.phaseId = other.phaseId ∧ ¬ t.status.isTerminal := by
    rw [midPhases, changed]
    exact fun _ => h.finished_busy member outcome observations
  have status : mid.status = run.status := midInProgress.trans inProgress.symm
  rcases leaving with ⟨terminal, same⟩ | ⟨⟨t, waiting, unfinished⟩, same⟩
  · rw [← owner] at terminal same busy
    have midPhase : ph ∈ mid.phases := midPhases ▸ phase
    have left : mid.exitPhase (env.clock 1) ph.phaseId =
        .ok (mid.changePhase ph.phaseId (TestRun.left (env.clock 1))) :=
      exitPhase_ok.mpr ⟨midInProgress,
        ⟨ph, phase?_of_mem agreeing.wellFormed midPhase, isOpen⟩, terminal, rfl⟩
    rw [left] at same
    exact ⟨_, same, agreeing.left midInProgress midPhase isOpen terminal busy, status,
      by rw [changed]; rfl⟩
  · refine ⟨mid, same, ⟨agreeing, fun other inPhases stillOpen => ?_⟩, status,
      congrArg TestRun.steps changed⟩
    by_cases samePhase : other.phaseId = s.phaseId
    · obtain ⟨step, owned⟩ := mem_stepsIn.mp waiting
      exact ⟨t, step, owned.trans samePhase.symm, unfinished⟩
    · exact busy other inPhases samePhase stillOpen

theorem Change.coherent (h : Change run next) (coherent : run.Coherent) : next.Coherent := by
  have admits := coherent.runAdmits
  cases h with
  | started now pending =>
      refine coherent.same rfl rfl (fun ph phase => ?_) (fun status => by cases status)
      have waiting := admits ph phase
      rw [pending] at waiting
      exact fun failed => by cases (show ph.status = .pending from waiting).symm.trans failed
  | terminated now status reason inProgress ended =>
      exact coherent.terminate inProgress ended
  | completed now p inProgress closed =>
      refine coherent.same rfl rfl (fun ph phase => ?_) (fun status => by cases status)
      have isClosed := closed ph phase
      have notFailed := admits ph phase
      rw [inProgress] at notFailed
      cases status : ph.status with
      | completed => rfl
      | failed => exact absurd status notFailed
      | pending | inProgress => simp [status] at isClosed
  | judged p => exact coherent.same rfl rfl admits coherent.unrecorded
  | graded p => exact coherent.same rfl rfl admits coherent.unrecorded
  | entered now ph inProgress found pending earlier =>
      exact coherent.entered inProgress found pending earlier
  | left now ph inProgress found isOpen terminal =>
      exact coherent.toAgreeing.left inProgress (List.mem_of_find?_eq_some found) isOpen terminal
        fun other phase _ => coherent.busy other phase
  | begun now s ph startable found isOpen => exact coherent.begun startable found isOpen
  | finished env stepId outcome observations =>
      cases ready : run.finishable stepId with
      | error e =>
          rw [TestRun.finishStep, ready]
          exact coherent
      | ok s =>
          obtain ⟨next, same, finished, _⟩ :=
            coherent.finishStep_ok ready env outcome observations
          rw [same]
          exact finished
  | measured m inProgress =>
      refine coherent.same rfl rfl admits fun pending => ?_
      cases inProgress.symm.trans pending
  | flagged id flag notes =>
      refine coherent.same rfl rfl admits fun pending => ?_
      have empty := coherent.unrecorded pending
      simp only [Ledger.setFlag, empty, Keyed.changeFirst]

theorem Changes.coherent (h : Changes run next) (coherent : run.Coherent) : next.Coherent := by
  induction h with
  | refl => exact coherent
  | tail _ change ih => exact change.coherent ih

/-- A run just created is coherent if its protocol is valid. -/
theorem create_coherent (valid : Validation.check p = .ok ()) {id specimen operator : String}
    {overrides : Dictionary Json} (h : create id now p specimen operator overrides = .ok run) :
    run.Coherent := by
  have wellFormed : run.layout.WellFormed := create_layout h ▸ layout_wellFormed valid
  obtain ⟨_, _, rfl⟩ := map_ok h
  have phases : ∀ ph ∈ p.phases.map pendingPhase, ph.status = .pending := by
    intro _ member
    obtain ⟨_, _, rfl⟩ := List.mem_map.mp member
    rfl
  have steps : ∀ s ∈ pendingSteps p.phases, s.status = .pending := by
    intro _ member
    obtain ⟨_, _, member⟩ := List.mem_flatMap.mp member
    obtain ⟨_, _, rfl⟩ := List.mem_map.mp member
    rfl
  refine ⟨⟨wellFormed, phases, ?_, ?_, ?_, fun _ => rfl⟩, ?_⟩
  · intro ph phase s step _
    rw [phases ph phase]
    exact steps s step
  · exact fun _ _ b phase _ => .inr (phases b phase)
  · exact fun _ _ t step _ => .inr (steps t step)
  · intro ph phase isOpen
    cases (phases ph phase).symm.trans isOpen

/-- Every run that comes of a valid protocol is coherent. -/
theorem Reachable.coherent (valid : Validation.check p = .ok ()) (h : Reachable p run) :
    run.Coherent := by
  induction h with
  | created created => exact create_coherent valid created
  | called c _ ih => exact (call_changes _ c).coherent ih

end TestRun
end Qualification
