import Qualification.Proofs.QualityControl.Findings
import Qualification.Proofs.Run.Orderly
import Qualification.Proofs.Run.Stamps

/-! # Runs in the order of time

While the clock does not go back, the times in a run tell its order: a run is created, then
started, then its phases and steps begin and end, and a step begins when those before it have
ended.

A stroke stamps times that were not there with one reading of the clock. That reading is not
before any time in the run, so it is enough that nothing is stamped before something that is
stamped already; and this the statuses see to.
-/

namespace Qualification

/-- Is a time there only where another one is, and is it not before that? -/
def Follows (earlier later : Option Instant) : Prop :=
  ∀ t, later = some t → ∃ s, earlier = some s ∧ s.le t

/-- Do a begin and an end lie in their order between those of the whole? -/
structure Within (started completed first last : Option Instant) : Prop where
  begun : Follows started first
  ended : Follows first last
  inTime : ∀ s t, last = some s → completed = some t → s.le t

/-- Are the times of a run in order? -/
structure TestRun.Chronological (run : TestRun) : Prop where
  started : Follows (some run.createdAt) run.startedAt
  completed : Follows run.startedAt run.completedAt
  phases : ∀ ph ∈ run.phases,
    Within run.startedAt run.completedAt ph.startedAt ph.completedAt
  steps : ∀ s ∈ run.steps, Within run.startedAt run.completedAt s.startedAt s.completedAt
  succession : run.steps.Pairwise fun s t => Follows s.completedAt t.startedAt

/-- How many readings of the clock a call may take. -/
def Call.ticks (c : Call) : Nat :=
  match c.operation with
  | .execute stepId inputs handlers =>
      TestRun.executionTicks c.protocol (fun step => (handlers.resolve? step).map Handler.run)
        stepId inputs
  | .executeWith stepId inputs resolve =>
      TestRun.executionTicks c.protocol resolve stepId inputs
  | _ => 2

/-- Do the first readings of the clock never go back, from a time on? -/
structure Surroundings.Forward (env : Surroundings) (ticks : Nat) (now : Instant) : Prop where
  since : ∀ i < ticks, now.le (env.clock i)
  during : ∀ i j, i ≤ j → j < ticks → (env.clock i).le (env.clock j)

/-- Does the clock never go back in some calls, from a time on and from call to call? -/
structure Forward (now : Instant) (calls : List Call) : Prop where
  each : ∀ c ∈ calls, c.env.Forward c.ticks now
  across : calls.Pairwise fun c d =>
    ∀ i < c.ticks, ∀ j < d.ticks, (c.env.clock i).le (d.env.clock j)

theorem Instant.le_refl (t : Instant) : t.le t := by
  simp [le]

/-- A time that stays as it is, or is set to the present where there was none. -/
inductive Stamps (now : Instant) : Option Instant → Option Instant → Prop where
  | kept {t : Option Instant} : Stamps now t t
  | stamped : Stamps now none (some now)

def Past (now : Instant) (time : Option Instant) : Prop :=
  ∀ t, time = some t → t.le now

variable {now latest : Instant} {a b c d : Option Instant}

theorem Past.mono (h : Past latest a) (later : latest.le now) : Past now a :=
  fun t known => Instant.le_trans (h t known) later

theorem Stamps.past (h : Stamps now a b) (past : Past now a) : Past now b := by
  cases h with
  | kept => exact past
  | stamped =>
      intro t same
      cases same
      exact Instant.le_refl now

theorem Stamps.of_unknown (unknown : a = none) : Stamps now a (some now) :=
  unknown ▸ .stamped

/-- An order is kept where no time is stamped ahead of one that is still unknown. -/
theorem Follows.stamps (h : Follows a b) (first : Stamps now a c) (second : Stamps now b d)
    (past : Past now a) (known : d.isSome → c.isSome) : Follows c d := by
  cases first with
  | kept =>
      cases second with
      | kept => exact h
      | stamped =>
          intro t same
          cases same
          obtain ⟨s, there⟩ := Option.isSome_iff_exists.mp (known rfl)
          exact ⟨s, there, past s there⟩
  | stamped =>
      intro t same
      cases second with
      | kept =>
          obtain ⟨s, there, _⟩ := h t same
          cases there
      | stamped =>
          cases same
          exact ⟨now, rfl, Instant.le_refl now⟩

/-- A part is kept within the whole where nothing in it ends after the whole. -/
theorem Within.stamps {e f g i : Option Instant} (h : Within a b e f) (first : Stamps now a c)
    (last : Stamps now b d) (begun : Stamps now e g) (ended : Stamps now f i)
    (pastFirst : Past now a) (pastBegun : Past now e) (pastEnded : Past now f)
    (knownFirst : g.isSome → c.isSome) (knownBegun : i.isSome → g.isSome)
    (within : b = none ∨ i = f) : Within c d g i where
  begun := h.begun.stamps first begun pastFirst knownFirst
  ended := h.ended.stamps begun ended pastBegun knownBegun
  inTime s t isEnd isLast := by
    cases last with
    | kept =>
        rcases within with unknown | same
        · rw [unknown] at isLast
          cases isLast
        · exact h.inTime s t (same ▸ isEnd) isLast
    | stamped =>
        cases isLast
        exact ended.past pastEnded s isEnd

def PhaseRecord.Dated (now : Instant) (before after : PhaseRecord) : Prop :=
  Stamps now before.startedAt after.startedAt ∧ Stamps now before.completedAt after.completedAt

def StepRecord.Dated (now : Instant) (before after : StepRecord) : Prop :=
  Stamps now before.startedAt after.startedAt ∧ Stamps now before.completedAt after.completedAt

theorem PhaseRecord.Dated.refl (ph : PhaseRecord) : ph.Dated now ph :=
  ⟨.kept, .kept⟩

theorem StepRecord.Dated.refl (s : StepRecord) : s.Dated now s :=
  ⟨.kept, .kept⟩

theorem PhaseRecord.Stamped.close_dated {ph : PhaseRecord} (h : ph.Stamped) :
    ph.Dated now (TestRun.closeOpenPhase now ph) := by
  unfold TestRun.closeOpenPhase
  split
  · rename_i isOpen
    exact ⟨.kept, .of_unknown (h.not_completed (by simp [isOpen]))⟩
  · exact PhaseRecord.Dated.refl ph

theorem StepRecord.Stamped.close_dated {s : StepRecord} (h : s.Stamped) :
    s.Dated now (TestRun.closeOpenStep now s) := by
  unfold TestRun.closeOpenStep
  split
  · rename_i active
    exact ⟨.kept, .of_unknown (h.not_completed (by simp [active]))⟩
  · exact StepRecord.Dated.refl s

theorem pairwise_of_forall₂ {α β : Type} {R : α → β → Prop} {S : α → α → Prop}
    {T : β → β → Prop} (step : ∀ a b c d, S a b → R a c → R b d → T c d) {as : List α}
    {bs : List β} (related : List.Forall₂ R as bs) (h : as.Pairwise S) : bs.Pairwise T := by
  induction related with
  | nil => exact .nil
  | cons first rest ih =>
      obtain ⟨ahead, h⟩ := List.pairwise_cons.mp h
      refine List.pairwise_cons.mpr ⟨fun d member => ?_, ih h⟩
      obtain ⟨b, inRest, related⟩ := exists_of_forall₂ rest member
      exact step _ b _ d (ahead b inRest) first related

namespace TestRun

variable {run next : TestRun} {p : ProtocolDefinition} {env : Surroundings}

/-- A change of a run by which its times are stamped with the present, those of its phases and
    steps only while it is in progress. -/
structure Dated (now : Instant) (run next : TestRun) : Prop where
  createdAt : next.createdAt = run.createdAt
  startedAt : Stamps now run.startedAt next.startedAt
  completedAt : Stamps now run.completedAt next.completedAt
  phases : List.Forall₂ (PhaseRecord.Dated now) run.phases next.phases
  steps : List.Forall₂ (StepRecord.Dated now) run.steps next.steps
  inside : run.status = .inProgress ∨ next.phases = run.phases ∧ next.steps = run.steps

/-- Are all times of a run past? -/
structure Told (now : Instant) (run : TestRun) : Prop where
  createdAt : run.createdAt.le now
  startedAt : Past now run.startedAt
  completedAt : Past now run.completedAt
  phases : ∀ ph ∈ run.phases, Past now ph.startedAt ∧ Past now ph.completedAt
  steps : ∀ s ∈ run.steps, Past now s.startedAt ∧ Past now s.completedAt

theorem Told.mono (h : run.Told latest) (later : latest.le now) : run.Told now where
  createdAt := Instant.le_trans h.createdAt later
  startedAt := h.startedAt.mono later
  completedAt := h.completedAt.mono later
  phases ph member := ⟨(h.phases ph member).1.mono later, (h.phases ph member).2.mono later⟩
  steps s member := ⟨(h.steps s member).1.mono later, (h.steps s member).2.mono later⟩

theorem Dated.told (h : Dated now run next) (told : run.Told now) : next.Told now where
  createdAt := h.createdAt ▸ told.createdAt
  startedAt := h.startedAt.past told.startedAt
  completedAt := h.completedAt.past told.completedAt
  phases ph member := by
    obtain ⟨before, old, started, completed⟩ := exists_of_forall₂ h.phases member
    have past := told.phases before old
    exact ⟨started.past past.1, completed.past past.2⟩
  steps s member := by
    obtain ⟨before, old, started, completed⟩ := exists_of_forall₂ h.steps member
    have past := told.steps before old
    exact ⟨started.past past.1, completed.past past.2⟩

/-- A run that agrees with the clock up to the present. -/
structure InTime (now : Instant) (run : TestRun) : Prop where
  stamped : run.Stamped
  told : run.Told now
  chronological : run.Chronological

/-- A run in time, with statuses that agree. -/
structure OnTime (now : Instant) (run : TestRun) : Prop extends InTime now run where
  coherent : run.Coherent

theorem Stamped.started_of_phase (h : run.Stamped) (agreeing : run.Agreeing) {ph : PhaseRecord}
    (member : ph ∈ run.phases) (known : ph.startedAt.isSome) : run.startedAt.isSome := by
  refine h.started.mpr fun pending => ?_
  have waiting := agreeing.runAdmits ph member
  rw [pending] at waiting
  exact (h.phases ph member).started.mp known waiting

theorem Stamped.started_of_step (h : run.Stamped) (agreeing : run.Agreeing) {s : StepRecord}
    (member : s ∈ run.steps) (known : s.startedAt.isSome) : run.startedAt.isSome := by
  refine h.started.mpr fun pending => ?_
  obtain ⟨ph, phase, admits⟩ := agreeing.admitted member
  have waiting := agreeing.runAdmits ph phase
  rw [pending] at waiting
  rw [show ph.status = .pending from waiting] at admits
  exact (h.steps s member).started.mp known admits

/-- A step has begun only if those before it have ended. -/
theorem Stamped.succession (h : run.Stamped) (agreeing : run.Agreeing) :
    run.steps.Pairwise fun s t => t.startedAt.isSome → s.completedAt.isSome := by
  refine (List.pairwise_map.mp agreeing.wellFormed.ordered).imp_of_mem ?_
  intro s t first second before known
  refine (h.steps s first).completed.mpr ?_
  have begun := (h.steps t second).started.mp known
  exact (agreeing.stepOrder s first t second before).resolve_right begun

theorem Dated.inside_open (h : Dated now run next) (stamped : run.Stamped) :
    run.completedAt = none ∨ next.phases = run.phases ∧ next.steps = run.steps := by
  refine h.inside.imp_left fun inProgress => ?_
  exact stamped.not_completed (by simp [inProgress])

/-- A change by which the times of a run are stamped keeps them in order. -/
theorem Dated.chronological (h : Dated now run next) (inTime : run.InTime now)
    (agreeing : next.Agreeing) (stamped : next.Stamped) : next.Chronological := by
  obtain ⟨stampedBefore, told, order⟩ := inTime
  constructor
  · rw [h.createdAt]
    refine order.started.stamps .kept h.startedAt ?_ fun _ => rfl
    intro t same
    cases same
    exact told.createdAt
  · exact order.completed.stamps h.startedAt h.completedAt told.startedAt
      stamped.started_of_completed
  · intro ph member
    obtain ⟨before, old, dated, within⟩ : ∃ before ∈ run.phases, before.Dated now ph ∧
        (run.completedAt = none ∨ ph.completedAt = before.completedAt) := by
      rcases h.inside_open stampedBefore with unended | ⟨same, _⟩
      · obtain ⟨before, old, dated⟩ := exists_of_forall₂ h.phases member
        exact ⟨before, old, dated, .inl unended⟩
      · exact ⟨ph, same ▸ member, ⟨.kept, .kept⟩, .inr rfl⟩
    have past := told.phases before old
    have known := stamped.phases ph member
    exact (order.phases before old).stamps h.startedAt h.completedAt dated.1 dated.2
      told.startedAt past.1 past.2 (stamped.started_of_phase agreeing member)
      known.started_of_completed within
  · intro s member
    obtain ⟨before, old, dated, within⟩ : ∃ before ∈ run.steps, before.Dated now s ∧
        (run.completedAt = none ∨ s.completedAt = before.completedAt) := by
      rcases h.inside_open stampedBefore with unended | ⟨_, same⟩
      · obtain ⟨before, old, dated⟩ := exists_of_forall₂ h.steps member
        exact ⟨before, old, dated, .inl unended⟩
      · exact ⟨s, same ▸ member, ⟨.kept, .kept⟩, .inr rfl⟩
    have past := told.steps before old
    have known := stamped.steps s member
    exact (order.steps before old).stamps h.startedAt h.completedAt dated.1 dated.2
      told.startedAt past.1 past.2 (stamped.started_of_step agreeing member)
      known.started_of_completed within
  · have past : run.steps.Pairwise fun s t =>
        Past now s.completedAt ∧ Follows s.completedAt t.startedAt :=
      order.succession.imp_of_mem fun first _ follows => ⟨(told.steps _ first).2, follows⟩
    have followed : next.steps.Pairwise fun s t =>
        (t.startedAt.isSome → s.completedAt.isSome) → Follows s.completedAt t.startedAt := by
      refine pairwise_of_forall₂ ?_ h.steps past
      intro s t s' t' before ended begun known
      exact before.2.stamps ended.2 begun.1 before.1 known
    exact (followed.and (stamped.succession agreeing)).imp fun both => both.1 both.2

theorem InTime.change (inTime : run.InTime now) (agreeing : next.Agreeing)
    (stamped : next.Stamped) (dated : Dated now run next) : next.InTime now :=
  ⟨stamped, dated.told inTime.told, dated.chronological inTime agreeing stamped⟩

theorem OnTime.change (onTime : run.OnTime now) (changes : Changes run next)
    (dated : Dated now run next) : next.OnTime now :=
  have coherent := changes.coherent onTime.coherent
  ⟨onTime.toInTime.change coherent.toAgreeing (changes.stamped onTime.stamped) dated, coherent⟩

theorem InTime.mono (h : run.InTime latest) (later : latest.le now) : run.InTime now :=
  ⟨h.stamped, h.told.mono later, h.chronological⟩

theorem OnTime.mono (h : run.OnTime latest) (later : latest.le now) : run.OnTime now :=
  ⟨h.toInTime.mono later, h.coherent⟩

/-- What changes neither times nor phases nor steps is dated at any time. -/
theorem Dated.same (createdAt : next.createdAt = run.createdAt)
    (startedAt : Stamps now run.startedAt next.startedAt)
    (completedAt : Stamps now run.completedAt next.completedAt)
    (phases : next.phases = run.phases) (steps : next.steps = run.steps) :
    Dated now run next := by
  refine ⟨createdAt, startedAt, completedAt, ?_, ?_, .inr ⟨phases, steps⟩⟩
  · rw [phases]
    exact List.forall₂_same.mpr fun ph _ => PhaseRecord.Dated.refl ph
  · rw [steps]
    exact List.forall₂_same.mpr fun s _ => StepRecord.Dated.refl s

theorem Dated.changePhase (inProgress : run.status = .inProgress) {phaseId : String}
    {change : PhaseRecord → PhaseRecord}
    (found : ∀ ph, run.phase? phaseId = some ph → ph.Dated now (change ph)) :
    Dated now run (run.changePhase phaseId change) :=
  ⟨rfl, .kept, .kept, Keyed.forall₂_changeFirst PhaseRecord.Dated.refl found,
    List.forall₂_same.mpr fun s _ => StepRecord.Dated.refl s, .inl inProgress⟩

theorem Dated.changeStep (inProgress : run.status = .inProgress) {stepId : String}
    {change : StepRecord → StepRecord}
    (found : ∀ s, run.step? stepId = some s → s.Dated now (change s)) :
    Dated now run (run.changeStep stepId change) :=
  ⟨rfl, .kept, .kept, List.forall₂_same.mpr fun ph _ => PhaseRecord.Dated.refl ph,
    Keyed.forall₂_changeFirst StepRecord.Dated.refl found, .inl inProgress⟩

variable (onTime : run.OnTime now)
include onTime

theorem OnTime.terminate (inProgress : run.status = .inProgress) {status : RunStatus}
    {reason : String} (ended : status = .failed ∨ status = .aborted) :
    (run.terminate now status reason).OnTime now := by
  have stamped := onTime.stamped
  have unended := stamped.not_completed (by simp [inProgress])
  refine onTime.change (.single (.terminated now status reason inProgress ended)) ?_
  refine ⟨rfl, .kept, .of_unknown unended, ?_, ?_, .inl inProgress⟩
  · exact List.forall₂_map_right_iff.mpr
      (List.forall₂_same.mpr fun ph member => (stamped.phases ph member).close_dated)
  · exact List.forall₂_map_right_iff.mpr
      (List.forall₂_same.mpr fun s member => (stamped.steps s member).close_dated)

theorem OnTime.start (h : run.start now = .ok next) : next.OnTime now := by
  obtain ⟨pending, rfl⟩ := start_ok.mp h
  have unbegun : run.startedAt = none :=
    Option.not_isSome_iff_eq_none.mp fun known => onTime.stamped.started.mp known pending
  exact onTime.change (.single (.started now pending))
    (.same rfl (.of_unknown unbegun) .kept rfl rfl)

theorem OnTime.complete (h : run.complete now p = .ok next) : next.OnTime now := by
  obtain ⟨_, inProgress, closed, rfl⟩ := complete_ok.mp h
  have unended := onTime.stamped.not_completed (by simp [inProgress])
  exact onTime.change (.single (.completed now p inProgress closed))
    (.same rfl .kept (.of_unknown unended) rfl rfl)

theorem OnTime.enterPhase {phaseId : String} (h : run.enterPhase now phaseId = .ok next) :
    next.OnTime now := by
  obtain ⟨inProgress, ⟨ph, found, pending⟩, _, same⟩ := enterPhase_ok.mp h
  refine onTime.change (.single (enterPhase_change h)) ?_
  rw [same]
  refine .changePhase inProgress fun other there => ?_
  cases found.symm.trans there
  have stamped := onTime.stamped.phases ph (List.mem_of_find?_eq_some found)
  exact ⟨.of_unknown (stamped.not_started pending), .kept⟩

theorem OnTime.exitPhase {phaseId : String} (h : run.exitPhase now phaseId = .ok next) :
    next.OnTime now := by
  obtain ⟨inProgress, ⟨ph, found, isOpen⟩, _, same⟩ := exitPhase_ok.mp h
  refine onTime.change (.single (exitPhase_change h)) ?_
  rw [same]
  refine .changePhase inProgress fun other there => ?_
  cases found.symm.trans there
  have stamped := onTime.stamped.phases ph (List.mem_of_find?_eq_some found)
  exact ⟨.kept, .of_unknown (stamped.not_completed (by simp [isOpen]))⟩

omit onTime

theorem OnTime.startStep (onTime : run.OnTime (env.clock 0))
    (forward : (env.clock 0).le (env.clock 1)) {stepId : String}
    (h : run.startStep env stepId = .ok next) : next.OnTime (env.clock 1) := by
  obtain ⟨s, ready, startable, enter, rfl⟩ := startStep_ok.mp h
  obtain ⟨entering, steps, status, ph, found, isOpen⟩ := enterPhaseOf_spec enter
  have startable := startable_of_same_steps steps status startable
  obtain ⟨inProgress, stepFound, pending, _⟩ := startable_ok.mp startable
  cases step?_id stepFound
  have entered : ready.OnTime (env.clock 0) := by
    rcases entering with same | entering
    · rw [same]
      exact onTime
    · exact onTime.enterPhase entering
  refine (entered.mono forward).change
    (.single (.begun (env.clock 1) s ph startable found isOpen)) ?_
  refine .changeStep inProgress fun other there => ?_
  cases stepFound.symm.trans there
  have stamped := entered.stamped.steps s (List.mem_of_find?_eq_some stepFound)
  exact ⟨.of_unknown (stamped.not_started pending), .kept⟩

/-- Between the end of a step and that of its phase the statuses agree, if no more. -/
theorem OnTime.finishStep (onTime : run.OnTime (env.clock 0))
    (forward : (env.clock 0).le (env.clock 1)) (stepId : String) (outcome : StepOutcome)
    (observations : Option String) :
    (run.finishStep env stepId outcome observations).2.OnTime (env.clock 1) := by
  have change : Change run (run.finishStep env stepId outcome observations).2 :=
    .finished env stepId outcome observations
  have coherent := change.coherent onTime.coherent
  refine ⟨?_, coherent⟩
  have stamped := change.stamped onTime.stamped
  obtain ⟨e, _, same⟩ | ⟨s, mid, ready, changed, leaving⟩ :=
    finishStep_cases run env stepId outcome observations
  · rw [same]
    exact onTime.toInTime.mono forward
  obtain ⟨inProgress, found, active⟩ := finishable_ok.mp ready
  cases step?_id found
  have ended : mid.InTime (env.clock 1) := by
    rw [changed]
    have old := onTime.stamped.steps s (List.mem_of_find?_eq_some found)
    refine (onTime.toInTime.change (onTime.coherent.finished_agreeing ready outcome observations)
      ?_ (.changeStep inProgress fun other there => ?_)).mono forward
    · refine onTime.stamped.changeStep fun other there => ?_
      cases found.symm.trans there
      exact old.finished active outcome observations
    · cases found.symm.trans there
      exact ⟨.kept, .of_unknown (old.not_completed (by simp [active]))⟩
  rcases leaving with ⟨_, same⟩ | ⟨_, same⟩
  · rw [same] at coherent stamped ⊢
    cases leave : mid.exitPhase (env.clock 1) s.phaseId with
    | error e => exact ended
    | ok next =>
        rw [leave] at coherent stamped
        obtain ⟨midInProgress, ⟨ph, there, isOpen⟩, _, left⟩ := exitPhase_ok.mp leave
        refine ended.change coherent.toAgreeing stamped ?_
        rw [show settle mid (.ok next) = (.ok (), next) from rfl, left]
        refine .changePhase midInProgress fun other alsoThere => ?_
        cases there.symm.trans alsoThere
        have old := ended.stamped.phases ph (List.mem_of_find?_eq_some there)
        exact ⟨.kept, .of_unknown (old.not_completed (by simp [isOpen]))⟩
  · rw [same]
    exact ended

theorem OnTime.record (onTime : run.OnTime (env.clock 0))
    (forward : (env.clock 0).le (env.clock 1)) {m : NewMeasurement} {kept : Measurement}
    (h : run.record env p m = .ok (kept, next)) : next.OnTime (env.clock 1) := by
  obtain ⟨_, inProgress, _, step, _, same⟩ := record_ok.mp h
  rw [show next = _ from congrArg Prod.snd same]
  have appended : ∀ m, { run with ledger := run.ledger.append m }.OnTime (env.clock 1) :=
    fun m => (onTime.mono forward).change (.single (.measured m inProgress))
      (.same rfl .kept .kept rfl rfl)
  unfold recorded
  split
  · exact appended _
  · exact appended _
  · exact (appended _).terminate inProgress (.inr rfl)

theorem OnTime.simple_call {c : Call} (simple : c.operation.isSimple)
    (onTime : run.OnTime (c.env.clock 0)) (forward : (c.env.clock 0).le (c.env.clock 1)) :
    (run.call c).2.OnTime (c.env.clock 1) := by
  obtain ⟨env, p, op⟩ := c
  have late := onTime.mono forward
  have leaves {answer : TestRun → Answer} {result : Except EngineError TestRun}
      (accepted : ∀ next, result = .ok next → next.OnTime (env.clock 1)) :
      (run.answeringWith answer result).2.OnTime (env.clock 1) :=
    answeringWith_leaves (P := OnTime (env.clock 1)) late accepted
  cases op with
  | start => exact leaves fun next h => (onTime.start h).mono forward
  | abort reason =>
      refine leaves fun next h => ?_
      obtain ⟨inProgress, rfl⟩ := abort_ok.mp h
      exact (onTime.terminate inProgress (.inr rfl)).mono forward
  | fail reason =>
      refine leaves fun next h => ?_
      obtain ⟨inProgress, rfl⟩ := fail_ok.mp h
      exact (onTime.terminate inProgress (.inl rfl)).mono forward
  | complete => exact leaves fun next h => (onTime.complete h).mono forward
  | enterPhase phaseId => exact leaves fun next h => (onTime.enterPhase h).mono forward
  | exitPhase phaseId => exact leaves fun next h => (onTime.exitPhase h).mono forward
  | startStep stepId => exact leaves fun next h => onTime.startStep forward h
  | finishStep stepId outcome observations =>
      rw [call, apply, answeringAs_snd]
      exact onTime.finishStep forward stepId outcome observations
  | record m =>
      rw [call, apply, answering_snd]
      cases h : run.record env p m with
      | error e => exact late
      | ok recording => exact onTime.record forward h
  | flag measurementId flag notes =>
      rw [call, apply, answering_snd]
      cases h : run.flag measurementId flag notes with
      | error e => exact late
      | ok flagging =>
          obtain ⟨kept, next⟩ := flagging
          obtain ⟨_, rfl⟩ := flag_ok.mp h
          exact late.change (.single (.flagged measurementId flag notes))
            (.same rfl .kept .kept rfl rfl)
  | evaluate =>
      refine leaves fun next h => ?_
      obtain ⟨_, rfl⟩ := evaluate_ok.mp h
      split
      · rename_i completed
        exact late.change (.single (.graded p completed)) (.same rfl .kept .kept rfl rfl)
      · exact late.change (.single (.judged p)) (.same rfl .kept .kept rfl rfl)
  | execute => cases simple
  | executeWith => cases simple

section Execution

variable {ticks n : Nat}

/-- A run that is on time, if there are readings of the clock left, at a reading that is not
    after the last one taken. -/
def PunctualAt (env : Surroundings) (ticks n : Nat) (run : TestRun) : Prop :=
  n ≤ ticks → ∃ latest, run.OnTime latest ∧
    ∀ i, n ≤ i + 1 → i < ticks → latest.le (env.clock i)

theorem PunctualAt.step
    (during : ∀ i j, i ≤ j → j < ticks → (env.clock i).le (env.clock j))
    (punctual : PunctualAt env ticks n run)
    (step : run.OnTime (env.clock n) → (env.clock n).le (env.clock (n + 1)) →
      next.OnTime (env.clock (n + 1))) :
    PunctualAt env ticks (n + 2) next := by
  intro enough
  obtain ⟨latest, onTime, since⟩ := punctual (by omega)
  have first := onTime.mono (since n (by omega) (by omega))
  refine ⟨env.clock (n + 1), step first (during n (n + 1) (by omega) (by omega)), ?_⟩
  intro i after before
  exact during (n + 1) i (by omega) before

theorem OnTime.executeWith {resolve : StepDef → Option Performer} {stepId : String}
    {inputs : StepInputs} (onTime : run.OnTime latest)
    (forward : env.Forward (executionTicks p resolve stepId inputs) latest) :
    (run.executeWith env p resolve stepId inputs).2.OnTime
      (env.clock (executionTicks p resolve stepId inputs - 1)) := by
  obtain ⟨since, during⟩ := forward
  have parts : KeptInExecution env p
      (PunctualAt env (executionTicks p resolve stepId inputs)) := by
    constructor
    · intro run next n stepId started punctual
      exact punctual.step during fun onTime forward => onTime.startStep forward started
    · intro run next n m kept recorded punctual
      exact punctual.step during fun onTime forward => onTime.record forward recorded
    · intro run n stepId outcome observations punctual
      refine punctual.step during fun onTime forward => ?_
      have onTime : run.OnTime ((env.later n).clock 0) := onTime
      exact onTime.finishStep forward stepId outcome observations
    · intro run next n reason aborted punctual
      obtain ⟨inProgress, rfl⟩ := abort_ok.mp aborted
      exact punctual.step during fun onTime forward =>
        (onTime.terminate inProgress (.inr rfl)).mono forward
  have start : PunctualAt env (executionTicks p resolve stepId inputs) 0 run :=
    fun _ => ⟨latest, onTime, fun i _ => since i⟩
  obtain ⟨m, within, punctual⟩ := parts.executeWith start resolve stepId inputs
  obtain ⟨last, onTime, before⟩ := punctual within
  have positive : 0 < executionTicks p resolve stepId inputs := Nat.succ_pos _
  exact onTime.mono (before _ (by omega) (by omega))

end Execution

theorem ticks_pos (c : Call) : 0 < c.ticks := by
  obtain ⟨env, p, op⟩ := c
  cases op <;> exact Nat.succ_pos _

theorem OnTime.call {c : Call} (onTime : run.OnTime latest)
    (forward : c.env.Forward c.ticks latest) :
    (run.call c).2.OnTime (c.env.clock (c.ticks - 1)) := by
  obtain ⟨env, p, op⟩ := c
  have simple (isSimple : op.isSimple) (two : Call.ticks ⟨env, p, op⟩ = 2) :
      (run.call ⟨env, p, op⟩).2.OnTime (env.clock (Call.ticks ⟨env, p, op⟩ - 1)) := by
    rw [two] at forward ⊢
    exact OnTime.simple_call isSimple (onTime.mono (forward.since 0 (by omega)))
      (forward.during 0 1 (by omega) (by omega))
  cases op with
  | execute stepId inputs handlers =>
      rw [TestRun.call, apply, answeringAs_snd]
      exact onTime.executeWith forward
  | executeWith stepId inputs resolve =>
      rw [TestRun.call, apply, answeringAs_snd]
      exact onTime.executeWith forward
  | _ => exact simple rfl rfl

theorem OnTime.after (calls : List Call) (onTime : run.OnTime latest)
    (forward : Forward latest calls) : ∃ last, (run.after calls).OnTime last := by
  induction calls generalizing run latest with
  | nil => exact ⟨latest, onTime⟩
  | cons c rest ih =>
      obtain ⟨each, across⟩ := forward
      obtain ⟨first, others⟩ := List.forall_mem_cons.mp each
      obtain ⟨ahead, across⟩ := List.pairwise_cons.mp across
      refine ih (onTime.call first) ⟨fun d member => ⟨?_, (others d member).during⟩, across⟩
      intro j before
      have last : c.ticks - 1 < c.ticks := Nat.sub_one_lt_of_lt (ticks_pos c)
      exact ahead d member _ last j before

theorem create_onTime (valid : Validation.check p = .ok ()) {id specimen operator : String}
    {overrides : Dictionary Json} (h : create id now p specimen operator overrides = .ok run) :
    run.OnTime now := by
  have coherent := create_coherent valid h
  have stamped := create_stamped h
  obtain ⟨_, _, rfl⟩ := map_ok h
  have unknown {a : Option Instant} : Follows a none := fun t known => nomatch known
  have past : Past now none := fun t known => nomatch known
  have phases : ∀ ph ∈ p.phases.map pendingPhase, ph.startedAt = none ∧ ph.completedAt = none := by
    intro ph member
    obtain ⟨_, _, rfl⟩ := List.mem_map.mp member
    exact ⟨rfl, rfl⟩
  have steps : ∀ s ∈ pendingSteps p.phases, s.startedAt = none ∧ s.completedAt = none := by
    intro s member
    obtain ⟨_, _, member⟩ := List.mem_flatMap.mp member
    obtain ⟨_, _, rfl⟩ := List.mem_map.mp member
    exact ⟨rfl, rfl⟩
  refine ⟨⟨stamped, ⟨Instant.le_refl now, past, past, ?_, ?_⟩,
    ⟨unknown, unknown, ?_, ?_, ?_⟩⟩, coherent⟩
  · intro ph member
    rw [(phases ph member).1, (phases ph member).2]
    exact ⟨past, past⟩
  · intro s member
    rw [(steps s member).1, (steps s member).2]
    exact ⟨past, past⟩
  · intro ph member
    rw [(phases ph member).1, (phases ph member).2]
    exact ⟨unknown, unknown, fun _ _ known => nomatch known⟩
  · intro s member
    rw [(steps s member).1, (steps s member).2]
    exact ⟨unknown, unknown, fun _ _ known => nomatch known⟩
  · refine List.pairwise_of_forall_mem_list fun s _ t member => ?_
    rw [(steps t member).1]
    exact unknown

/-- Whatever operations are done on a run made from a valid protocol, its times and verdicts
    agree with its statuses; and they are in order if the clock never goes back. -/
theorem after_timed (valid : Validation.check p = .ok ())
    {id specimen operator : String} {overrides : Dictionary Json}
    (created : create id now p specimen operator overrides = .ok run) (calls : List Call) :
    (run.after calls).Stamped ∧ (Forward now calls → (run.after calls).Chronological) := by
  refine ⟨((Reachable.created created).after calls).stamped, fun forward => ?_⟩
  obtain ⟨_, onTime⟩ := (create_onTime valid created).after calls forward
  exact onTime.chronological

/-- Calls of an illustration, each at the next two ticks of a clock. -/
def ticking (tick : Nat) : List Operation → List Call
  | [] => []
  | op :: rest =>
      ⟨⟨fun i => ⟨tick + i, 0⟩, fun _ => "reading-1"⟩, .twoPhases, op⟩ :: ticking (tick + 2) rest

theorem ticks_simple {c : Call} (simple : c.operation.isSimple) : c.ticks = 2 := by
  obtain ⟨env, p, op⟩ := c
  cases op with
  | execute | executeWith => cases simple
  | _ => rfl

theorem ticking_clock {tick : Nat} {ops : List Operation} (simple : ∀ op ∈ ops, op.isSimple)
    {c : Call} (member : c ∈ ticking tick ops) :
    c.ticks = 2 ∧ ∃ first : Nat, tick ≤ first ∧ c.env.clock = fun i => ⟨first + i, 0⟩ := by
  induction ops generalizing tick with
  | nil => cases member
  | cons op rest ih =>
      obtain ⟨isSimple, others⟩ := List.forall_mem_cons.mp simple
      rcases List.mem_cons.mp member with rfl | inRest
      · exact ⟨ticks_simple isSimple, tick, Nat.le_refl tick, rfl⟩
      · obtain ⟨two, first, later, clock⟩ := ih others inRest
        exact ⟨two, first, by omega, clock⟩

theorem ticking_forward (tick : Nat) {ops : List Operation} (simple : ∀ op ∈ ops, op.isSimple) :
    Forward ⟨tick, 0⟩ (ticking tick ops) := by
  constructor
  · intro c member
    obtain ⟨two, first, later, clock⟩ := ticking_clock simple member
    rw [two]
    constructor <;> simp [clock, Instant.le] <;> omega
  · induction ops generalizing tick with
    | nil => exact .nil
    | cons op rest ih =>
        obtain ⟨isSimple, others⟩ := List.forall_mem_cons.mp simple
        refine List.pairwise_cons.mpr ⟨fun d member => ?_, ih (tick + 2) others⟩
        obtain ⟨two, first, later, clock⟩ := ticking_clock others member
        rw [ticks_simple isSimple, two]
        simp [clock, Instant.le]
        omega

/-- An illustration: the run is aborted in its last step. -/
def abortedAtLast : List Call :=
  ticking 0 [.start, .startStep "inspect", .finishStep "inspect" .passed none,
    .startStep "mount", .finishStep "mount" .completed none, .startStep "irradiate",
    .abort "power lost"]

theorem ofTwoPhases_timed :
    Validation.check .twoPhases = .ok () ∧
      create "run-1" default .twoPhases "cell-7" "night shift" [] = .ok ofTwoPhases ∧
        Forward default abortedAtLast ∧
          (ofTwoPhases.after abortedAtLast).status = .aborted ∧
            (ofTwoPhases.after abortedAtLast).Stamped ∧
              (ofTwoPhases.after abortedAtLast).Chronological := by
  have forward : Forward default abortedAtLast := ticking_forward 0 (by decide)
  have aborted : (ofTwoPhases.after abortedAtLast).status = .aborted := by cbv
  obtain ⟨stamped, chronological⟩ := after_timed twoPhases_valid ofTwoPhases_created abortedAtLast
  exact ⟨twoPhases_valid, ofTwoPhases_created, forward, aborted, stamped, chronological forward⟩

end TestRun
end Qualification
