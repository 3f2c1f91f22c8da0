import Qualification.Proofs.Run.Atomic
import Qualification.Proofs.Run.Entries

/-! # The handlers of steps

A set of handlers keeps each of them at the place of its last registration. It resolves a step
to the handler that the action of the step names, or else to the first one that is able to do
what the step asks for. The steps of a valid protocol that it resolves to none are those that it
warns of, and the only ones whose execution is refused for want of a handler.
-/

namespace Qualification

variable {set : HandlerSet} {registered : List Handler} {h : Handler} {step : StepDef}
  {found : Option Handler} {p q : ProtocolDefinition} {run : TestRun} {env : Surroundings}
  {stepId : String} {inputs : StepInputs}

theorem Handler.name_injective : Function.Injective Handler.name := by
  intro a b same
  cases a <;> cases b <;> first | rfl | exact absurd same (by decide)

namespace HandlerSet

/-- Is one handler registered for the last time before another one is? -/
def LastBefore (registered : List Handler) (a b : Handler) : Prop :=
  ∃ earlier later, registered = earlier ++ a :: later ∧ a ∉ later ∧ b ∈ later

/-- The handlers of a set are those that were registered, each of them once, in the order of
    their last registration. -/
structure Registers (registered : List Handler) (set : HandlerSet) : Prop where
  members : ∀ h, h ∈ set.handlers ↔ h ∈ registered
  names : set.names.Nodup
  ordered : set.handlers.Pairwise (LastBefore registered)

theorem LastBefore.ne {a b : Handler} : LastBefore registered a b → a ≠ b := by
  rintro ⟨_, _, _, last, inLater⟩ rfl
  exact last inLater

/-- A later registration of a third handler changes no order. -/
theorem LastBefore.register {a b : Handler} (before : LastBefore registered a b) (other : a ≠ h) :
    LastBefore (registered ++ [h]) a b := by
  obtain ⟨earlier, later, rfl, last, inLater⟩ := before
  refine ⟨earlier, later ++ [h], ?_, ?_, List.mem_append_left _ inLater⟩
  · rw [List.append_assoc, List.cons_append]
  · simp [last, other]

theorem lastBefore_new {a : Handler} (member : a ∈ registered) (other : a ≠ h) :
    LastBefore (registered ++ [h]) a h := by
  -- The last registration is the first one from behind.
  obtain ⟨later, earlier, cut, last⟩ :=
    List.eq_append_cons_of_mem (List.mem_reverse.mpr member)
  have whole : registered = earlier.reverse ++ a :: later.reverse := by
    rw [← List.reverse_reverse registered, cut, List.reverse_append, List.reverse_cons,
      List.append_assoc, List.singleton_append]
  refine ⟨earlier.reverse, later.reverse ++ [h], ?_, ?_, by simp⟩
  · rw [whole, List.append_assoc, List.cons_append]
  · simp [last, other]

theorem mem_register {other : Handler} :
    other ∈ (set.register h).handlers ↔ other ∈ set.handlers ∧ other ≠ h ∨ other = h := by
  simp [register, Handler.name_injective.eq_iff]

theorem Registers.register (registers : Registers registered set) (h : Handler) :
    Registers (registered ++ [h]) (set.register h) := by
  have members : ∀ other, other ∈ (set.register h).handlers ↔ other ∈ registered ++ [h] := by
    intro other
    rw [mem_register, registers.members, List.mem_append, List.mem_singleton]
    by_cases same : other = h <;> simp [same]
  have ordered : (set.register h).handlers.Pairwise (LastBefore (registered ++ [h])) := by
    refine List.pairwise_append.mpr ⟨?_, List.pairwise_singleton _ _, ?_⟩
    · refine (registers.ordered.filter _).imp_of_mem fun left _ before => before.register ?_
      rintro rfl
      simp at left
    · intro a left b right
      obtain rfl := List.mem_singleton.mp right
      obtain ⟨member, other⟩ := List.mem_filter.mp left
      refine lastBefore_new ((registers.members a).mp member) ?_
      rintro rfl
      simp at other
  have distinct : (set.register h).handlers.Nodup := ordered.imp LastBefore.ne
  exact ⟨members, distinct.map Handler.name_injective, ordered⟩

/-- Whatever was registered, and however often. -/
theorem ofList_registers (registered : List Handler) :
    Registers registered (ofList registered) := by
  -- The induction is on the latest registration, which is the one that goes to the end.
  induction registered using List.reverseRecOn with
  | nil => exact ⟨fun _ => .rfl, List.nodup_nil, .nil⟩
  | append_singleton earlier h ih =>
      rw [ofList, List.foldl_append]
      exact ih.register h

/-- The handler of a step: the one that its action names, else the first that can do what it
    asks for. -/
inductive Resolves (set : HandlerSet) (step : StepDef) : Option Handler → Prop where
  | named {h : Handler} : h ∈ set.handlers → h.name = step.action → Resolves set step (some h)
  | able {h : Handler} {before after : List Handler} :
      (∀ other ∈ set.handlers, other.name ≠ step.action) →
      set.handlers = before ++ h :: after → step.capability = some h.capability →
      (∀ other ∈ before, step.capability ≠ some other.capability) →
      Resolves set step (some h)
  | nobody :
      (∀ other ∈ set.handlers, other.name ≠ step.action) →
      (∀ other ∈ set.handlers, step.capability ≠ some other.capability) →
      Resolves set step none

theorem resolve?_of_named (member : h ∈ set.handlers) (named : h.name = step.action) :
    set.resolve? step = some h := by
  obtain ⟨other, found⟩ : ∃ other,
      (set.handlers.find? fun other => other.name = step.action) = some other :=
    Option.isSome_iff_exists.mp (List.find?_isSome.mpr ⟨h, member, decide_eq_true named⟩)
  have same : other.name = step.action := by simpa using List.find?_some found
  obtain rfl : other = h := Handler.name_injective (same.trans named.symm)
  rw [resolve?, found, Option.some_or]

theorem resolve?_of_unnamed (unnamed : ∀ other ∈ set.handlers, other.name ≠ step.action) :
    set.resolve? step =
      set.handlers.find? fun other => step.capability = some other.capability := by
  have absent : (set.handlers.find? fun other => other.name = step.action) = none := by
    simpa using unnamed
  rw [resolve?, absent, Option.none_or]
  cases step.capability with
  | none => exact (List.find?_eq_none.mpr (by simp)).symm
  | some c => simp [eq_comm]

theorem resolve?_eq_iff : set.resolve? step = found ↔ Resolves set step found := by
  constructor
  · rintro rfl
    by_cases named : ∃ h ∈ set.handlers, h.name = step.action
    · obtain ⟨h, member, named⟩ := named
      rw [resolve?_of_named member named]
      exact .named member named
    · push Not at named
      rw [resolve?_of_unnamed named]
      cases chosen : set.handlers.find? fun other =>
          step.capability = some other.capability with
      | none => exact .nobody named (by simpa using chosen)
      | some h =>
          obtain ⟨able, before, after, cut, first⟩ := List.find?_eq_some_iff_append.mp chosen
          exact .able named cut (by simpa using able) (by simpa using first)
  · intro resolves
    cases resolves with
    | named member named => exact resolve?_of_named member named
    | able unnamed cut able first =>
        rw [resolve?_of_unnamed unnamed, List.find?_eq_some_iff_append]
        exact ⟨by simpa using able, _, _, cut, by simpa using first⟩
    | nobody unnamed unable =>
        rw [resolve?_of_unnamed unnamed]
        simpa using unable

end HandlerSet

theorem ProtocolDefinition.step?_snd (p : ProtocolDefinition) (stepId : String) :
    (p.step? stepId).map Prod.snd = p.steps.find? fun s => s.id = stepId := by
  have within : (Option.map Prod.snd ∘ fun ph : PhaseDef =>
      (ph.steps.find? fun s => s.id = stepId).map fun s => (ph, s)) =
        fun ph => ph.steps.find? fun s => s.id = stepId := by
    funext ph
    rw [Function.comp_apply, Option.map_map]
    exact Option.map_id'
  rw [step?, steps, List.map_findSome?, within, List.find?_flatMap]

namespace TestRun

section Performable

variable {α β : Type} {x : Except EngineError α} {now : Instant}

/-- Is a result not refused for want of a performer? -/
def Performable (x : Except EngineError α) : Prop :=
  ∀ stepId action, x ≠ .error (.unknownAction stepId action)

theorem Performable.bind {f : α → Except EngineError β} (first : Performable x)
    (next : ∀ a, Performable (f a)) : Performable (x >>= f) := by
  cases x with
  | ok a => exact next a
  | error e =>
      intro stepId action refused
      exact first stepId action (congrArg Except.error (Except.error.inj refused))

theorem requireInProgress_performable (run : TestRun) (action : String) :
    Performable (run.requireInProgress action) := by
  unfold requireInProgress
  split <;> exact nofun

theorem enterPhase_performable (run : TestRun) (phaseId : String) :
    Performable (run.enterPhase now phaseId) := by
  refine .bind (run.requireInProgress_performable _) fun _ => .bind ?_ fun p => ?_
  · unfold getPhase
    split <;> exact nofun
  · split
    · exact nofun
    · split <;> exact nofun

theorem startable_performable (run : TestRun) (stepId : String) :
    Performable (run.startable stepId) := by
  refine .bind (run.requireInProgress_performable _) fun _ => .bind ?_ fun s => ?_
  · unfold getStep
    split <;> exact nofun
  · split
    · exact nofun
    · split
      · exact nofun
      · split <;> exact nofun

theorem startStep_performable (run : TestRun) (env : Surroundings) (stepId : String) :
    Performable (run.startStep env stepId) := by
  refine .bind (run.startable_performable stepId) fun s => .bind ?_ fun ready => nofun
  unfold enterPhaseOf
  split
  · exact nofun
  · split
    · exact run.enterPhase_performable s.phaseId
    · exact nofun
    · exact nofun

end Performable

variable {named action : String}

/-- A step lacks a performer only if it is there. -/
theorem executable_unknownAction {resolve : StepDef → Option Performer} :
    run.executable p resolve stepId = .error (.unknownAction named action) ↔
      run.BoundTo p ∧ named = stepId ∧ ∃ step,
        p.steps.find? (fun s => s.id = stepId) = some step ∧ resolve step = none ∧
          step.action = action := by
  rw [← p.step?_snd]
  by_cases bound : run.BoundTo p
  · rw [executable, requireProtocol_ok.mpr bound]
    cases found : p.step? stepId with
    | none => simp [bind, Except.bind]
    | some place =>
        obtain ⟨phase, step⟩ := place
        cases resolved : resolve step with
        | none => simp [bind, Except.bind, resolved, bound, eq_comm]
        | some performer => simp [bind, Except.bind, resolved, pure, Except.pure]
  · have other : run.requireProtocol p = .error (.protocolMismatch run.id run.key p.key) :=
      if_neg bound
    rw [executable, other]
    exact iff_of_false nofun fun h => bound h.1

/-- An execution is refused for want of a handler just if its step is there and none performs
    it. -/
theorem Coherent.executeStep_unknownAction (h : run.Coherent) :
    (run.executeStep env p set stepId inputs).1 = .error (.unknownAction named action) ↔
      run.BoundTo p ∧ named = stepId ∧ ∃ step,
        p.steps.find? (fun s => s.id = stepId) = some step ∧ set.resolve? step = none ∧
          step.action = action := by
  have resolved (step : StepDef) :
      (set.resolve? step).map Handler.run = none ↔ set.resolve? step = none :=
    Option.map_eq_none_iff
  simp only [← resolved]
  rw [← executable_unknownAction, executeStep, executeWith]
  cases run.executable p (fun step => (set.resolve? step).map Handler.run) stepId with
  | error e => rw [Except.error.injEq, Except.error.injEq]
  | ok found =>
      obtain ⟨step, performer⟩ := found
      refine iff_of_false ?_ (fun refused => by cases refused)
      dsimp only
      cases start : run.startStep env stepId with
      | error e =>
          intro same
          rw [Except.error.inj same] at start
          exact run.startStep_performable env stepId named action start
      | ok started =>
          obtain ⟨s, _, finishable⟩ := startStep_finishable start
          have coherent : started.Coherent := (startStep_changes start).coherent h
          exact not_refused (coherent.perform_accepted finishable step performer inputs)

/-- The steps that a set of handlers warns of are those of whose execution it is refused for
    want of a handler, whatever the run has come to. -/
structure Foretells (set : HandlerSet) (p : ProtocolDefinition) (listed : List StepDef) : Prop where
  warned : set.lint p = listed.map set.unresolved
  inOrder : listed.Sublist p.steps
  refused : ∀ run, Reachable p run → ∀ step ∈ p.steps, ∀ env inputs, step ∈ listed ↔
    (run.executeStep env p set step.id inputs).1 = .error (.unknownAction step.id step.action)
  /-- No other execution is refused for that. -/
  only : ∀ run, Reachable p run → ∀ env stepId inputs named action,
    (run.executeStep env p set stepId inputs).1 = .error (.unknownAction named action) →
      ∃ step ∈ listed, stepId = step.id ∧ named = step.id ∧ action = step.action

theorem lint_foretells (valid : Validation.check p = .ok ()) (set : HandlerSet) :
    ∃ listed, Foretells set p listed := by
  have unique := (Validation.valid_of_check valid).stepIds
  have here {step : StepDef} : step ∈ p.steps.filter (fun s => (set.resolve? s).isNone) ↔
      step ∈ p.steps ∧ set.resolve? step = none := by
    rw [List.mem_filter, Option.isNone_iff_eq_none]
  refine ⟨p.steps.filter fun s => (set.resolve? s).isNone, rfl, List.filter_sublist, ?_, ?_⟩
  · intro run reachable step member env inputs
    have found := Keyed.find?_of_mem unique member
    rw [(reachable.coherent valid).executeStep_unknownAction, here]
    constructor
    · exact fun missing => ⟨reachable.bound, rfl, step, found, missing.2, rfl⟩
    · rintro ⟨_, _, other, same, missing, _⟩
      obtain rfl : step = other := Option.some.inj (found.symm.trans same)
      exact ⟨member, missing⟩
  · intro run reachable env stepId inputs named action refused
    obtain ⟨_, rfl, step, found, missing, rfl⟩ :=
      (reachable.coherent valid).executeStep_unknownAction.mp refused
    have same : step.id = named := by simpa using List.find?_some found
    exact ⟨step, here.mpr ⟨List.mem_of_find?_eq_some found, missing⟩, same.symm, same.symm, rfl⟩

/-- Where nothing is warned of, no execution is refused for want of a handler. -/
theorem Foretells.silent {listed : List StepDef} (h : Foretells set p listed)
    (clean : set.lint p = []) (reachable : Reachable p run) (env : Surroundings)
    (stepId : String) (inputs : StepInputs) :
    Performable (run.executeStep env p set stepId inputs).1 := by
  intro named action refused
  obtain ⟨step, member, _⟩ := h.only run reachable env stepId inputs named action refused
  rw [h.warned, List.map_eq_nil_iff] at clean
  rw [clean] at member
  cases member

end TestRun

open TestRun in
/-- A set keeps each registered handler at its last place, resolves a step by the name of its
    action or else by what it asks for, and foretells of a valid protocol which steps of a run
    it cannot execute. -/
theorem HandlerSet.ofList_foretells (registered : List Handler) :
    Registers registered (ofList registered) ∧
      (∀ step, Resolves (ofList registered) step ((ofList registered).resolve? step)) ∧
        ∀ p, Validation.check p = .ok () →
          (∃ listed, Foretells (ofList registered) p listed) ∧
            ((ofList registered).lint p = [] → ∀ run, Reachable p run →
              ∀ env stepId inputs named action,
                (run.executeStep env p (ofList registered) stepId inputs).1 ≠
                  .error (.unknownAction named action)) := by
  refine ⟨ofList_registers registered, fun step => resolve?_eq_iff.mp rfl, fun p valid => ?_⟩
  obtain ⟨listed, foretells⟩ := lint_foretells valid (ofList registered)
  exact ⟨⟨listed, foretells⟩, fun clean run reachable => foretells.silent clean reachable⟩

/-- An illustration: a set of handlers, one of which is registered again. -/
def HandlerSet.reregistered : HandlerSet :=
  .ofList [.expose, .measure, .expose]

/-- An illustration: a step that asks for a day of damp heat. -/
def StepDef.soaking : StepDef :=
  ⟨"damp heat", 1, "", "bake", some 24, some .condition⟩

/-- An illustration: a step that no handler is named for. -/
def StepDef.drying : StepDef :=
  ⟨"dry", 2, "", "wipe", none, none⟩

/-- An illustration: a damp heat and a drying. -/
def ProtocolDefinition.soaked : ProtocolDefinition :=
  { twoPhases with phases := [⟨"soak", none, none, [.soaking, .drying]⟩] }

theorem soaked_valid : Validation.check .soaked = .ok () := by
  have soaking : StepDef.soaking.Valid := by
    refine ⟨by decide +kernel, by decide +kernel, fun x given => ?_⟩
    cases given
    exact ⟨by decide +kernel, by decide +kernel⟩
  have drying : StepDef.drying.Valid := ⟨by decide +kernel, by decide +kernel, nofun⟩
  have phase : PhaseDef.Valid ⟨"soak", none, none, [.soaking, .drying]⟩ :=
    ⟨by decide +kernel, List.cons_ne_nil _ _, .refl _, by simp [soaking, drying]⟩
  exact (Validation.check_ok_iff_valid _).mpr { Validation.valid_of_check twoPhases_valid with
    peopled := List.cons_ne_nil _ _
    phaseIds := List.nodup_singleton _
    stepIds := by decide
    phases := List.forall_mem_singleton.mpr phase }

/-- An illustration: a run of them, just created. -/
def TestRun.ofSoaked : TestRun :=
  { ofTwoPhases with
    phases := ProtocolDefinition.soaked.phases.map pendingPhase
    steps := pendingSteps ProtocolDefinition.soaked.phases }

theorem TestRun.ofSoaked_created :
    create "run-1" default .soaked "cell-7" "night shift" [] = .ok ofSoaked := rfl

open TestRun in
/-- Refused once, the drying is refused in every run; the damp heat has a handler. -/
theorem soaked_foretold :
    Validation.check .soaked = .ok () ∧ Reachable .soaked ofSoaked ∧
      HandlerSet.reregistered.handlers = [.measure, .expose] ∧
      (HandlerSet.reregistered.lint .soaked).length = 1 ∧
      ∀ run, Reachable .soaked run → ∀ env inputs,
        (run.executeStep env .soaked .reregistered "dry" inputs).1 =
          .error (.unknownAction "dry" "wipe") := by
  have reachable : Reachable .soaked ofSoaked := .created ofSoaked_created
  obtain ⟨_, _, agree⟩ := HandlerSet.ofList_foretells [.expose, .measure, .expose]
  obtain ⟨⟨listed, foretells⟩, _⟩ := agree .soaked soaked_valid
  have member : StepDef.drying ∈ ProtocolDefinition.soaked.steps := .tail _ (.head _)
  have once : (ofSoaked.executeStep (still .start).env .soaked .reregistered "dry" .none).1 =
      .error (.unknownAction "dry" "wipe") := by rfl
  have warned := (foretells.refused ofSoaked reachable .drying member _ _).mpr once
  refine ⟨soaked_valid, reachable, by decide, by decide +kernel, fun run reached env inputs => ?_⟩
  exact (foretells.refused run reached .drying member env inputs).mp warned

end Qualification
