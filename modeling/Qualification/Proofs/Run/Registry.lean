import Qualification.Proofs.Dictionary
import Qualification.Proofs.Refusal
import Qualification.Proofs.Run.Accepted
import Qualification.Run.Service

/-! # Independent runs

Whatever is requested of a registry, by any number of callers and in any order, each
registered run is as if it were alone, and a request that is refused changes nothing.
Requests leave a run as the operations that name it would leave it on its own, with the
protocol that it was registered with.
-/

namespace Qualification.RunRegistry

variable {r next : RunRegistry} {p other : ProtocolDefinition} {run : TestRun} {id : String}

theorem get_ok {slot : RegisteredRun} :
    r.get id = .ok slot ↔ Dictionary.get? id r.runs = some slot := by
  unfold get
  split <;> simp [*]

theorem insert_ok : r.insert p run = .ok next ↔
    run.requireProtocol p = .ok () ∧ Dictionary.get? run.id r.runs = none ∧
      next = ⟨Dictionary.insert run.id ⟨p, run⟩ r.runs⟩ := by
  constructor
  · intro h
    obtain ⟨⟨⟩, bound, h⟩ := bind_ok h
    split at h
    · cases h
    · rename_i absent
      cases h
      exact ⟨bound, absent, rfl⟩
  · rintro ⟨bound, absent, rfl⟩
    simp [insert, bound, absent, bind, Except.bind, pure, Except.pure]

theorem create_ok {now : Instant} {specimen operator : String} {overrides : Dictionary Json} :
    r.create id now p specimen operator overrides = .ok next ↔
      ∃ run, TestRun.create id now p specimen operator overrides = .ok run ∧
        r.insert p run = .ok next := by
  constructor
  · intro h
    obtain ⟨run, created, inserted⟩ := bind_ok h
    exact ⟨run, created, inserted⟩
  · rintro ⟨run, created, inserted⟩
    simp [create, created, inserted, bind, Except.bind]

/-- Registering a run leaves every other one alone. -/
theorem get_insert {slot : RegisteredRun} (h : r.insert p run = .ok next)
    (held : r.get id = .ok slot) : next.get id = .ok slot := by
  obtain ⟨_, absent, rfl⟩ := insert_ok.mp h
  have held := get_ok.mp held
  have different : id ≠ run.id := by
    rintro rfl
    rw [held] at absent
    cases absent
  exact get_ok.mpr ((Dictionary.get?_insert_of_ne different _ _).trans held)

theorem get_apply (env : Surroundings) (operation : Operation) (held : r.get id = .ok ⟨p, run⟩) :
    (r.apply env id operation).2.get id = .ok ⟨p, (run.call ⟨env, p, operation⟩).2⟩ := by
  simp only [apply, held]
  exact get_ok.mpr (Dictionary.get?_insert_self id _ r.runs)

/-- An operation on a run leaves every other one alone. -/
theorem get_apply_of_ne {runId : String} (env : Surroundings) (operation : Operation)
    {slot : RegisteredRun} (different : id ≠ runId) (held : r.get id = .ok slot) :
    (r.apply env runId operation).2.get id = .ok slot := by
  unfold apply
  split
  · exact held
  · exact get_ok.mpr ((Dictionary.get?_insert_of_ne different _ _).trans (get_ok.mp held))

/-- One request leaves of a run what its call does, if it makes one. -/
theorem get_serve (q : Request) (held : r.get id = .ok ⟨p, run⟩) :
    (r.serve q).get id = .ok ⟨p, run.after (q.call? p id).toList⟩ := by
  cases q with
  | create newId now other specimen operator overrides =>
      rw [serve]
      cases created : r.create newId now other specimen operator overrides with
      | error e => exact held
      | ok next =>
          obtain ⟨_, _, inserted⟩ := create_ok.mp created
          exact get_insert inserted held
  | insert other new =>
      rw [serve]
      cases inserted : r.insert other new with
      | error e => exact held
      | ok next => exact get_insert inserted held
  | operate env runId operation =>
      by_cases same : runId = id
      · subst same
        rw [Request.call?, if_pos rfl]
        exact get_apply env operation held
      · rw [Request.call?, if_neg same]
        exact get_apply_of_ne env operation (Ne.symm same) held

theorem get_serveAll (requests : List Request) (held : r.get id = .ok ⟨p, run⟩) :
    (r.serveAll requests).get id = .ok ⟨p, run.after (callsOn p id requests)⟩ := by
  induction requests generalizing r run with
  | nil => exact held
  | cons q rest ih =>
      rw [serveAll, ih (get_serve q held)]
      cases call : q.call? p id <;> simp [callsOn, call, TestRun.after]

theorem serveAll_append (requests more : List Request) :
    r.serveAll (requests ++ more) = (r.serveAll requests).serveAll more := by
  induction requests generalizing r with
  | nil => rfl
  | cons q rest ih => exact ih

end Qualification.RunRegistry

namespace Qualification.RunRegistry

open TestRun (requireProtocol_ok)

variable {r next : RunRegistry} {p : ProtocolDefinition} {run : TestRun} {id : String}
  {slot : RegisteredRun}

theorem mem_runIds_iff : id ∈ r.runIds ↔ ∃ slot, r.get id = .ok slot := by
  simp only [runIds, Dictionary.mem_keys_iff, get_ok]

theorem get_of_not_mem (free : id ∉ r.runIds) : r.get id = .error (.unknownRun id) := by
  unfold get
  split
  · rename_i slot held
    exact absurd (mem_runIds_iff.mpr ⟨slot, get_ok.mpr held⟩) free
  · rfl

theorem mem_runIds_apply {runId : String} {env : Surroundings} {operation : Operation} :
    id ∈ (r.apply env runId operation).2.runIds ↔ id ∈ r.runIds := by
  unfold apply
  split
  · rfl
  · rename_i slot held
    have there : runId ∈ r.runIds := mem_runIds_iff.mpr ⟨slot, held⟩
    refine Dictionary.mem_keys_insert.trans ⟨?_, .inr⟩
    rintro (rfl | member)
    · exact there
    · exact member

theorem insert_mismatch (other : ¬ run.BoundTo p) :
    r.insert p run = .error (.protocolMismatch run.id run.key p.key) := by
  have refused : run.requireProtocol p = .error (.protocolMismatch run.id run.key p.key) :=
    if_neg other
  rw [insert, refused]
  rfl

theorem insert_duplicate (bound : run.BoundTo p) (taken : run.id ∈ r.runIds) :
    r.insert p run = .error (.duplicateRun run.id) := by
  obtain ⟨slot, held⟩ := Dictionary.mem_keys_iff.mp taken
  simp [insert, requireProtocol_ok.mpr bound, held, bind, Except.bind]

theorem insert_free (bound : run.BoundTo p) (free : run.id ∉ r.runIds) :
    ∃ next, r.insert p run = .ok next := by
  refine ⟨_, insert_ok.mpr ⟨requireProtocol_ok.mpr bound, ?_, rfl⟩⟩
  have absent := get_of_not_mem free
  unfold get at absent
  split at absent
  · cases absent
  · assumption

/-- What a request does that is no operation: it registers the run that it asks for, if
    that can be. -/
theorem serve_new {q : Request} (asked : q.newRun? = some slot) :
    r.serve q = (r.insert slot.protocol slot.run).toOption.getD r := by
  cases q with
  | operate => cases asked
  | insert other new =>
      cases asked
      rfl
  | create newId now other specimen operator overrides =>
      cases created : TestRun.create newId now other specimen operator overrides with
      | error e => simp [Request.newRun?, created, Except.toOption] at asked
      | ok new =>
          simp only [Request.newRun?, created, Except.toOption, Option.map_some,
            Option.some.injEq] at asked
          subst asked
          simp [serve, create, created, bind, Except.bind]

theorem serve_idle (r : RunRegistry) {q : Request} (asked : q.newRun? = none) :
    r.serve q = r ∨ ∃ env runId operation, q = .operate env runId operation := by
  cases q with
  | operate env runId operation => exact .inr ⟨env, runId, operation, rfl⟩
  | insert => cases asked
  | create newId now other specimen operator overrides =>
      refine .inl ?_
      cases created : TestRun.create newId now other specimen operator overrides with
      | ok new => simp [Request.newRun?, created, Except.toOption] at asked
      | error e => simp [serve, create, created, bind, Except.bind, Except.toOption]

/-- A request registers a run under an identity that is not taken. -/
theorem get_serve_new (q : Request) (free : id ∉ r.runIds) :
    (r.serve q).get id = .ok slot ↔
      q.newRun? = some slot ∧ slot.run.BoundTo slot.protocol ∧ slot.run.id = id := by
  have unheld (slot : RegisteredRun) : r.get id ≠ .ok slot :=
    fun held => free (mem_runIds_iff.mpr ⟨slot, held⟩)
  cases asked : q.newRun? with
  | none =>
      refine ⟨fun held => ?_, nofun⟩
      rcases serve_idle r asked with same | ⟨env, runId, operation, rfl⟩
      · rw [same] at held
        exact absurd held (unheld slot)
      · exact absurd (mem_runIds_apply.mp (mem_runIds_iff.mpr ⟨slot, held⟩)) free
  | some new =>
      rw [serve_new asked, Option.some.injEq]
      cases inserted : r.insert new.protocol new.run with
      | error e =>
          refine ⟨fun held => absurd held (unheld slot), ?_⟩
          rintro ⟨rfl, bound, rfl⟩
          obtain ⟨next, accepted⟩ := insert_free bound free
          rw [inserted] at accepted
          cases accepted
      | ok next =>
          obtain ⟨bound, _, rfl⟩ := insert_ok.mp inserted
          rw [requireProtocol_ok] at bound
          simp only [Except.toOption, Option.getD_some, get_ok]
          by_cases same : new.run.id = id
          · subst same
            rw [Dictionary.get?_insert_self, Option.some.injEq]
            refine ⟨?_, fun h => h.1⟩
            rintro rfl
            exact ⟨rfl, bound, rfl⟩
          · rw [Dictionary.get?_insert_of_ne (Ne.symm same), ← get_ok]
            refine ⟨fun held => absurd held (unheld slot), ?_⟩
            rintro ⟨rfl, _, rfl⟩
            exact absurd rfl same

/-- Of a run that was not there, requests leave what the operations after its registration
    make of it. -/
theorem get_serveAll_new {requests : List Request} (free : id ∉ r.runIds) :
    (r.serveAll requests).get id = .ok ⟨p, run⟩ ↔
      ∃ earlier q later initial, requests = earlier ++ q :: later ∧
        id ∉ (r.serveAll earlier).runIds ∧ q.newRun? = some ⟨p, initial⟩ ∧
          initial.BoundTo p ∧ initial.id = id ∧ run = initial.after (callsOn p id later) := by
  constructor
  · intro held
    induction requests generalizing r with
    | nil => exact absurd (mem_runIds_iff.mpr ⟨_, held⟩) free
    | cons q rest ih =>
        by_cases there : id ∈ (r.serve q).runIds
        · obtain ⟨⟨other, initial⟩, registered⟩ := mem_runIds_iff.mp there
          have left := get_serveAll rest registered
          rw [serveAll] at held
          rw [held] at left
          cases left
          obtain ⟨asked, bound, same⟩ := (get_serve_new q free).mp registered
          exact ⟨[], q, rest, initial, rfl, free, asked, bound, same, rfl⟩
        · obtain ⟨earlier, new, later, initial, rfl, others⟩ := ih there held
          exact ⟨q :: earlier, new, later, initial, rfl, others⟩
  · rintro ⟨earlier, q, later, initial, rfl, free, asked, bound, same, rfl⟩
    rw [serveAll_append]
    exact get_serveAll later ((get_serve_new q free).mpr ⟨asked, bound, same⟩)

theorem serve_sorted (q : Request) (h : r.runs.Sorted) : (r.serve q).runs.Sorted := by
  cases asked : q.newRun? with
  | none =>
      rcases serve_idle r asked with same | ⟨env, runId, operation, rfl⟩
      · rwa [same]
      · rw [serve, apply]
        split
        · exact h
        · exact Dictionary.insert_sorted h
  | some new =>
      rw [serve_new asked]
      cases inserted : r.insert new.protocol new.run with
      | error e => exact h
      | ok next =>
          obtain ⟨_, _, rfl⟩ := insert_ok.mp inserted
          exact Dictionary.insert_sorted h

theorem serveAll_sorted (requests : List Request) (h : r.runs.Sorted) :
    (r.serveAll requests).runs.Sorted := by
  induction requests generalizing r with
  | nil => exact h
  | cons q rest ih => exact ih (serve_sorted q h)

/-- What requests leave of a registry: runs that were each served as if alone, and the
    answers to whatever is requested next. -/
structure Independent (requests : List Request) (r : RunRegistry) : Prop where
  /-- A run is registered once, and then only changed by the operations that name it. -/
  alone : ∀ id p run, r.get id = .ok ⟨p, run⟩ ↔
    ∃ earlier q later initial, requests = earlier ++ q :: later ∧
      id ∉ (empty.serveAll earlier).runIds ∧ q.newRun? = some ⟨p, initial⟩ ∧
        initial.BoundTo p ∧ initial.id = id ∧ run = initial.after (callsOn p id later)
  answered : ∀ id p run env operation, r.get id = .ok ⟨p, run⟩ →
    (r.apply env id operation).1 = (run.call ⟨env, p, operation⟩).1
  unknown : ∀ id env operation, id ∉ r.runIds →
    r.apply env id operation = (.error (.unknownRun id), r)
  mismatched : ∀ p run, ¬ run.BoundTo p →
    r.insert p run = .error (.protocolMismatch run.id run.key p.key) ∧
      r.serve (.insert p run) = r
  duplicate : ∀ p run, run.BoundTo p → run.id ∈ r.runIds →
    r.insert p run = .error (.duplicateRun run.id) ∧ r.serve (.insert p run) = r
  inserted : ∀ p run, run.BoundTo p → run.id ∉ r.runIds → ∃ next, r.insert p run = .ok next
  listed : ∀ id, id ∈ r.runIds ↔ ∃ slot, r.get id = .ok slot
  ascending : r.runIds.Pairwise (· < ·)

theorem refused_unserved {e : EngineError} (refused : r.insert p run = .error e) :
    r.serve (.insert p run) = r := by
  rw [serve, refused]
  rfl

/-- The runs of a registry are independent of each other, whatever is requested of it. -/
theorem serveAll_independent (requests : List Request) :
    Independent requests (empty.serveAll requests) where
  alone _ _ _ := get_serveAll_new List.not_mem_nil
  answered id p run env operation held := by simp only [apply, held, TestRun.call]
  unknown id env operation free := by simp only [apply, get_of_not_mem free]
  mismatched _ _ other := ⟨insert_mismatch other, refused_unserved (insert_mismatch other)⟩
  duplicate _ _ bound taken :=
    ⟨insert_duplicate bound taken, refused_unserved (insert_duplicate bound taken)⟩
  inserted _ _ bound free := insert_free bound free
  listed _ := mem_runIds_iff
  ascending := serveAll_sorted requests List.Pairwise.nil

end Qualification.RunRegistry
