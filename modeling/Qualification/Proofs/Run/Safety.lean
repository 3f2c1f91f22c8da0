import Qualification.Proofs.Run.Entries
import Qualification.Proofs.Run.Registry

/-! # Safety limits

A reading beyond an aborting limit is the last one of its run: it aborts the run for a
reason that names the limit, and nothing is recorded after it. A reading beyond a warning
limit leaves the run alone. It is marked as suspect, with a note that names the limit, and
stays so until it is reviewed.
-/

namespace Qualification

variable {p : ProtocolDefinition} {m : Measurement} {action : SafetyAction} {message : String}

/-- A reading beyond a safety limit of a protocol. -/
structure Measurement.Exceeds (m : Measurement) (p : ProtocolDefinition) (limit : SafetyLimit)
    (x : Float) : Prop where
  limited : Dictionary.get? m.parameter p.safetyLimits = some limit
  reading : m.value = .numeric x
  beyond : limit.isExceededBy x

theorem Measurement.reading?_eq_some {x : Float} : m.reading? = some x ↔ m.value = .numeric x := by
  cases value : m.value <;> simp [Measurement.reading?, value]

namespace TestRun

variable {run next : TestRun} {env : Surroundings}

theorem exceeded?_eq_some : exceeded? p m = some (action, message) ↔
    ∃ limit x, m.Exceeds p limit x ∧ limit.action = action ∧
      limitMessage m.parameter x limit = message := by
  unfold exceeded?
  constructor
  · intro h
    split at h
    · rename_i limit x limited reading
      split at h
      · rename_i beyond
        cases h
        exact ⟨limit, x, ⟨limited, Measurement.reading?_eq_some.mp reading, beyond⟩, rfl, rfl⟩
      · cases h
    · cases h
  · rintro ⟨limit, x, exceeds, rfl, rfl⟩
    simp [exceeds.limited, Measurement.reading?_eq_some.mpr exceeds.reading, exceeds.beyond]

theorem exceeded?_reviewed {after : Measurement} (h : m.Reviewed after) :
    exceeded? p after = exceeded? p m := by
  rw [h]
  rfl

/-- What each entry of the ledger exceeds. -/
def alarms (p : ProtocolDefinition) (run : TestRun) : List (Option (SafetyAction × String)) :=
  run.ledger.entries.map (exceeded? p)

/-- An alarm that asks for it has aborted the run and was the last. -/
def Stopped (p : ProtocolDefinition) (run : TestRun) : Prop :=
  ∀ earlier message later, run.alarms p = earlier ++ some (.abort, message) :: later →
    later = [] ∧ run.status = .aborted ∧ run.reason = some message

/-- A run without an aborting alarm. -/
def Silent (p : ProtocolDefinition) (run : TestRun) : Prop :=
  ∀ message, some (.abort, message) ∉ run.alarms p

theorem Silent.stopped (h : run.Silent p) : run.Stopped p := by
  intro earlier message later split
  have member : some (.abort, message) ∈ run.alarms p := by simp [split]
  exact absurd member (h message)

theorem Stopped.silent (h : run.Stopped p) (status : run.status ≠ .aborted) : run.Silent p := by
  intro message member
  obtain ⟨earlier, later, split⟩ := List.append_of_mem member
  exact status (h earlier message later split).2.1

theorem recorded_alarms (env : Surroundings) (p : ProtocolDefinition) (m : Measurement)
    (run : TestRun) : (recorded env p m run).2.alarms p = run.alarms p ++ [exceeded? p m] := by
  rw [alarms, recorded_entries, List.map_append, List.map_singleton,
    exceeded?_reviewed (recorded_reviewed env p m run), alarms]

/-- A recording in a silent run stops it if it has to. -/
theorem Silent.recorded (h : run.Silent p) (env : Surroundings) (m : Measurement) :
    Stopped p (TestRun.recorded env p m run).2 := by
  intro earlier message later split
  rw [recorded_alarms] at split
  rcases later.eq_nil_or_concat with rfl | ⟨front, last, rfl⟩
  · have alarm : exceeded? p m = some (.abort, message) := by
      simpa using (List.append_inj' split rfl).2
    simp [TestRun.recorded, alarm, terminate]
  · -- An alarm with something after it was there before.
    rw [List.concat_eq_append, ← List.cons_append, ← List.append_assoc] at split
    have before : run.alarms p = earlier ++ some (.abort, message) :: front :=
      (List.append_inj' split rfl).1
    have member : some (.abort, message) ∈ run.alarms p := by simp [before]
    exact absurd member (h message)

theorem Effect.stopped (h : Effect p run next) (stopped : run.Stopped p) : next.Stopped p := by
  -- What changes the status needs a run that is not aborted, and such a run is silent.
  cases h with
  | moved moved =>
      rw [moved.same]
      exact stopped
  | started now pending => exact Silent.stopped (stopped.silent (by simp [pending]))
  | ended now status reason inProgress =>
      exact Silent.stopped (stopped.silent (by simp [inProgress]))
  | completed now inProgress => exact Silent.stopped (stopped.silent (by simp [inProgress]))
  | graded => exact stopped
  | judged => exact stopped
  | recorded env m step inProgress =>
      exact (stopped.silent (by simp [inProgress])).recorded env _

/-- From a place on, the entries of an identity that exceed a warning limit are marked. -/
def MarkedFrom (p : ProtocolDefinition) (place : Nat) (id : String) (run : TestRun) : Prop :=
  ∀ m ∈ run.ledger.entries.drop place, m.id = id →
    ∀ message, exceeded? p m = some (.warn, message) →
      m.flag = .suspect ∧ m.notes = some message

/-- A review touches no entry of another identity. -/
theorem setFlag_others (l : Ledger) (id : String) (flag : QualityFlag) (notes : Option String) :
    List.Forall₂ (fun before after => after = before ∨ after.id = id) l.entries
      (l.setFlag id flag notes).entries :=
  Keyed.forall₂_changeFirst (fun _ => .inl rfl)
    fun m found => .inr (show m.id = id by simpa using List.find?_some found)

theorem MarkedFrom.reviewed {place : Nat} {id other : String} (different : other ≠ id)
    (flag : QualityFlag) (notes : Option String) (marked : run.MarkedFrom p place id) :
    MarkedFrom p place id { run with ledger := run.ledger.setFlag other flag notes } := by
  intro m member same
  obtain ⟨before, old, rfl | reviewed⟩ :=
    exists_of_forall₂ (List.forall₂_drop place (setFlag_others run.ledger other flag notes)) member
  · exact marked m old same
  · exact absurd (reviewed.symm.trans same) different

end TestRun

namespace RunRegistry

variable {r held : RunRegistry} {id specimen operator : String} {now : Instant}
  {overrides : Dictionary Json}

def Request.numbered (operation : Operation) : Request :=
  .operate (TestRun.numbered operation).env "run-1" operation

end RunRegistry
end Qualification
