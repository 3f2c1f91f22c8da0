import Qualification.Proofs.Acceptance.Verdict
import Qualification.Proofs.Dictionary
import Qualification.Proofs.Run.Entries

/-! # The result of a run

A run has no result before it is completed. Then its result is what its verdicts come to,
and whenever it is judged, the verdicts are those of its ledger and its parameters as they
are at that moment.

A verdict tells the value that it was given on: that of an entry of the ledger, which keeps
its value, or of a parameter of the run, which no operation changes. So whatever holds of the
entries and the parameters of a run holds of its verdicts. The readings of entries are finite,
so those of verdicts are if those among the parameters are.
-/

namespace Qualification.TestRun

variable {run next : TestRun} {env : Surroundings} {p q : ProtocolDefinition}

/-- A run whose result is that of its verdicts, and which has none before it is completed. -/
structure Settled (run : TestRun) : Prop where
  unfinished : run.status ≠ .completed → run.result = .notEvaluated
  completed : run.status = .completed → run.result = Acceptance.aggregate run.acceptance

/-- The result of a run is what the criteria of a protocol come to. -/
def ResultBy (run : TestRun) (p : ProtocolDefinition) : Prop :=
  Acceptance.Verdict p.acceptanceCriteria run.ledger run.parameters run.result

theorem recorded_result (env : Surroundings) (p : ProtocolDefinition) (m : Measurement)
    (run : TestRun) : (recorded env p m run).2.result = run.result := by
  unfold recorded
  split <;> rfl

theorem recorded_status (env : Surroundings) (p : ProtocolDefinition) (m : Measurement)
    (run : TestRun) :
    (recorded env p m run).2.status = run.status ∨ (recorded env p m run).2.status = .aborted := by
  unfold recorded
  split
  · exact .inl rfl
  · exact .inl rfl
  · exact .inr rfl

theorem settled_of_unfinished (status : run.status ≠ .completed)
    (none : run.result = .notEvaluated) : run.Settled :=
  ⟨fun _ => none, fun completed => absurd completed status⟩

theorem Effect.settled (h : Effect p run next) (settled : run.Settled) : next.Settled := by
  cases h with
  | moved moved =>
      rw [moved.same]
      exact ⟨settled.unfinished, settled.completed⟩
  | started now pending =>
      exact settled_of_unfinished nofun (settled.unfinished (by simp [pending]))
  | ended now status reason inProgress ending =>
      refine settled_of_unfinished ?_ (settled.unfinished (by simp [inProgress]))
      rcases ending with rfl | rfl <;> nofun
  | completed now inProgress => exact ⟨fun other => absurd rfl other, fun _ => rfl⟩
  | graded completed => exact ⟨fun other => absurd completed other, fun _ => rfl⟩
  | judged other => exact settled_of_unfinished other (settled.unfinished other)
  | recorded env m step inProgress =>
      have none := settled.unfinished (by simp [inProgress])
      refine settled_of_unfinished ?_ ((recorded_result env p _ run).trans none)
      rcases recorded_status env p (entryOf env run step m) run with same | aborted
      · simp [same, inProgress]
      · simp [aborted]

theorem Reachable.settled (h : Reachable p run) : run.Settled := by
  induction h with
  | created created =>
      obtain ⟨_, _, rfl⟩ := map_ok created
      exact settled_of_unfinished nofun rfl
  | called c _ ih =>
      exact call_keeps_of_effects Effect.settled
        (fun _ _ _ _ settled => ⟨settled.unfinished, settled.completed⟩) ih

theorem graded_resultBy (run : TestRun) (p : ProtocolDefinition) : (run.graded p).ResultBy p :=
  Acceptance.aggregate_verdict p.acceptanceCriteria run.ledger run.parameters

theorem complete_call (accepted : accepted (run.call ⟨env, q, .complete⟩)) :
    (run.call ⟨env, q, .complete⟩).2.status = .completed ∧
      (run.call ⟨env, q, .complete⟩).2.ResultBy q := by
  obtain ⟨next, completed⟩ := answeringWith_accepted.mp accepted
  rw [call, apply, completed]
  obtain ⟨_, _, _, rfl⟩ := complete_ok.mp completed
  exact ⟨rfl, graded_resultBy run q⟩

theorem evaluate_call (completed : run.status = .completed)
    (accepted : accepted (run.call ⟨env, q, .evaluate⟩)) :
    (run.call ⟨env, q, .evaluate⟩).2.status = .completed ∧
      (run.call ⟨env, q, .evaluate⟩).2.ResultBy q := by
  obtain ⟨next, judged⟩ := answeringWith_accepted.mp accepted
  rw [call, apply, judged]
  obtain ⟨_, rfl⟩ := evaluate_ok.mp judged
  rw [if_pos completed]
  exact ⟨completed, graded_resultBy run q⟩

/-- A run has a result once it is completed: that of its verdicts, which are those of its
    ledger whenever it is judged. -/
theorem result_of_verdicts (reachable : Reachable p run) :
    (run.status ≠ .completed → run.result = .notEvaluated) ∧
      (run.status = .completed → run.result = Acceptance.aggregate run.acceptance) ∧
      ∀ c : Call, accepted (run.call c) →
        c.operation = .complete ∨ c.operation = .evaluate ∧ run.status = .completed →
          (run.call c).2.status = .completed ∧ (run.call c).2.ResultBy c.protocol := by
  refine ⟨reachable.settled.unfinished, reachable.settled.completed, ?_⟩
  rintro ⟨env, q, op⟩ accepted (complete | ⟨evaluate, completed⟩)
  · cases complete
    exact complete_call accepted
  · cases evaluate
    exact evaluate_call completed accepted

/-- An illustration: all steps are over, and the power was measured. -/
def powered : TestRun :=
  ofTwoPhases.after [numbered .start, numbered (.startStep "inspect"),
    numbered (.record (.reading "power" 210)), numbered (.finishStep "inspect" .passed none),
    numbered (.startStep "mount"), numbered (.finishStep "mount" .completed none),
    numbered (.startStep "irradiate"), numbered (.finishStep "irradiate" .completed none)]

theorem powered_result :
    Reachable .monitored powered ∧ accepted (powered.call (numbered .complete)) ∧
      (powered.call (numbered .complete)).2.ResultBy .monitored ∧
      (powered.call (numbered .complete)).2.result = .pass := by
  have reachable : Reachable .monitored powered := monitored_reachable _
  have done : accepted (powered.call (numbered .complete)) := by
    rw [powered, ofTwoPhases, ofTwoPhases_steps]
    decide +kernel
  have pass : (powered.call (numbered .complete)).2.result = .pass := by
    rw [powered, ofTwoPhases, ofTwoPhases_steps]
    decide +kernel
  obtain ⟨_, _, judging⟩ := result_of_verdicts reachable
  exact ⟨reachable, done, (judging _ done (.inl rfl)).2, pass⟩

end Qualification.TestRun

namespace Qualification

/-- A value that is no reading, or a finite one. -/
def MeasuredValue.IsFinite (v : MeasuredValue) : Prop :=
  ∀ x, v = .numeric x → x.isFinite

namespace TestRun

variable {run next : TestRun} {p : ProtocolDefinition}

def FiniteParameters (run : TestRun) : Prop :=
  ∀ e ∈ run.parameters, (MeasuredValue.ofJson e.2).IsFinite

def FiniteVerdicts (run : TestRun) : Prop :=
  ∀ e ∈ run.acceptance, ∀ v, e.value = some v → v.IsFinite

theorem evaluateOne_value (ledger : Ledger) (parameters : Dictionary Json)
    (c : AcceptanceCriterion) : (Acceptance.evaluateOne ledger parameters c).value =
      Acceptance.valueOf? ledger parameters c.threshold.parameter := by
  unfold Acceptance.evaluateOne
  dsimp only
  split
  · rename_i h
    exact h.symm
  · rename_i h
    exact h.symm

/-- The values of the entries and of the parameters. -/
def values (run : TestRun) : List MeasuredValue :=
  run.ledger.entries.map (·.value) ++ run.parameters.map fun e => .ofJson e.2

/-- A run that has the values that its verdicts were given on. -/
def Sourced (run : TestRun) : Prop :=
  ∀ e ∈ run.acceptance, ∀ v, e.value = some v → v ∈ run.values

theorem mem_values {v : MeasuredValue} : v ∈ run.values ↔
    (∃ m ∈ run.ledger.entries, m.value = v) ∨ ∃ e ∈ run.parameters, .ofJson e.2 = v := by
  rw [values, List.mem_append, List.mem_map, List.mem_map]

theorem judged_sourced (p : ProtocolDefinition) (run : TestRun) : (run.judged p).Sourced := by
  intro e member v isValue
  obtain ⟨c, _, rfl⟩ := List.mem_map.mp member
  rw [evaluateOne_value, Acceptance.valueOf?_eq_some] at isValue
  apply mem_values.mpr
  cases isValue with
  | @measured m latest =>
      obtain ⟨earlier, later, split, -⟩ := latest.last
      have isEntry : m ∈ run.ledger.entries := by simp [split]
      exact .inl ⟨m, isEntry, rfl⟩
  | preset _ found => exact .inr ⟨_, Dictionary.mem_of_get? found, rfl⟩

theorem recorded_parameters (env : Surroundings) (p : ProtocolDefinition) (m : Measurement)
    (run : TestRun) : (recorded env p m run).2.parameters = run.parameters := by
  unfold recorded
  split <;> rfl

theorem recorded_acceptance (env : Surroundings) (p : ProtocolDefinition) (m : Measurement)
    (run : TestRun) : (recorded env p m run).2.acceptance = run.acceptance := by
  unfold recorded
  split <;> rfl

theorem Effect.sourced (h : Effect p run next) (sourced : run.Sourced) : next.Sourced := by
  cases h with
  | moved moved =>
      rw [moved.same]
      exact sourced
  | started => exact sourced
  | ended => exact sourced
  | completed | graded | judged => exact judged_sourced p run
  | recorded env m step =>
      intro e member v isValue
      rw [recorded_acceptance] at member
      rw [values, recorded_entries, recorded_parameters, List.map_append]
      rcases List.mem_append.mp (sourced e member v isValue) with entry | preset
      · exact List.mem_append_left _ (List.mem_append_left _ entry)
      · exact List.mem_append_right _ preset

theorem flagged_reviewed (run : TestRun) (id : String) (flag : QualityFlag)
    (notes : Option String) :
    run.Reviewed { run with ledger := run.ledger.setFlag id flag notes } :=
  ⟨rfl, setFlag_reviewed run.ledger id flag notes, fun _ => rfl⟩

theorem Reviewed.values (h : run.Reviewed next) : next.values = run.values := by
  have same := map_eq_of_forall₂ (R := Measurement.Reviewed) (fun _ _ => (·.value_eq)) h.entries
  rw [TestRun.values, TestRun.values, same, h.same]

theorem Reachable.sourced (h : Reachable p run) : run.Sourced := by
  induction h with
  | created created =>
      obtain ⟨_, _, rfl⟩ := map_ok created
      exact nofun
  | called c _ ih =>
      refine call_keeps_of_effects Effect.sourced (fun id flag notes _ sourced => ?_) ih
      rw [Sourced, (flagged_reviewed _ id flag notes).values]
      exact sourced

/-- A run whose entries are sound, and whose verdicts are founded on finite readings if its
    parameters are finite. -/
structure Founded (run : TestRun) : Prop where
  attributed : run.Attributed
  verdicts : run.FiniteParameters → run.FiniteVerdicts

theorem Reachable.founded (h : Reachable p run) : run.Founded := by
  refine ⟨h.attributed, fun finite e member v isValue => ?_⟩
  have source := mem_values.mp (h.sourced e member v isValue)
  rcases source with ⟨m, isEntry, rfl⟩ | ⟨preset, isPreset, rfl⟩
  · exact (h.attributed m isEntry).1.finite
  · exact finite preset isPreset

end TestRun

end Qualification
