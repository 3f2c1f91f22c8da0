import Qualification.Proofs.Numeric.Largest
import Qualification.Proofs.Run.Execution
import Qualification.Proofs.Run.Resolution

/-! # Exposures

A step that is executed in a run which goes on ends as its handler says; if the run is aborted,
the step has failed. An exposure with a required duration therefore passes only if a time was
reported that is not below it. A time that is not a number is below nothing; every other one
that is not reported, or too short, fails the step.
-/

namespace Qualification

open Binary64 (isNaN_iff isNumber_of_isFinite isNumber_of_le le_of_lt lt_iff_not_le)

variable {run next : TestRun} {env : Surroundings} {p q : ProtocolDefinition} {set : HandlerSet}
  {phase : PhaseDef} {step : StepDef} {stepId : String} {inputs : StepInputs}
  {status : StepStatus} {required : Float} {result : HandlerOutcome}

namespace TestRun

end TestRun

/-- Was a time reported that is at least the required one? -/
def StepInputs.Reaches (inputs : StepInputs) (required : Float) : Prop :=
  ∃ elapsed, inputs.elapsedHours = some elapsed ∧ required ≤ elapsed

theorem ProtocolDefinition.Valid.ofStep (valid : q.Valid)
    (known : q.step? stepId = some (phase, step)) : step.Valid := by
  obtain ⟨ph, member, found⟩ := List.exists_of_findSome?_eq_some known
  obtain ⟨s, here, same⟩ := Option.map_eq_some_iff.mp found
  cases same
  exact (valid.phases _ member).steps _ (List.mem_of_find?_eq_some here)

theorem TestRun.ofSoaked_steps : pendingSteps ProtocolDefinition.soaked.phases = [
    ⟨"damp heat", "soak", 1, "bake", .pending, none, none, none, none⟩,
    ⟨"dry", "soak", 2, "wipe", .pending, none, none, none, none⟩] := by cbv

/-- An illustration: what is handed in for a damp heat that took some time. -/
def StepInputs.soakedFor (elapsed : Float) : StepInputs :=
  { StepInputs.none with elapsedHours := some elapsed }

open TestRun in
/-- An illustration: the execution of the damp heat with it. -/
def soakedFor (elapsed : Float) : Outcome StepStatus :=
  (ofSoaked.after [still .start]).executeStep (still .start).env .soaked .all "damp heat"
    (.soakedFor elapsed)

open TestRun in
/-- A time that is no number passes the damp heat of a day. -/
theorem noHours_pass :
    Validation.check .soaked = .ok () ∧ Reachable .soaked (ofSoaked.after [still .start]) ∧
      HandlerSet.all.resolve? .soaking = some .expose ∧
      (soakedFor Binary64.nan).1 = .ok .completed ∧
      ((soakedFor Binary64.nan).2.step? "damp heat").map (·.status) = some .completed ∧
        ¬ StepInputs.Reaches (.soakedFor Binary64.nan) 24 := by
  have reachable : Reachable .soaked (ofSoaked.after [still .start]) :=
    (Reachable.created ofSoaked_created).after _
  have passed : (soakedFor Binary64.nan).1 = .ok .completed ∧
      ((soakedFor Binary64.nan).2.step? "damp heat").map (·.status) = some .completed := by
    rw [soakedFor, ofSoaked, ofSoaked_steps]
    decide +kernel
  refine ⟨soaked_valid, reachable, rfl, passed.1, passed.2, ?_⟩
  rintro ⟨_, reported, long⟩
  cases reported
  exact absurd long (by decide +kernel)

end Qualification
