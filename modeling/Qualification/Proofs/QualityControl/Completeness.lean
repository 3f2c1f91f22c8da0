import Qualification.Proofs.Numeric.Largest
import Qualification.Proofs.Numeric.Quotient
import Qualification.Proofs.QualityControl.Assessment

/-! # Completeness

The readings that count towards an expected measurement count up to the number that is expected,
so a measurement taken too often does not make up for one that is missing. What is recorded adds
to the tally, each entry at most once for each measurement it counts towards; a bad flag takes
from it, and cannot make up for what is missing either.
-/

namespace Qualification

variable {l k : Ledger} {s : MeasurementSpec} {specs : List MeasurementSpec}

namespace Ledger

/-- How many entries count towards an expected measurement. -/
def recordedFor (l : Ledger) (s : MeasurementSpec) : Nat :=
  l.entries.countP fun m => m.Counts s.parameter s.type

/-- How many of the expected measurements are there. -/
def tally (l : Ledger) (specs : List MeasurementSpec) : Nat :=
  (specs.map fun s => min s.expectedCount (l.recordedFor s)).sum

end Ledger

/-- How many measurements are expected in all. -/
def MeasurementSpec.wanted (specs : List MeasurementSpec) : Nat :=
  (specs.map (·.expectedCount)).sum

open MeasurementSpec

namespace Ledger

theorem tally_mono (fewer : ∀ s ∈ specs, l.recordedFor s ≤ k.recordedFor s) :
    l.tally specs ≤ k.tally specs :=
  List.sum_le_sum fun s member => min_le_min_left _ (fewer s member)

theorem tally_le_wanted (l : Ledger) (specs : List MeasurementSpec) :
    l.tally specs ≤ wanted specs :=
  List.sum_le_sum fun _ _ => Nat.min_le_left _ _

/-- Nothing is missing only where no measurement is. -/
theorem tally_eq_wanted_iff : l.tally specs = wanted specs ↔
    ∀ s ∈ specs, s.expectedCount ≤ l.recordedFor s := by
  induction specs with
  | nil => exact iff_of_true rfl nofun
  | cons s rest ih =>
      have most := Nat.min_le_left s.expectedCount (l.recordedFor s)
      have others := l.tally_le_wanted rest
      rw [List.forall_mem_cons, ← ih]
      simp only [tally, wanted, List.map_cons, List.sum_cons] at *
      omega

end Ledger

theorem MeasurementSpec.wanted_lt (words : ∀ s ∈ specs, s.expectedCount < Word.count 32)
    (few : specs.length ≤ Word.count 32 + 1) : wanted specs < Word.count 64 := by
  have most : wanted specs ≤ specs.length * (Word.count 32 - 1) := by
    rw [wanted, ← List.length_map (·.expectedCount)]
    refine List.sum_le_card_nsmul _ _ fun n member => ?_
    obtain ⟨s, isSpec, rfl⟩ := List.mem_map.mp member
    have word := words s isSpec
    omega
  calc wanted specs
    _ ≤ specs.length * (Word.count 32 - 1) := most
    _ ≤ (Word.count 32 + 1) * (Word.count 32 - 1) := Nat.mul_le_mul_right _ few
    _ < Word.count 64 := by decide

namespace Ledger

/-- Entries that are appended count once at most for each expected measurement. -/
theorem tally_append {more : List Measurement} (grown : k.entries = l.entries ++ more)
    (specs : List MeasurementSpec) :
    l.tally specs ≤ k.tally specs ∧ k.tally specs ≤ l.tally specs + specs.length * more.length := by
  have counted (s : MeasurementSpec) : ∃ n, n ≤ more.length ∧
      k.recordedFor s = l.recordedFor s + n := by
    refine ⟨more.countP fun m => m.Counts s.parameter s.type, List.countP_le_length, ?_⟩
    rw [recordedFor, grown, List.countP_append]
    rfl
  refine ⟨tally_mono fun s _ => ?_, ?_⟩
  · obtain ⟨n, _, same⟩ := counted s
    omega
  · induction specs with
    | nil => exact Nat.zero_le _
    | cons s rest ih =>
        obtain ⟨n, most, same⟩ := counted s
        simp only [tally, List.map_cons, List.sum_cons, List.length_cons, Nat.succ_mul, same] at *
        omega

end Ledger

/-- Does the operation mark a measurement as bad? -/
def Operation.MarksBad (op : Operation) : Prop :=
  ∃ id notes, op = .flag id .bad notes

namespace TestRun

variable {run next : TestRun} {calls : List Call}

/-- A bad entry counts towards no measurement. -/
theorem tally_setFlag_bad {id : String} {m : Measurement} (found : run.ledger.get? id = some m)
    (notes : Option String) (specs : List MeasurementSpec) :
    (run.ledger.setFlag id .bad notes).tally specs ≤ run.ledger.tally specs := by
  refine Ledger.tally_mono fun s _ => ?_
  obtain ⟨earlier, later, split, _, _, changed⟩ := setFlag_entries found .bad notes
  have dropped : ¬ (Ledger.reflag .bad notes m).Counts s.parameter s.type :=
    fun counts => counts.trusted rfl
  simp only [Ledger.recordedFor, split, changed, List.countP_append, List.countP_cons, dropped,
    decide_false, Bool.false_eq_true, if_false, Nat.add_zero]
  omega

theorem call_tally_bad {c : Call} (marks : c.operation.MarksBad) (specs : List MeasurementSpec) :
    (run.call c).2.ledger.tally specs ≤ run.ledger.tally specs := by
  obtain ⟨env, p, op⟩ := c
  obtain ⟨id, notes, rfl⟩ := marks
  obtain ⟨_, same⟩ | ⟨m, found, same⟩ := review_cases run env p id .bad notes
  · rw [same]
  · rw [same]
    exact tally_setFlag_bad found notes specs

theorem after_tally_bad (marks : ∀ c ∈ calls, c.operation.MarksBad) (specs : List MeasurementSpec) :
    (run.after calls).ledger.tally specs ≤ run.ledger.tally specs :=
  @after_keeps run (fun next => next.ledger.tally specs ≤ run.ledger.tally specs) calls
    (fun c member _ less => Nat.le_trans (call_tally_bad (marks c member) specs) less)
    (Nat.le_refl _)

theorem after_bound {p : ProtocolDefinition} (bound : run.BoundTo p) :
    (run.after calls).BoundTo p :=
  @after_keeps run (fun next => next.BoundTo p) calls
    (fun c _ next bound => (call_changes next c).bound bound) bound

/-- Without reviews a ledger only grows. -/
theorem after_grows (run : TestRun) (noReview : ∀ c ∈ calls, ¬ c.operation.isReview) :
    run.ledger.entries <+: (run.after calls).ledger.entries :=
  @after_keeps run (fun next => run.ledger.entries <+: next.ledger.entries) calls
    (fun c member next grown => grown.trans (call_effects next c (noReview c member)).entries_grow)
    (List.prefix_refl _)

end TestRun

/-- A check that passes still passes if more of the expected readings are there. -/
theorem QcCheck.completeness_mono {fewer more expected : Nat} {minRate : Float}
    (less : fewer ≤ more) (most : more ≤ expected) (fits : expected < Word.count 64)
    (passed : (QcCheck.completeness fewer expected minRate).passed) :
    (QcCheck.completeness more expected minRate).passed := by
  simp only [completeness, decide_eq_true_eq] at *
  split at passed
  · rename_i none
    rwa [if_pos none]
  · rename_i some
    rw [if_neg some]
    exact Binary64.le_trans passed
      (Binary64.percentage_mono (Nat.pos_of_ne_zero some) fits less most)

namespace QcAssessment

variable {run : TestRun} {p : ProtocolDefinition} {fallback : QcSettings}

theorem completeness_eq (l : Ledger) (specs : List MeasurementSpec) (settings : QcSettings) :
    completeness l specs settings =
      QcCheck.completeness (l.tally specs) (wanted specs) settings.minCompletionRate := by
  have actual : actualCount l specs = l.tally specs := by
    simp only [actualCount, total_eq_sum, Ledger.matching_eq, Ledger.tally, Ledger.recordedFor,
      List.countP_eq_length_filter, Nat.min_comm]
  rw [completeness, actual, expectedCount, total_eq_sum, wanted]

theorem assess_completeness (bound : run.BoundTo p) :
    (assess run p fallback).map (ofCategory .completeness) =
      .ok [QcCheck.completeness (run.ledger.tally p.measurementSpecs) (wanted p.measurementSpecs)
        (p.qc.getD fallback).minCompletionRate] := by
  rw [assess_ok.mpr ⟨bound, rfl⟩, Except.map, ofCategory_findings, completeness_eq]

/-- What a completeness check reports of a run, and what can be done to the run to change it. -/
structure Completes (run : TestRun) (p : ProtocolDefinition) (fallback : QcSettings) : Prop where
  reported : ∃ f rate, (assess run p fallback).map (ofCategory .completeness) = .ok [f] ∧
    f.actual = .object [("count", .ofNat (run.ledger.tally p.measurementSpecs)), ("rate", rate)] ∧
    f.expected = .object [("count", .ofNat (wanted p.measurementSpecs)),
      ("min_rate", .ofFloat (p.qc.getD fallback).minCompletionRate)]
  most : run.ledger.tally p.measurementSpecs ≤ wanted p.measurementSpecs
  full : run.ledger.tally p.measurementSpecs = wanted p.measurementSpecs ↔
    ∀ s ∈ p.measurementSpecs, s.expectedCount ≤ run.ledger.recordedFor s
  /-- Counts that each fit in 32 bits fit in 64 bits together, unless there are more of them than
      32 bits can number. -/
  fits : (∀ s ∈ p.measurementSpecs, s.expectedCount < Word.count 32) →
    p.measurementSpecs.length ≤ Word.count 32 + 1 → wanted p.measurementSpecs < Word.count 64
  recorded : ∀ env q m kept next, run.record env q m = .ok (kept, next) →
    run.ledger.tally p.measurementSpecs ≤ next.ledger.tally p.measurementSpecs ∧
      next.ledger.tally p.measurementSpecs ≤
        run.ledger.tally p.measurementSpecs + p.measurementSpecs.length
  grown : ∀ calls : List Call, (∀ c ∈ calls, ¬ c.operation.isReview) →
    run.ledger.tally p.measurementSpecs ≤ (run.after calls).ledger.tally p.measurementSpecs
  marked : ∀ calls : List Call, (∀ c ∈ calls, c.operation.MarksBad) →
    (run.after calls).ledger.tally p.measurementSpecs ≤ run.ledger.tally p.measurementSpecs
  unmended : wanted p.measurementSpecs < Word.count 64 → ∀ calls : List Call,
    (∀ c ∈ calls, c.operation.MarksBad) → ∃ f f',
      (assess run p fallback).map (ofCategory .completeness) = .ok [f] ∧
      (assess (run.after calls) p fallback).map (ofCategory .completeness) = .ok [f'] ∧
      (f'.passed → f.passed)

theorem completes_of_bound (bound : run.BoundTo p) (fallback : QcSettings) :
    Completes run p fallback where
  reported := ⟨_, _, assess_completeness bound, rfl, rfl⟩
  most := run.ledger.tally_le_wanted _
  full := Ledger.tally_eq_wanted_iff
  fits := wanted_lt
  recorded env q m kept next accepted := by
    have entries := (TestRun.record_entries accepted).2
    have change := Ledger.tally_append entries p.measurementSpecs
    rwa [List.length_singleton, Nat.mul_one] at change
  grown calls noReview := by
    obtain ⟨more, grown⟩ := run.after_grows noReview
    exact (Ledger.tally_append grown.symm _).1
  marked calls marks := TestRun.after_tally_bad marks _
  unmended fits calls marks :=
    ⟨_, _, assess_completeness bound, assess_completeness (TestRun.after_bound bound),
      QcCheck.completeness_mono (TestRun.after_tally_bad marks _) (Ledger.tally_le_wanted _ _)
        fits⟩

theorem backdated_completes : TestRun.backdated.BoundTo .replicated ∧
    Completes TestRun.backdated .replicated .default :=
  have bound : TestRun.backdated.BoundTo .replicated := TestRun.backdated_bound
  ⟨bound, completes_of_bound bound .default⟩

end QcAssessment

end Qualification
