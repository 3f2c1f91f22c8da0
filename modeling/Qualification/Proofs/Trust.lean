import Mathlib.Data.List.Nodup
import Mathlib.Data.List.Perm.Basic
import Qualification.Degradation.Point
import Qualification.Proofs.Acceptance.Verdict

/-! # Trusted entries

A bad entry stays in the ledger and is not trusted. What counts of a parameter is what counts
of it in the ledger without the bad entries. Which parameters there are, and in which order,
is not: a bad entry may be the first of its parameter, or the only one.
-/

namespace Qualification
namespace Ledger

variable {l : Ledger} {parameter s : String} {seen texts : List String}

/-- The ledger without its bad entries. -/
def trusted (l : Ledger) : Ledger :=
  ⟨l.entries.filter Measurement.isUsable⟩

theorem mem_trusted {m : Measurement} :
    m ∈ l.trusted.entries ↔ m ∈ l.entries ∧ m.flag ≠ .bad := by
  rw [trusted, List.mem_filter, Measurement.isUsable_iff]

@[simp]
theorem trusted_trusted (l : Ledger) : l.trusted.trusted = l.trusted := by
  simp [trusted]

@[simp]
theorem usable_trusted (l : Ledger) (parameter : String) :
    l.trusted.usable parameter = l.usable parameter := by
  simp [usable, trusted, List.filter_filter]

@[simp]
theorem latest?_trusted (l : Ledger) (parameter : String) :
    l.trusted.latest? parameter = l.latest? parameter := by
  simp [latest?]

@[simp]
theorem readings_trusted (l : Ledger) (parameter : String) :
    l.trusted.readings parameter = l.readings parameter := by
  simp [readings]

theorem mem_distinct : s ∈ distinct seen texts ↔ s ∈ texts ∧ s ∉ seen := by
  induction texts generalizing seen with
  | nil => simp [distinct]
  | cons t rest ih =>
      rw [distinct]
      split
      · rename_i old
        have old : t ∈ seen := by simpa using old
        rw [ih, List.mem_cons]
        constructor
        · rintro ⟨member, fresh⟩
          exact ⟨.inr member, fresh⟩
        · rintro ⟨rfl | member, fresh⟩
          · exact absurd old fresh
          · exact ⟨member, fresh⟩
      · rename_i fresh
        have fresh : t ∉ seen := by simpa using fresh
        rw [List.mem_cons, List.mem_cons, ih, List.mem_cons]
        by_cases same : s = t
        · simp [same, fresh]
        · simp [same]

theorem nodup_distinct (seen texts : List String) : (distinct seen texts).Nodup := by
  induction texts generalizing seen with
  | nil => exact List.nodup_nil
  | cons t rest ih =>
      rw [distinct]
      split
      · exact ih seen
      · exact List.nodup_cons.mpr ⟨by simp [mem_distinct], ih (t :: seen)⟩

theorem nodup_parameters (l : Ledger) : l.parameters.Nodup :=
  nodup_distinct [] _

theorem mem_parameters : s ∈ l.parameters ↔ ∃ m ∈ l.entries, m.parameter = s := by
  simp [parameters, mem_distinct]

theorem mem_trusted_parameters (counts : l.usable parameter ≠ []) :
    parameter ∈ l.trusted.parameters := by
  obtain ⟨m, member⟩ := List.exists_mem_of_ne_nil _ counts
  obtain ⟨recorded, same, usable⟩ :
      m ∈ l.entries ∧ m.parameter = parameter ∧ m.isUsable := by
    simpa [usable] using member
  exact mem_parameters.mpr ⟨m, mem_trusted.mpr ⟨recorded, Measurement.isUsable_iff.mp usable⟩,
    same⟩

/-- The parameters of some kind, if something counts of each, are the same without the bad
    entries, but for their order. -/
theorem parameters_trusted_perm {kind : String → Bool}
    (counts : ∀ parameter, kind parameter → l.usable parameter ≠ []) :
    (l.parameters.filter kind).Perm (l.trusted.parameters.filter kind) := by
  rw [List.perm_ext_iff_of_nodup (l.nodup_parameters.filter _)
    (l.trusted.nodup_parameters.filter _)]
  intro parameter
  rw [List.mem_filter, List.mem_filter]
  constructor
  · rintro ⟨_, ofKind⟩
    exact ⟨mem_trusted_parameters (counts parameter ofKind), ofKind⟩
  · rintro ⟨member, ofKind⟩
    obtain ⟨m, trusted, same⟩ := mem_parameters.mp member
    exact ⟨mem_parameters.mpr ⟨m, (mem_trusted.mp trusted).1, same⟩, ofKind⟩

end Ledger

@[simp]
theorem Acceptance.evaluate_trusted (criteria : List AcceptanceCriterion) (l : Ledger)
    (parameters : Dictionary Json) :
    evaluate criteria l.trusted parameters = evaluate criteria l parameters := by
  have one : evaluateOne l.trusted parameters = evaluateOne l parameters := by
    funext c
    simp [evaluateOne, valueOf?]
  rw [evaluate, evaluate, one]

theorem DegradationPoint.readingsOf_eq (l : Ledger) (parameter : String) :
    readingsOf parameter l.entries =
      (l.usable parameter).filterMap fun m => m.reading?.map fun x => (m, x) :=
  rfl

@[simp]
theorem DegradationPoint.series_trusted (l : Ledger) (parameter : String) :
    series l.trusted.entries parameter = series l.entries parameter := by
  simp [series, readingsOf_eq]

end Qualification
