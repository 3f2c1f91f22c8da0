import Qualification.Proofs.Store.Row

/-! # Equality of values

Readings compare as numbers, so that a value is equal to itself only if no reading in it
fails to be one.
-/

namespace Qualification

/-- Lists whose entries are equal one by one are equal. -/
theorem map_beq {α : Type} [BEq α] {f : α → α} {l : List α} (each : ∀ a ∈ l, f a == a) :
    l.map f == l := by
  induction l with
  | nil => rfl
  | cons a rest ih =>
      obtain ⟨first, others⟩ := List.forall_mem_cons.mp each
      rw [List.map_cons, List.cons_beq_cons, first, ih others]
      rfl

theorem list_beq_self {α : Type} [BEq α] {l : List α} (each : ∀ a ∈ l, a == a) : l == l := by
  have same := map_beq (f := id) each
  rwa [List.map_id] at same

namespace Json

theorem beq_self {v : Json} (writable : Writable v) : v == v := by
  change same v v
  induction writable with
  | null => rfl
  | bool b => simp [same]
  | integer _ => simp [same]
  | float finite => exact Binary64.beq_self finite
  | text s => simp [same]
  | @array items each ih =>
      rw [same]
      clear each
      induction items with
      | nil => rfl
      | cons first more rest =>
          obtain ⟨head, tail⟩ := List.forall_mem_cons.mp ih
          rw [sameItems, head, rest tail]
          rfl
  | @object members each ih =>
      rw [same]
      clear each
      induction members with
      | nil => rfl
      | cons first more rest =>
          obtain ⟨head, tail⟩ := List.forall_mem_cons.mp ih
          rw [sameMembers, head, rest tail, beq_self_eq_true]
          rfl

theorem dictionary_beq_self {depth : Nat} {d : Dictionary Json}
    (storable : Storable depth (.object d)) : d == d := by
  cases storable with
  | object sorted each =>
      refine list_beq_self fun e member => ?_
      have value := beq_self (each e member).writable
      change (e.1 == e.1 && e.2 == e.2) = true
      rw [value, beq_self_eq_true]
      rfl

end Json

namespace MeasuredValue

variable {v : MeasuredValue} {depth : Nat}

theorem beq_self (storable : v.Storable depth) : v == v := by
  cases v with
  | numeric x => exact Binary64.beq_self storable
  | text s => exact beq_self_eq_true s
  | boolean b => exact beq_self_eq_true b
  | json v => exact Json.beq_self (Json.Storable.writable storable)

/-- A reading is equal to what its column gives back, whatever the sign of a zero. -/
theorem unsignedZero_beq (storable : v.Storable depth) : v.unsignedZero == v := by
  cases v with
  | numeric x =>
      change (if x == 0.0 then 0.0 else x) == x
      split
      · rename_i isZero
        exact BEq.symm isZero
      · exact Binary64.beq_self storable
  | _ => exact beq_self storable

end MeasuredValue

namespace TestRun

/-- A run of which the rows give back every part. -/
structure Storable (run : TestRun) : Prop where
  createdAt : run.createdAt.Plain
  startedAt : PlainOrNull run.startedAt
  completedAt : PlainOrNull run.completedAt
  parameters : Json.Storable Json.levels (.object run.parameters)
  phases : ∀ p ∈ run.phases, p.Timed
  steps : ∀ s ∈ run.steps, s.Timed
  entries : ∀ m ∈ run.ledger.entries, m.Storable
  verdicts : ∀ e ∈ run.acceptance, e.Storable (Json.levels - 3)

/-- A run as its rows give it back: a reading of zero has no sign in the ledger. -/
def unsignedZeros (run : TestRun) : TestRun :=
  { run with ledger :=
      ⟨run.ledger.entries.map fun m => { m with value := m.value.unsignedZero }⟩ }

theorem unsignedZeros_eq_self {run : TestRun}
    (each : ∀ m ∈ run.ledger.entries, m.value.unsignedZero = m.value) :
    run.unsignedZeros = run := by
  have entries : run.ledger.entries.map (fun m => { m with value := m.value.unsignedZero }) =
      run.ledger.entries := by
    refine (List.map_congr_left fun m member => ?_).trans (List.map_id _)
    rw [each m member]
    rfl
  rw [unsignedZeros, entries]

theorem entry_beq {m : Measurement} (storable : m.Storable) :
    { m with value := m.value.unsignedZero } == m := by
  have value := MeasuredValue.unsignedZero_beq storable.value
  have metadata := Json.dictionary_beq_self storable.metadata
  change Qualification.instBEqMeasurement.beq _ _ = true
  simp only [instBEqMeasurement.beq, value, metadata, beq_self_eq_true, Bool.and_true]

theorem verdict_beq_self {e : Evaluation} {depth : Nat} (storable : e.Storable depth) :
    e == e := by
  have value : e.value == e.value := by
    cases h : e.value with
    | none => rfl
    | some v => exact MeasuredValue.beq_self (storable v h)
  change Qualification.instBEqEvaluation.beq _ _ = true
  simp only [instBEqEvaluation.beq, value, beq_self_eq_true, Bool.and_true]

theorem unsignedZeros_beq {run : TestRun} (storable : run.Storable) :
    run.unsignedZeros == run := by
  have parameters := Json.dictionary_beq_self storable.parameters
  have ledger : run.unsignedZeros.ledger == run.ledger :=
    map_beq fun m member => entry_beq (storable.entries m member)
  have verdicts : run.acceptance == run.acceptance :=
    list_beq_self fun e member => verdict_beq_self (storable.verdicts e member)
  change Qualification.instBEqTestRun.beq _ _ = true
  simp only [instBEqTestRun.beq, unsignedZeros] at ledger ⊢
  simp only [parameters, ledger, verdicts, beq_self_eq_true, Bool.and_true]

end TestRun

end Qualification
