import Qualification.Proofs.Dictionary
import Qualification.Proofs.Protocol.Document
import Qualification.Proofs.Run.Order

/-! # What a new run is made of

The overrides of a run are settled one declaration at a time, and each is used up by the
declaration that it serves. Where the names are declared once, what is left of the overrides
serves the other declarations as all of them would: a parameter depends on its own
declaration and on the override of its name alone.
-/

namespace Qualification

namespace Dictionary

theorem get?_erase_of_ne {α : Type} {name other : String} (different : other ≠ name)
    (d : Dictionary α) : get? other (erase name d) = get? other d := by
  induction d with
  | nil => rfl
  | cons entry rest ih =>
      obtain ⟨key, value⟩ := entry
      by_cases same : key = name
      · simp [erase, get?, same, different.symm]
      · simp [erase, get?, same, ih]

theorem mem_of_mem_erase {α : Type} {name : String} {d : Dictionary α} {e : String × α}
    (h : e ∈ erase name d) : e ∈ d := by
  induction d with
  | nil => exact h
  | cons entry rest ih =>
      rw [erase] at h
      split at h
      · exact List.mem_cons_of_mem entry h
      · exact (List.mem_cons.mp h).elim (· ▸ List.mem_cons_self)
          fun member => List.mem_cons_of_mem entry (ih member)

end Dictionary

theorem ProtocolDefinition.parameter?_eq_none {p : ProtocolDefinition} {name : String} :
    p.parameter? name = none ↔ name ∉ p.parameters.map (·.name) := by
  simp [parameter?]

namespace TestRun

variable {overrides settled next : Dictionary Json} {defs : List ParameterDef}
variable {p : ProtocolDefinition} {d : ParameterDef} {value : Json}

/-- Does every parameter that has a value have one that it admits? -/
def Admitted (overrides : Dictionary Json) (defs : List ParameterDef) : Prop :=
  ∀ d ∈ defs, ∀ value, parameterValue? overrides d = some value → d.check value = .ok ()

theorem admitted_cons : Admitted overrides (d :: defs) ↔
    (∀ value, parameterValue? overrides d = some value → d.check value = .ok ()) ∧
      Admitted overrides defs :=
  List.forall_mem_cons

theorem parameterValue?_erase {name : String} (different : d.name ≠ name) :
    parameterValue? (overrides.erase name) d = parameterValue? overrides d := by
  rw [parameterValue?, Dictionary.get?_erase_of_ne different, parameterValue?]

theorem admitted_erase {name : String} (fresh : ∀ d ∈ defs, d.name ≠ name) :
    Admitted (overrides.erase name) defs ↔ Admitted overrides defs := by
  constructor
  · intro h d member value given
    exact h d member value ((parameterValue?_erase (fresh d member)).trans given)
  · intro h d member value given
    exact h d member value ((parameterValue?_erase (fresh d member)).symm.trans given)

/-- Names that are declared once are settled unless one of the values is refused. -/
theorem settles_iff (once : (defs.map (·.name)).Nodup) :
    (∃ next, settleParameters overrides settled defs = .ok next) ↔ Admitted overrides defs := by
  induction defs generalizing overrides settled with
  | nil => simp [settleParameters, Admitted]
  | cons d rest ih =>
      obtain ⟨apart, once⟩ := List.nodup_cons.mp once
      have fresh : ∀ e ∈ rest, e.name ≠ d.name := by
        intro e member same
        exact apart (List.mem_map.mpr ⟨e, member, same⟩)
      rw [admitted_cons, ← admitted_erase fresh]
      cases given : parameterValue? overrides d with
      | none => simp [settleParameters, given, ih once]
      | some value =>
          cases checked : d.check value with
          | error reason => simp [settleParameters, given, checked]
          | ok _ => simp [settleParameters, given, checked, ih once]

/-- What holds of settled parameters as one more of them is settled, with a value that was
    handed in or is a default, holds of all of them in the end. -/
theorem settled_keeps {P : Dictionary Json → Prop} (start : P settled)
    (put : ∀ d ∈ defs, ∀ value before,
      (∃ e ∈ overrides, e.2 = value) ∨ d.default = some value → d.check value = .ok () →
        P before → P (Dictionary.insert d.name value before))
    (h : settleParameters overrides settled defs = .ok next) : P next := by
  induction defs generalizing overrides settled with
  | nil =>
      cases h
      exact start
  | cons d rest ih =>
      obtain ⟨first, put⟩ := List.forall_mem_cons.mp put
      have later : ∀ d' ∈ rest, ∀ value before,
          (∃ e ∈ Dictionary.erase d.name overrides, e.2 = value) ∨ d'.default = some value →
            d'.check value = .ok () → P before → P (Dictionary.insert d'.name value before) :=
        fun d' member value before given => put d' member value before <|
          given.imp_left fun ⟨e, kept, same⟩ => ⟨e, Dictionary.mem_of_mem_erase kept, same⟩
      cases chosen : parameterValue? overrides d with
      | none =>
          simp only [settleParameters, chosen] at h
          exact ih start later h
      | some value =>
          cases checked : d.check value with
          | error reason => simp [settleParameters, chosen, checked] at h
          | ok _ =>
              simp only [settleParameters, chosen, checked] at h
              refine ih (first value settled ?_ checked start) later h
              rcases Option.or_eq_some_iff.mp chosen with override | ⟨_, byDefault⟩
              · exact .inl ⟨_, Dictionary.mem_of_get? override, rfl⟩
              · exact .inr byDefault

/-- A name that is not declared keeps what was settled for it before. -/
theorem settled_other {name : String} (fresh : ∀ d ∈ defs, d.name ≠ name)
    (h : settleParameters overrides settled defs = .ok next) :
    Dictionary.get? name next = Dictionary.get? name settled := by
  refine settled_keeps (P := fun d => Dictionary.get? name d = Dictionary.get? name settled)
    rfl (fun d member value before _ _ same => ?_) h
  rw [Dictionary.get?_insert_of_ne (fresh d member).symm, same]

/-- A declared name is settled to its override, or else to its default. -/
theorem settled_declared (once : (defs.map (·.name)).Nodup)
    (new : ∀ d ∈ defs, Dictionary.get? d.name settled = none)
    (h : settleParameters overrides settled defs = .ok next) (member : d ∈ defs) :
    Dictionary.get? d.name next = parameterValue? overrides d := by
  induction defs generalizing overrides settled with
  | nil => cases member
  | cons first rest ih =>
      obtain ⟨apart, once⟩ := List.nodup_cons.mp once
      obtain ⟨newFirst, new⟩ := List.forall_mem_cons.mp new
      have fresh : ∀ e ∈ rest, e.name ≠ first.name := by
        intro e member same
        exact apart (List.mem_map.mpr ⟨e, member, same⟩)
      cases given : parameterValue? overrides first with
      | none =>
          simp only [settleParameters, given] at h
          rcases List.mem_cons.mp member with rfl | member
          · rw [settled_other fresh h, newFirst, given]
          · rw [ih once new h member, parameterValue?_erase (fresh d member)]
      | some value =>
          cases checked : first.check value with
          | error reason => simp [settleParameters, given, checked] at h
          | ok _ =>
              simp only [settleParameters, given, checked] at h
              rcases List.mem_cons.mp member with rfl | member
              · rw [settled_other fresh h, Dictionary.get?_insert_self, given]
              · have new : ∀ e ∈ rest,
                    Dictionary.get? e.name (settled.insert first.name value) = none := by
                  intro e member
                  rw [Dictionary.get?_insert_of_ne (fresh e member), new e member]
                rw [ih once new h member, parameterValue?_erase (fresh d member)]

theorem settled_sorted (sorted : settled.Sorted)
    (h : settleParameters overrides settled defs = .ok next) : next.Sorted :=
  settled_keeps sorted (fun _ _ _ _ _ _ before => Dictionary.insert_sorted before) h

theorem resolveParameters_ok : resolveParameters p overrides = .ok next ↔
    (∀ name ∈ overrides.keys, name ∈ p.parameters.map (·.name)) ∧
      settleParameters overrides [] p.parameters = .ok next := by
  unfold resolveParameters
  split
  · rename_i name found
    have none : p.parameter? name = none := by simpa using List.find?_some found
    have undeclared := ProtocolDefinition.parameter?_eq_none.mp none
    constructor
    · intro h
      cases h
    · intro h
      exact absurd (h.1 name (List.mem_of_find?_eq_some found)) undeclared
  · rename_i found
    have declared : ∀ name ∈ overrides.keys, name ∈ p.parameters.map (·.name) := by
      intro name member
      have known : p.parameter? name ≠ none := by
        simpa using List.find?_eq_none.mp found name member
      exact Classical.not_not.mp (known ∘ ProtocolDefinition.parameter?_eq_none.mpr)
    exact ⟨fun h => ⟨declared, h⟩, And.right⟩

/-- A default passes its own check, so only overrides are ever refused. -/
theorem admitted_iff (valid : p.Valid)
    (declared : ∀ name ∈ overrides.keys, name ∈ p.parameters.map (·.name)) :
    Admitted overrides p.parameters ↔
      ∀ name value, Dictionary.get? name overrides = some value →
        ∃ d ∈ p.parameters, d.name = name ∧ d.check value = .ok () := by
  constructor
  · intro h name value given
    have inKeys := Dictionary.mem_keys_iff.mpr ⟨value, given⟩
    obtain ⟨d, member, rfl⟩ := List.mem_map.mp (declared name inKeys)
    exact ⟨d, member, rfl, h d member value (by simp [parameterValue?, given])⟩
  · intro h d member value chosen
    cases given : Dictionary.get? d.name overrides with
    | none =>
        have default : d.default = some value := by
          simpa [parameterValue?, given] using chosen
        exact (valid.parameters d member).default value default
    | some override =>
        have same : override = value := by
          simpa [parameterValue?, given] using chosen
        obtain ⟨e, inList, sameName, checked⟩ := h d.name override given
        rw [List.inj_on_of_nodup_map valid.parameterNames inList member sameName, same] at checked
        exact checked

/-- The records of the steps of a phase that is not entered: one of each step, numbered from
    one, and all pending. -/
structure OpensPhase (ph : PhaseDef) (records : List StepRecord) : Prop where
  steps : ∃ order : List StepDef, order.Perm ph.steps ∧ records = order.map (pendingStep ph.id)
  numbered : records.map (·.sequence) = List.range' 1 ph.steps.length
  pending : ∀ s ∈ records, s.phaseId = ph.id ∧ s.status = .pending

/-- In sequence, the steps of a sound phase are numbered from one. -/
theorem inSequence_numbered {ph : PhaseDef} (sound : ph.Valid) :
    (inSequence ph.steps).map (·.sequence) = List.range' 1 ph.steps.length := by
  have ordered : ((inSequence ph.steps).map (·.sequence)).Pairwise (· < ·) :=
    List.pairwise_map.mpr (Validation.inSequence_ordered sound)
  have same : ((inSequence ph.steps).map (·.sequence)).Perm
      (List.range' 1 ph.steps.length) :=
    ((List.mergeSort_perm ph.steps _).map _).trans sound.numbered
  exact same.eq_of_pairwise (fun _ _ _ _ before after => absurd after (Nat.lt_asymm before))
    ordered List.pairwise_lt_range'

theorem opensPhase {ph : PhaseDef} (sound : ph.Valid) :
    OpensPhase ph ((inSequence ph.steps).map (pendingStep ph.id)) where
  steps := ⟨inSequence ph.steps, List.mergeSort_perm ph.steps _, rfl⟩
  numbered := by
    rw [List.map_map]
    exact inSequence_numbered sound
  pending := by
    intro s member
    obtain ⟨_, _, rfl⟩ := List.mem_map.mp member
    exact ⟨rfl, rfl⟩

/-- What a run of a protocol starts out with, with some overrides. -/
structure Begins (p : ProtocolDefinition) (overrides : Dictionary Json) (run : TestRun) :
    Prop where
  sorted : run.parameters.Sorted
  declared : ∀ d ∈ p.parameters,
    Dictionary.get? d.name run.parameters = (Dictionary.get? d.name overrides).or d.default
  others : ∀ name, (∀ d ∈ p.parameters, d.name ≠ name) →
    Dictionary.get? name run.parameters = none
  checked : ∀ d ∈ p.parameters, ∀ value,
    Dictionary.get? d.name run.parameters = some value → d.check value = .ok ()
  phases : run.phases = p.phases.map pendingPhase
  steps : ∃ parts, run.steps = parts.flatten ∧ List.Forall₂ OpensPhase p.phases parts

/-- A run can be created with overrides just if each of them is declared and admitted. -/
theorem exists_create_iff (valid : p.Valid) {id specimen operator : String} {now : Instant}
    {overrides : Dictionary Json} :
    (∃ run, create id now p specimen operator overrides = .ok run) ↔
      ∀ name value, Dictionary.get? name overrides = some value →
        ∃ d ∈ p.parameters, d.name = name ∧ d.check value = .ok () := by
  constructor
  · intro h
    obtain ⟨run, h⟩ := h
    obtain ⟨settled, resolved, _⟩ := map_ok h
    obtain ⟨declared, settles⟩ := resolveParameters_ok.mp resolved
    exact (admitted_iff valid declared).mp ((settles_iff valid.parameterNames).mp ⟨_, settles⟩)
  · intro h
    have declared : ∀ name ∈ overrides.keys, name ∈ p.parameters.map (·.name) := by
      intro name member
      obtain ⟨value, found⟩ := Dictionary.mem_keys_iff.mp member
      obtain ⟨d, inList, same, _⟩ := h name value found
      exact List.mem_map.mpr ⟨d, inList, same⟩
    obtain ⟨settled, settles⟩ : ∃ next, settleParameters overrides [] p.parameters = .ok next :=
      (settles_iff valid.parameterNames).mpr ((admitted_iff valid declared).mpr h)
    have resolved := resolveParameters_ok.mpr ⟨declared, settles⟩
    exact ⟨_, congrArg (Except.map _) resolved⟩

theorem begins_of_create (valid : p.Valid) {id specimen operator : String} {now : Instant}
    {overrides : Dictionary Json} {run : TestRun}
    (h : create id now p specimen operator overrides = .ok run) : Begins p overrides run := by
  obtain ⟨settled, resolved, rfl⟩ := map_ok h
  obtain ⟨_, settles⟩ := resolveParameters_ok.mp resolved
  have value : ∀ d ∈ p.parameters, Dictionary.get? d.name settled = parameterValue? overrides d :=
    fun d member => settled_declared valid.parameterNames (fun _ _ => rfl) settles member
  have empty : Dictionary.Sorted ([] : Dictionary Json) := List.Pairwise.nil
  refine ⟨settled_sorted empty settles, value, ?_, ?_, rfl, ?_⟩
  · intro name undeclared
    exact settled_other undeclared settles
  · intro d member found given
    have admitted := (settles_iff valid.parameterNames).mp ⟨settled, settles⟩
    exact admitted d member found ((value d member).symm.trans given)
  · refine ⟨p.phases.map fun ph => (inSequence ph.steps).map (pendingStep ph.id), ?_, ?_⟩
    · exact List.flatMap_def
    · rw [List.forall₂_map_right_iff, List.forall₂_same]
      exact fun ph member => opensPhase (valid.phases ph member)

/-- A protocol that is valid has a run for overrides that are declared and admitted, and for
    no others; and what the run starts out with is settled by the two. -/
theorem create_begins (valid : Validation.check p = .ok ()) (id specimen operator : String)
    (now : Instant) (overrides : Dictionary Json) :
    ((∃ run, create id now p specimen operator overrides = .ok run) ↔
      ∀ name value, Dictionary.get? name overrides = some value →
        ∃ d ∈ p.parameters, d.name = name ∧ d.check value = .ok ()) ∧
    (∃ run, create id now p specimen operator [] = .ok run) ∧
    ∀ run, create id now p specimen operator overrides = .ok run → Begins p overrides run := by
  have valid := Validation.valid_of_check valid
  refine ⟨exists_create_iff valid, ?_, fun run created => begins_of_create valid created⟩
  have noOverride : ∀ name value, Dictionary.get? name ([] : Dictionary Json) = some value →
      ∃ d ∈ p.parameters, d.name = name ∧ d.check value = .ok () :=
    fun _ _ given => nomatch given
  exact (exists_create_iff valid).mpr noOverride

theorem everyField_begins :
    Validation.check .everyField = .ok () ∧
      ∃ run, create "r-1" ⟨0, 0⟩ .everyField "S-1" "lab" [("dark", .bool true)] = .ok run ∧
        Begins .everyField [("dark", .bool true)] run := by
  obtain ⟨accepted, _, begins⟩ := create_begins ProtocolDefinition.everyField_valid
    "r-1" "S-1" "lab" ⟨0, 0⟩ [("dark", .bool true)]
  have declared : ∀ name value, Dictionary.get? name [("dark", Json.bool true)] = some value →
      ∃ d ∈ ProtocolDefinition.everyField.parameters, d.name = name ∧ d.check value = .ok () := by
    intro name value given
    simp only [Dictionary.get?, Option.ite_none_right_eq_some, Option.some.injEq] at given
    obtain ⟨rfl, rfl⟩ := given
    exact ⟨⟨"dark", .boolean, none, none, none, some (.bool false)⟩,
      by simp [ProtocolDefinition.everyField], rfl, rfl⟩
  obtain ⟨run, created⟩ := accepted.mpr declared
  exact ⟨ProtocolDefinition.everyField_valid, run, created, begins run created⟩

end TestRun

end Qualification
