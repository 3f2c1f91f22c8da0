import Qualification.Proofs.Json.Record

/-! # Arrangements of documents

A document is written with the members of its objects in the order of their declaration, or
in the byte order of their names. Either way a record is read back: its fields are found by
their names. Objects that are data have their names in byte order already, and stay as they
are.
-/

namespace Qualification

open Document

namespace Json

/-- A way to write the documents of a program: scalars stay, items keep their order, and the
    members of an object are put in an order that depends on their names. -/
structure Arranges (f : Json → Json) : Prop where
  null : f .null = .null
  bool : ∀ b, f (.bool b) = .bool b
  integer : ∀ n, f (.integer n) = .integer n
  float : ∀ x, f (.float x) = .float x
  text : ∀ s, f (.text s) = .text s
  array : ∀ items, f (.array items) = .array (items.map f)
  object : ∀ members : Dictionary Json, members.keys.Nodup →
    ∃ order, order.Perm (members.mapValues f) ∧ f (.object members) = .object order
  /-- Members in the order of their names stay in it. -/
  sorted : ∀ members : Dictionary Json, members.Sorted →
    f (.object members) = .object (members.mapValues f)

theorem arranges_id : Arranges id where
  null := rfl
  bool _ := rfl
  integer _ := rfl
  float _ := rfl
  text _ := rfl
  array items := by rw [List.map_id]; rfl
  object members _ := ⟨members, by simp [Dictionary.mapValues], rfl⟩
  sorted members _ := by simp [Dictionary.mapValues]

theorem canonicalItems_eq (items : List Json) : canonicalItems items = items.map canonical := by
  induction items with
  | nil => rfl
  | cons v more ih => rw [canonicalItems, ih, List.map_cons]

theorem canonicalMembers_eq (members : Dictionary Json) :
    canonicalMembers members = members.mapValues canonical := by
  induction members with
  | nil => rfl
  | cons e more ih =>
      rw [canonicalMembers, ih]
      rfl

theorem canonical_object (members : Dictionary Json) :
    canonical (.object members) = .object (Dictionary.ofList (members.mapValues canonical)) := by
  rw [canonical, canonicalMembers_eq]

theorem arranges_canonical : Arranges canonical where
  null := rfl
  bool _ := rfl
  integer _ := rfl
  float _ := rfl
  text _ := rfl
  array items := by rw [canonical, canonicalItems_eq]
  object members distinct := by
    rw [← Dictionary.mapValues_keys canonical] at distinct
    exact ⟨_, Dictionary.ofList_perm distinct, canonical_object members⟩
  sorted members sorted := by
    rw [canonical_object, Dictionary.ofList_sorted]
    rw [Dictionary.Sorted, Dictionary.mapValues_keys]
    exact sorted

namespace Arranges

variable {f : Json → Json} {α : Type} {g : α → Json} {depth : Nat}

theorem comp_text (hf : Arranges f) : f ∘ Json.text = Json.text :=
  funext hf.text

theorem comp_bool (hf : Arranges f) : f ∘ Json.bool = Json.bool :=
  funext hf.bool

theorem ofOption (hf : Arranges f) (part : Option α) :
    f (.ofOption g part) = .ofOption (f ∘ g) part := by
  cases part with
  | none => exact hf.null
  | some a => rfl

theorem ofText? (hf : Arranges f) (s : Option String) : f (.ofText? s) = .ofOption .text s := by
  rw [Json.ofText?, hf.ofOption, hf.comp_text]

theorem ofList (hf : Arranges f) (values : List α) :
    f (.ofList g values) = .ofList (f ∘ g) values := by
  rw [Json.ofList, hf.array, List.map_map, Json.ofList]

theorem ofNat (hf : Arranges f) (n : Nat) : f (.ofNat n) = .ofNat n :=
  hf.integer n

/-- A value of data is arranged already. -/
theorem storable (hf : Arranges f) {v : Json} (storable : Storable depth v) : f v = v := by
  induction storable with
  | null => exact hf.null
  | bool b => exact hf.bool b
  | integer => exact hf.integer _
  | float => exact hf.float _
  | text s => exact hf.text s
  | array each ih => rw [hf.array, List.map_congr_left ih, List.map_id']
  | @object _ members sorted each ih =>
      have same : Dictionary.mapValues f members = members := by
        calc
          members.map (fun e => (e.1, f e.2)) = members.map id :=
            List.map_congr_left fun e member => congrArg (Prod.mk e.1) (ih e member)
          _ = members := List.map_id members
      rw [hf.sorted members sorted, same]

/-- A dictionary of data is read back from its object. -/
theorem dictionary (hf : Arranges f) {members : Dictionary Json}
    (data : Storable depth (.object members)) :
    Carries depth (Decoder.dictionary Decoder.json) (f (.object members)) members := by
  rw [hf.storable data]
  exact ⟨data.writable, nofun, data.gives_dictionary⟩

@[simp]
theorem mapValues_memberOf? (f : Json → Json) (name : String) (g : α → Json) (part : Option α) :
    Dictionary.mapValues f (memberOf? name g part) = memberOf? name (f ∘ g) part := by
  cases part <;> rfl

end Arranges

end Json

namespace Document.Record

open Json

variable {α : Type} {depth : Nat} {a : α} {slots : List (String × Option Json)}

/-- A record is read from the object of what is written of its fields, however its members
    are arranged. -/
theorem Fills.arranged {f : Json → Json} (hf : Arranges f) {r : Record α}
    (h : Fills depth slots r a) (distinct : r.keys.Nodup) {members : Dictionary Json}
    (written : members.mapValues f = present slots) (name : String) :
    Carries (depth + 1) (r.read name) (f (.object members)) a := by
  have apart : members.keys.Nodup := by
    rw [← Dictionary.mapValues_keys f, written]
    exact h.present_distinct distinct
  obtain ⟨order, same, arranged⟩ := hf.object members apart
  rw [arranged]
  exact h.carries_of_perm distinct (same.trans (.of_eq written)) name

end Document.Record

end Qualification
