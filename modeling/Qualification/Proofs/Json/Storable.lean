import Qualification.Proofs.Document.Decoding
import Qualification.Proofs.Json.Printed
import Qualification.Store.Column

/-! # Values in columns

A column of JSON text gives back the value that was written in it, as long as the value has
no more levels than a reader goes down, its numbers have a text, and the names of its
objects are in order.
-/

namespace Qualification.Json

open Document

/-- A value of at most so many levels that its text gives back. -/
inductive Storable : Nat → Json → Prop where
  | null {depth : Nat} : Storable depth .null
  | bool {depth : Nat} (b : Bool) : Storable depth (.bool b)
  | integer {depth : Nat} {n : Int} (held : Word.holds 64 n) : Storable depth (.integer n)
  | float {depth : Nat} {x : Float} (finite : x.isFinite) : Storable depth (.float x)
  | text {depth : Nat} (s : String) : Storable depth (.text s)
  | array {depth : Nat} {items : List Json} (each : ∀ v ∈ items, Storable depth v) :
      Storable (depth + 1) (.array items)
  | object {depth : Nat} {members : Dictionary Json} (sorted : members.Sorted)
      (each : ∀ e ∈ members, Storable depth e.2) : Storable (depth + 1) (.object members)

variable {v : Json} {depth : Nat}

theorem Storable.empty : Storable (depth + 1) (.object []) :=
  .object List.Pairwise.nil fun _ member => absurd member List.not_mem_nil

theorem Storable.writable (storable : Storable depth v) : Writable v := by
  induction storable with
  | null => exact .null
  | bool b => exact .bool b
  | integer held => exact .integer held
  | float finite => exact .float finite
  | text s => exact .text s
  | array _ ih => exact .array ih
  | object _ _ ih => exact .object ih

theorem Storable.mono {less : Nat} (storable : Storable less v) (h : less ≤ depth) :
    Storable depth v := by
  induction storable generalizing depth with
  | null => exact .null
  | bool b => exact .bool b
  | integer held => exact .integer held
  | float finite => exact .float finite
  | text s => exact .text s
  | array _ ih =>
      obtain ⟨more, rfl⟩ := Nat.exists_eq_add_of_le' (Nat.le_trans (Nat.le_add_left 1 _) h)
      exact .array fun v member => ih v member (Nat.le_of_succ_le_succ h)
  | object sorted _ ih =>
      obtain ⟨more, rfl⟩ := Nat.exists_eq_add_of_le' (Nat.le_trans (Nat.le_add_left 1 _) h)
      exact .object sorted fun e member => ih e member (Nat.le_of_succ_le_succ h)

/-- An illustration: nothing, in so many lists. -/
def nested : Nat → Json
  | 0 => .null
  | levels + 1 => .array [nested levels]

theorem storable_nested_iff {levels : Nat} : Storable depth (nested levels) ↔ levels ≤ depth := by
  induction levels generalizing depth with
  | zero => exact iff_of_true .null (Nat.zero_le _)
  | succ levels ih =>
      constructor
      · rintro (_ | _ | _ | _ | _ | each | _)
        exact Nat.succ_le_succ (ih.mp (each _ (List.mem_singleton_self _)))
      · intro less
        obtain ⟨depth, rfl⟩ := Nat.exists_eq_add_of_le' (Nat.le_trans (Nat.le_add_left 1 _) less)
        exact .array (List.forall_mem_singleton.mpr (ih.mpr (Nat.le_of_succ_le_succ less)))

theorem storable_ofFloat (x : Float) : Storable depth (ofFloat x) := by
  unfold ofFloat
  split
  · exact .float ‹_›
  · exact .null

theorem storable_ofFloat? (x : Option Float) : Storable depth (ofFloat? x) := by
  cases x with
  | none => exact .null
  | some x => exact storable_ofFloat x

theorem storable_ofNat {n : Nat} (below : n < Word.count 64) : Storable depth (ofNat n) := by
  refine .integer (Word.holds_iff.mpr ?_)
  have width : Word.count 64 = 2 ^ 64 := rfl
  omega

theorem storable_ofList {α : Type} {f : α → Json} {xs : List α}
    (each : ∀ a ∈ xs, Storable depth (f a)) : Storable (depth + 1) (ofList f xs) :=
  .array (List.forall_mem_map.mpr each)

/-- An object whose members have the given names, which are in order. -/
theorem storable_fields (names : List String) {members : Dictionary Json}
    (ascending : names.Pairwise (· < ·)) (named : members.keys = names)
    (each : ∀ v ∈ members.map Prod.snd, Storable depth v) :
    Storable (depth + 1) (.object members) := by
  refine .object ?_ (List.forall_mem_map.mp each)
  rw [Dictionary.Sorted, named]
  exact ascending

theorem ofItems_eq_map (items : List Json) : Node.ofItems items = items.map Node.ofJson := by
  induction items with
  | nil => rfl
  | cons v more ih => rw [Node.ofItems, ih, List.map_cons]

theorem ofMembers_eq_map (members : List (String × Json)) :
    Node.ofMembers members = members.map fun e => (.ofText e.1, .ofJson e.2) := by
  induction members with
  | nil => rfl
  | cons e more ih => rw [Node.ofMembers, ih, List.map_cons]

theorem Storable.gives (storable : Storable depth v) :
    Gives depth Decoder.json (.ofJson v) v := by
  induction storable with
  | null => exact fun _ _ => rfl
  | bool b => exact fun _ _ => rfl
  | integer held =>
      intro place deep
      simp [Node.ofJson, Decoder.json, Decoder.atomJson, held]
  | float finite =>
      intro place deep
      simp [Node.ofJson, Decoder.json, Decoder.atomJson, ofFloat, finite]
  | text s => exact fun _ _ => rfl
  | array _ ih =>
      rw [Node.ofJson, ofItems_eq_map]
      exact .array ih
  | object sorted _ ih =>
      rw [Node.ofJson, ofMembers_eq_map]
      exact .object sorted ih

theorem Storable.gives_dictionary {members : Dictionary Json}
    (storable : Storable depth (.object members)) :
    Gives depth (Decoder.dictionary Decoder.json) (.ofJson (.object members)) members := by
  cases storable with
  | object sorted each =>
      rw [Node.ofJson, ofMembers_eq_map]
      exact .dictionary sorted fun e member => (each e member).gives

/-- How many levels a reader of JSON text goes down. -/
def levels : Nat := (Place.root .json).depth

/-- What a column holds is what a decoder makes of the tree of the value written in it. -/
theorem ofColumn_compact {α : Type} {decode : Decoder α} {a : α} (writable : Writable v)
    (gives : Gives levels decode (.ofJson v) a) : ofColumn? decode v.compact = some a := by
  have read := gives (Place.root .json) (Nat.le_refl _)
  simp [ofColumn?, Json.decode, Source.decode, source_compact writable, read, Decoder.close,
    bind, Except.bind, pure, Except.pure, Except.toOption]

theorem ofColumn_json (storable : Storable levels v) :
    ofColumn? Decoder.json v.compact = some v :=
  ofColumn_compact storable.writable storable.gives

theorem ofColumn_dictionary {members : Dictionary Json}
    (storable : Storable levels (.object members)) :
    ofColumn? (Decoder.dictionary Decoder.json) (compact (.object members)) = some members :=
  ofColumn_compact storable.writable storable.gives_dictionary

end Qualification.Json
