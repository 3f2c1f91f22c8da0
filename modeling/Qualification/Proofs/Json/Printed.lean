import Qualification.Proofs.Json.Tree

/-! # Printed values

The tree of the text that a value is printed as, on one line or with one item a line, is
the tree of the value, if every number in it is one that JSON text can hold: an integer of
64 bits or a finite reading.
-/

namespace Qualification.Json

open Document

/-- A value whose numbers have a text. -/
inductive Writable : Json → Prop where
  | null : Writable .null
  | bool (b : Bool) : Writable (.bool b)
  | integer {n : Int} (held : Word.holds 64 n) : Writable (.integer n)
  | float {x : Float} (finite : x.isFinite) : Writable (.float x)
  | text (s : String) : Writable (.text s)
  | array {items : List Json} (each : ∀ v ∈ items, Writable v) : Writable (.array items)
  | object {members : List (String × Json)} (each : ∀ e ∈ members, Writable e.2) :
      Writable (.object members)

@[simp]
theorem writable_text (s : String) : Writable (.text s) :=
  .text s

@[simp]
theorem writable_array {items : List Json} :
    Writable (.array items) ↔ ∀ v ∈ items, Writable v := by
  constructor
  · rintro ⟨⟩
    assumption
  · exact .array

@[simp]
theorem writable_object {members : List (String × Json)} :
    Writable (.object members) ↔ ∀ e ∈ members, Writable e.2 := by
  constructor
  · rintro ⟨⟩
    assumption
  · exact .object

variable {v : Json}

theorem compact_array (first : Json) (more : List Json) :
    (compact (.array (first :: more))).toList =
      '[' :: (Gaps.none.item ++ (first.compact.toList ++
        Gaps.none.behind ']' (more.map fun v => v.compact.toList))) := by
  rw [← Gaps.joined .none ']' (fun items => (compactItems items).toList)
    (fun v => v.compact.toList) (fun _ => rfl) fun _ _ _ => by simp [compactItems, Gaps.none]]
  simp [compact, Gaps.none]

theorem compact_object (first : String × Json) (more : List (String × Json)) :
    (compact (.object (first :: more))).toList =
      '{' :: (Gaps.none.item ++ (Gaps.none.member first.1 first.2.compact.toList ++
        Gaps.none.behind '}' (more.map fun e => Gaps.none.member e.1 e.2.compact.toList))) := by
  rw [← Gaps.joined .none '}' (fun members => (compactMembers members).toList)
    (fun e => Gaps.none.member e.1 e.2.compact.toList)
    (fun _ => by simp [compactMembers, Gaps.member, quote_toList, Gaps.none])
    fun _ _ _ => by simp [compactMembers, Gaps.member, quote_toList, Gaps.none]]
  simp [compact, Gaps.none]

theorem pretty_array (level : Nat) (first : Json) (more : List Json) :
    (prettyAt level (.array (first :: more))).toList =
      '[' :: ((Gaps.lines level).item ++ ((prettyAt (level + 1) first).toList ++
        (Gaps.lines level).behind ']' (more.map fun v => (prettyAt (level + 1) v).toList))) := by
  rw [← Gaps.joined (.lines level) ']' (fun items => (prettyItems (level + 1) items).toList)
    (fun v => (prettyAt (level + 1) v).toList)
    (fun _ => by simp [prettyItems, Gaps.lines])
    fun _ _ _ => by simp [prettyItems, Gaps.lines]]
  simp [prettyAt, Gaps.lines]

theorem pretty_object (level : Nat) (first : String × Json) (more : List (String × Json)) :
    (prettyAt level (.object (first :: more))).toList =
      '{' :: ((Gaps.lines level).item ++
        ((Gaps.lines level).member first.1 (prettyAt (level + 1) first.2).toList ++
          (Gaps.lines level).behind '}' (more.map fun e =>
            (Gaps.lines level).member e.1 (prettyAt (level + 1) e.2).toList))) := by
  rw [← Gaps.joined (.lines level) '}' (fun members => (prettyMembers (level + 1) members).toList)
    (fun e => (Gaps.lines level).member e.1 (prettyAt (level + 1) e.2).toList)
    (fun _ => by simp [prettyMembers, Gaps.member, quote_toList, Gaps.lines])
    fun _ _ _ => by simp [prettyMembers, Gaps.member, quote_toList, Gaps.lines]]
  simp [prettyAt, Gaps.lines]

theorem spells_compact (writable : Writable v) : Spells v.compact.toList v := by
  induction writable with
  | null => exact spells_null
  | bool b => exact spells_bool b
  | integer held => exact spells_integer held
  | float finite => exact spells_float finite
  | text s => exact spells_text s
  | @array items each ih =>
      cases items with
      | nil => exact spells_empty_array
      | cons first more =>
          rw [compact_array]
          exact spells_array .none (·.compact.toList) ih
  | @object members each ih =>
      cases members with
      | nil => exact spells_empty_object
      | cons first more =>
          rw [compact_object]
          exact spells_object .none (·.compact.toList) ih

theorem spells_pretty (writable : Writable v) (level : Nat) :
    Spells (prettyAt level v).toList v := by
  induction writable generalizing level with
  | null => exact spells_null
  | bool b => exact spells_bool b
  | integer held => exact spells_integer held
  | float finite => exact spells_float finite
  | text s => exact spells_text s
  | @array items each ih =>
      cases items with
      | nil =>
          rw [prettyAt]
          exact spells_empty_array
      | cons first more =>
          rw [pretty_array]
          exact spells_array (.lines level) (fun v => (prettyAt (level + 1) v).toList)
            fun v member => ih v member (level + 1)
  | @object members each ih =>
      cases members with
      | nil =>
          rw [prettyAt]
          exact spells_empty_object
      | cons first more =>
          rw [pretty_object]
          exact spells_object (.lines level) (fun v => (prettyAt (level + 1) v).toList)
            fun e member => ih e member (level + 1)

/-- What stands behind a value is passed over if it is blank. -/
theorem source_spells {s : String} {cs gap : List Char} (spells : Spells cs v)
    (written : s.toList = cs ++ gap) (passed : ∀ c ∈ gap, isGap c) :
    source s = ⟨.ofJson v, none⟩ := by
  have stops : Stops gap := List.append_nil gap ▸ stops_gap passed nofun
  have read := spells.read (2 * s.toList.length + 2) gap (by simp [written]; omega) stops
  have behind : skipGap gap = [] := List.dropWhile_eq_nil_iff.mpr passed
  rw [← written] at read
  simp [source, read, behind]

/-- The tree of the text of a value is the tree of the value, and nothing stands behind. -/
theorem source_compact (writable : Writable v) : source v.compact = ⟨.ofJson v, none⟩ :=
  source_spells (spells_compact writable) (List.append_nil _).symm (List.forall_mem_nil _)

theorem source_pretty (writable : Writable v) : source v.pretty = ⟨.ofJson v, none⟩ :=
  source_spells (spells_pretty writable 0) (List.append_nil _).symm (List.forall_mem_nil _)

theorem source_pretty_line (writable : Writable v) :
    source (v.pretty ++ "\n") = ⟨.ofJson v, none⟩ :=
  source_spells (spells_pretty writable 0) String.toList_append (by simp [isGap])

end Qualification.Json
