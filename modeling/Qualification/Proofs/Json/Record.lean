import Qualification.Measurement.Codec
import Qualification.Proofs.Json.Storable

/-! # Records in JSON text

A record is written as an object with a member for each of its fields, less those that
have nothing to write. It is read back if every member that is written is.
-/

namespace Qualification

open Document

namespace Json

variable {α : Type} {depth : Nat} {decode : Decoder α} {v : Json} {a : α}

/-- A value whose text is read as a value of a type. It is not null, so that it is not taken
    for one that is missing. -/
structure Carries (depth : Nat) (decode : Decoder α) (v : Json) (a : α) : Prop where
  writable : Writable v
  notNull : v ≠ .null
  gives : Gives depth decode (.ofJson v) a

theorem present_of_ne_null (notNull : v ≠ .null) : Gives.Present (.ofJson v) := by
  cases v with
  | null => exact absurd rfl notNull
  | bool | integer | float | text | array | object => trivial

namespace Carries

/-- A value is read back from any text with its tree. -/
theorem decode_ok {s : String} (carries : Carries levels decode v a)
    (read : source s = ⟨.ofJson v, none⟩) : Json.decode decode s = .ok a := by
  have given := carries.gives (Place.root .json) (Nat.le_refl _)
  simp [Json.decode, Source.decode, read, given, Decoder.close, bind, Except.bind, pure,
    Except.pure]

theorem text (s : String) : Carries depth Decoder.text (.text s) s :=
  ⟨.text s, nofun, .text s⟩

theorem bool (b : Bool) : Carries depth Decoder.bool (.bool b) b :=
  ⟨.bool b, nofun, .bool b⟩

theorem float {x : Float} (finite : x.isFinite) :
    Carries depth Decoder.float (ofFloat x) x := by
  rw [ofFloat, if_pos finite]
  exact ⟨.float finite, by simp, .float x⟩

theorem word {words : Words α} {s : String} (found : words.find? s = some a) :
    Carries depth words.read (.text s) a :=
  ⟨.text s, nofun, .word found⟩

theorem natBelow {bits n : Nat} (narrow : bits ≤ 64) (below : n < Word.count bits)
    (expected : String) :
    Carries depth (Decoder.natBelow (Word.count bits) expected) (ofNat n) n := by
  have held : n < Word.count 64 :=
    Nat.lt_of_lt_of_le below (Nat.pow_le_pow_right (by decide) narrow)
  refine ⟨.integer ?_, nofun, fun place deep => ?_⟩
  · simp [Word.holds, Word.holdsUnsigned, held]
  · simp [ofNat, Node.ofJson, Decoder.natBelow, held, below]

theorem storable (storable : Storable depth v) (notNull : v ≠ .null) :
    Carries depth Decoder.json v v :=
  ⟨storable.writable, notNull, storable.gives⟩

variable {f : α → Json}

theorem list {values : List α} (each : ∀ a ∈ values, Carries depth decode (f a) a) :
    Carries (depth + 1) (Decoder.list decode) (ofList f values) values := by
  refine ⟨.array ?_, nofun, ?_⟩
  · exact List.forall_mem_map.mpr fun a member => (each a member).writable
  · rw [ofList, Node.ofJson, ofItems_eq_map, List.map_map]
    exact .list fun a member => (each a member).gives

theorem dictionary {members : Dictionary α} (sorted : members.Sorted)
    (each : ∀ e ∈ members, Carries depth decode (f e.2) e.2) :
    Carries (depth + 1) (Decoder.dictionary decode) (.object (members.mapValues f)) members := by
  refine ⟨.object ?_, nofun, ?_⟩
  · exact List.forall_mem_map.mpr fun e member => (each e member).writable
  · rw [Dictionary.mapValues, Node.ofJson, ofMembers_eq_map, List.map_map]
    exact @Gives.dictionary _ depth decode (fun a => .ofJson (f a)) _ sorted
      fun e member => (each e member).gives

/-- A part that is written as null when there is none. -/
theorem part {part : Option α} (each : ∀ a, part = some a → Carries depth decode (f a) a) :
    Writable (.ofOption f part) ∧
      Gives depth (Decoder.optional decode) (.ofJson (.ofOption f part)) part := by
  cases part with
  | none => exact ⟨.null, .none_optional⟩
  | some a =>
      have carries := each a rfl
      exact ⟨carries.writable, .some_optional (present_of_ne_null carries.notNull) carries.gives⟩

end Carries

/-- The members of an object, of fields that may have nothing to write. -/
def present (slots : List (String × Option Json)) : List (String × Json) :=
  slots.flatMap fun slot => memberOf? slot.1 id slot.2

@[simp]
theorem present_nil : present [] = [] :=
  rfl

@[simp]
theorem present_cons (slot : String × Option Json) (rest : List (String × Option Json)) :
    present (slot :: rest) = memberOf? slot.1 id slot.2 ++ present rest :=
  rfl

@[simp]
theorem memberOf?_some (name : String) (f : α → Json) (a : α) :
    memberOf? name f (some a) = [(name, f a)] :=
  rfl

@[simp]
theorem memberOf?_map (name : String) (f : α → Json) (part : Option α) :
    memberOf? name id (part.map f) = memberOf? name f part := by
  cases part <;> rfl

@[simp]
theorem memberOf?_unless (name : String) (left : Prop) [Decidable left] (v : Json) :
    memberOf? name id (if left then none else some v) = if left then [] else [(name, v)] := by
  split <;> rfl

variable {slots : List (String × Option Json)} {name : String}

theorem mem_present : (name, v) ∈ present slots ↔ (name, some v) ∈ slots := by
  rw [present, List.mem_flatMap]
  constructor
  · rintro ⟨⟨_, _ | w⟩, isSlot, member⟩
    · cases member
    · obtain ⟨⟩ := List.mem_singleton.mp member
      exact isSlot
  · intro isSlot
    exact ⟨_, isSlot, List.mem_singleton.mpr rfl⟩

theorem present_sublist (slots : List (String × Option Json)) :
    List.Sublist ((present slots).map (·.1)) (slots.map (·.1)) := by
  induction slots with
  | nil => exact .refl _
  | cons slot rest ih =>
      obtain ⟨name, _ | v⟩ := slot
      · exact ih.cons name
      · exact ih.cons_cons name

/-- The entries of the tree of an object. -/
def entries (members : List (String × Json)) : List (String × Node) :=
  members.map fun e => (e.1, .ofJson e.2)

theorem entries_names (members : List (String × Json)) :
    (entries members).map (·.1) = members.map (·.1) := by
  rw [entries, List.map_map]
  rfl

end Json

namespace Document.Record

open Json

variable {α β : Type} {depth : Nat} {decode : Decoder α} {a : α} {key : String}
  {slots : List (String × Option Json)}

/-- Does an object have what is to be written of a field, and nothing if that is nothing? -/
def Keeps (members : List (String × Node)) (slot : String × Option Json) : Prop :=
  match slot.2 with
  | some v => (slot.1, .ofJson v) ∈ members
  | none => slot.1 ∉ members.map (·.1)

theorem Keeps.perm {members others : List (String × Node)} {slot : String × Option Json}
    (keeps : Keeps members slot) (same : members.Perm others) : Keeps others slot := by
  obtain ⟨name, _ | v⟩ := slot
  · exact fun written => keeps ((same.map (·.1)).mem_iff.mpr written)
  · exact same.subset keeps

theorem keeps_present (distinct : (slots.map (·.1)).Nodup) :
    ∀ slot ∈ slots, Keeps (entries (present slots)) slot := by
  rintro ⟨name, _ | v⟩ isSlot
  · intro written
    rw [entries_names] at written
    obtain ⟨⟨_, v⟩, isMember, rfl⟩ := List.mem_map.mp written
    have again := List.inj_on_of_nodup_map distinct (mem_present.mp isMember) isSlot rfl
    cases again
  · exact List.mem_map.mpr ⟨_, mem_present.mpr isSlot, rfl⟩

/-- A record makes up a value of what is written of its fields, one slot for each. -/
structure Fills (depth : Nat) (slots : List (String × Option Json)) (r : Record α) (a : α) :
    Prop where
  keys : slots.map (·.1) = r.keys
  writable : ∀ slot ∈ slots, ∀ v, slot.2 = some v → Writable v
  yields : ∀ members, (members.map (·.1)).Nodup → (∀ slot ∈ slots, Keeps members slot) →
    Yields depth members r a

namespace Fills

theorem pure (a : α) : Fills depth [] (Pure.pure a : Record α) a :=
  ⟨rfl, nofun, fun _ _ _ => .pure a⟩

theorem seq {f : Record (α → β)} {g : α → β} {r : Record α}
    {first second : List (String × Option Json)} (hf : Fills depth first f g)
    (hr : Fills depth second r a) : Fills depth (first ++ second) (f <*> r) (g a) where
  keys := by
    have split : (f <*> r).keys = f.keys ++ r.keys := List.map_append
    rw [List.map_append, hf.keys, hr.keys, split]
  writable slot member := (List.mem_append.mp member).elim (hf.writable slot) (hr.writable slot)
  yields members distinct keeps := by
    obtain ⟨keepsFirst, keepsSecond⟩ := List.forall_mem_append.mp keeps
    exact (hf.yields members distinct keepsFirst).seq (hr.yields members distinct keepsSecond)

theorem map {r : Record α} (f : α → β) (hr : Fills depth slots r a) :
    Fills depth slots (f <$> r) (f a) :=
  (pure f).seq hr

section

variable {absence : Absence} {absent : Place → Except Failure α}

/-- A field that is always written, if need be as null. -/
theorem written {v : Json} (writable : Writable v) (gives : Gives depth decode (.ofJson v) a) :
    Fills depth [(key, some v)] (Record.field key decode absence absent) a where
  keys := rfl
  writable slot member w isPart := by
    obtain rfl := List.mem_singleton.mp member
    exact Option.some.inj isPart ▸ writable
  yields members distinct keeps :=
    .field distinct (keeps _ (List.mem_singleton_self _)) gives absence absent

theorem field {v : Json} (carries : Carries depth decode v a) :
    Fills depth [(key, some v)] (Record.field key decode absence absent) a :=
  written carries.writable carries.gives

end

/-- A field that is written as null when there is nothing to write. -/
theorem nullable {f : α → Json} {part : Option α}
    (carries : ∀ a, part = some a → Carries depth decode (f a) a) :
    Fills depth [(key, some (.ofOption f part))] (Record.optional key decode) part :=
  have ⟨writable, gives⟩ := Carries.part carries
  written writable gives

/-- A field that is left out when it has the value that is read for a missing one. -/
theorem defaulted {slot : Option Json} {value : α}
    (carries : ∀ v, slot = some v → Carries depth decode v a) (absent : slot = none → a = value) :
    Fills depth [(key, slot)] (Record.withDefault key decode value) a := by
  cases slot with
  | some v => exact field (carries v rfl)
  | none =>
      obtain rfl := absent rfl
      refine ⟨rfl, ?_, fun members distinct keeps => ?_⟩
      · intro slot member v isPart
        obtain rfl := List.mem_singleton.mp member
        cases isPart
      · exact .absent (keeps _ (List.mem_singleton_self _)) fun _ => rfl

/-- A field that is left out when there is nothing to write. -/
theorem optional {f : α → Json} {part : Option α}
    (carries : ∀ a, part = some a → Carries depth decode (f a) a) :
    Fills depth [(key, part.map f)] (Record.optionalDefault key decode) part := by
  cases part with
  | none => exact defaulted nofun fun _ => rfl
  | some a =>
      have ⟨writable, gives⟩ := Carries.part carries
      exact written writable gives

theorem present_distinct {r : Record α} (h : Fills depth slots r a) (distinct : r.keys.Nodup) :
    ((present slots).map (·.1)).Nodup := by
  rw [← h.keys] at distinct
  exact distinct.sublist (present_sublist slots)

/-- A record is read from the object of what is written of its fields, in any order. -/
theorem carries_of_perm {r : Record α} (h : Fills depth slots r a) (distinct : r.keys.Nodup)
    {members : List (String × Json)} (written : members.Perm (present slots)) (name : String) :
    Carries (depth + 1) (r.read name) (.object members) a := by
  have names : (members.map (·.1)).Perm ((present slots).map (·.1)) := written.map _
  have apart : ((entries members).map (·.1)).Nodup := by
    rw [entries_names]
    exact names.nodup_iff.mpr (h.present_distinct distinct)
  have known : ∀ e ∈ entries members, e.1 ∈ r.keys := by
    intro e member
    have named : e.1 ∈ members.map (·.1) :=
      entries_names members ▸ List.mem_map_of_mem (f := (·.1)) member
    rw [← h.keys]
    exact (present_sublist slots).subset (names.subset named)
  rw [← h.keys] at distinct
  have yields := h.yields _ apart fun slot isSlot =>
    (keeps_present distinct slot isSlot).perm (written.symm.map _)
  refine ⟨.object fun e member => ?_, nofun, ?_⟩
  · exact h.writable _ (mem_present.mp (written.subset member)) e.2 rfl
  · rw [Node.ofJson, ofMembers_eq_map]
    have gives := yields.gives apart known name
    rw [entries, List.map_map] at gives
    exact gives

/-- A record is read from the object of what is written of its fields. -/
theorem carries {r : Record α} (h : Fills depth slots r a) (distinct : r.keys.Nodup)
    {members : List (String × Json)} (written : members = present slots) (name : String) :
    Carries (depth + 1) (r.read name) (.object members) a :=
  h.carries_of_perm distinct (.of_eq written) name

end Fills

end Document.Record

end Qualification
