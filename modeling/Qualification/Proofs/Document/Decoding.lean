import Qualification.Document.Tagged
import Qualification.Document.Word
import Qualification.Proofs.Dictionary
import Qualification.Proofs.Keyed

/-! # What decoders give back

A decoder gives a value from a tree at every place that leaves enough levels below it. What
the decoders of lists, dictionaries, records and tagged values give is made up of what the
decoders of their parts do.
-/

namespace Qualification.Document

variable {α β : Type} {depth : Nat} {node : Node} {a : α} {decode : Decoder α}

/-- A decoder reads a value from a tree wherever the given number of levels is left. -/
def Gives (depth : Nat) (decode : Decoder α) (node : Node) (a : α) : Prop :=
  ∀ place : Place, depth ≤ place.depth → decode place node = .ok a

theorem Place.descend_ok {place : Place} (deep : depth + 1 ≤ place.depth) :
    ∃ inner, place.descend = .ok inner ∧ depth ≤ inner.depth := by
  unfold Place.descend
  split
  · exact ⟨place, rfl, by omega⟩
  · split
    · omega
    · rename_i levels left
      exact ⟨_, rfl, Nat.le_of_succ_le_succ (left ▸ deep)⟩

namespace Gives

theorem mono {less : Nat} (gives : Gives less decode node a) (h : less ≤ depth) :
    Gives depth decode node a :=
  fun place deep => gives place (Nat.le_trans h deep)

theorem text (s : String) : Gives depth Decoder.text (.ofText s) s :=
  fun _ _ => rfl

theorem bool (b : Bool) : Gives depth Decoder.bool (.value (.bool b)) b :=
  fun _ _ => rfl

theorem float (x : Float) : Gives depth Decoder.float (.value (.float x)) x :=
  fun _ _ => rfl

theorem word {words : Words α} {s : String} (found : words.find? s = some a) :
    Gives depth words.read (.ofText s) a := by
  intro place deep
  simp [Words.read, Node.ofText, Words.settle, found]

theorem none_optional : Gives depth (Decoder.optional decode) (.value .null) none :=
  fun _ _ => rfl

/-- A tree that is neither null nor a written scalar. -/
def Present : Node → Prop
  | .value .null => False
  | .written _ => False
  | _ => True

theorem some_optional (present : Present node) (gives : Gives depth decode node a) :
    Gives depth (Decoder.optional decode) node (some a) := by
  intro place deep
  have read := gives place deep
  unfold Decoder.optional
  split
  · cases present
  · cases present
  · rw [read]
    rfl

variable {tree : α → Node}

theorem items {values : List α} (each : ∀ a ∈ values, Gives depth decode (tree a) a)
    {place : Place} (deep : depth ≤ place.depth) (index : Nat) :
    Decoder.items decode place index (values.map tree) = .ok values := by
  induction values generalizing index with
  | nil => rfl
  | cons first more ih =>
      obtain ⟨head, tail⟩ := List.forall_mem_cons.mp each
      have read := head (place.item index) deep
      simp [Decoder.items, read, ih tail, bind, Except.bind, pure, Except.pure]

theorem list {values : List α} (each : ∀ a ∈ values, Gives depth decode (tree a) a) :
    Gives (depth + 1) (Decoder.list decode) (.sequence none (values.map tree) none) values := by
  intro place deep
  obtain ⟨inner, down, left⟩ := Place.descend_ok deep
  simp [Decoder.list, Decoder.sequenceOf, down, items each left, Decoder.close, bind,
    Except.bind, pure, Except.pure]

theorem entries {members : Dictionary α} (each : ∀ e ∈ members, Gives depth decode (tree e.2) e.2)
    {place : Place} (deep : depth ≤ place.depth) (expected : String) :
    Decoder.entries decode expected place (members.map fun e => (.ofText e.1, tree e.2)) =
      .ok members := by
  induction members with
  | nil => rfl
  | cons first more ih =>
      obtain ⟨head, tail⟩ := List.forall_mem_cons.mp each
      have read := head (place.entry first.1) deep
      have rest := ih tail
      simp only [Node.ofText] at rest
      simp [Decoder.entries, Decoder.name, Node.ofText, read, rest, bind, Except.bind, pure,
        Except.pure]

/-- A dictionary is given back if its names are in order. -/
theorem dictionary {members : Dictionary α} (sorted : members.Sorted)
    (each : ∀ e ∈ members, Gives depth decode (tree e.2) e.2) :
    Gives (depth + 1) (Decoder.dictionary decode)
      (.mapping none (members.map fun e => (.ofText e.1, tree e.2)) none) members := by
  intro place deep
  obtain ⟨inner, down, left⟩ := Place.descend_ok deep
  simp [Decoder.dictionary, Decoder.mappingOf, down, entries each left, Decoder.close, bind,
    Except.bind, pure, Except.pure, Dictionary.ofList_sorted sorted]

theorem jsonItems_eq (place : Place) (index : Nat) (nodes : List Node) :
    Decoder.jsonItems place index nodes = Decoder.items Decoder.json place index nodes := by
  induction nodes generalizing index with
  | nil => rfl
  | cons node rest ih => simp only [Decoder.jsonItems, Decoder.items, ih]

theorem jsonEntries_eq (place : Place) (nodes : List (Node × Node)) :
    Decoder.jsonEntries place nodes =
      Decoder.entries Decoder.json "a string key" place nodes := by
  induction nodes with
  | nil => rfl
  | cons entry rest ih => simp only [Decoder.jsonEntries, Decoder.entries, ih]

@[simp]
theorem formless_none (place : Place) (unnamed : Cause) :
    Decoder.formless place none unnamed = .ok () :=
  rfl

theorem array {values : List Json} (each : ∀ v ∈ values, Gives depth Decoder.json (.ofJson v) v) :
    Gives (depth + 1) Decoder.json (.sequence none (values.map Node.ofJson) none)
      (.array values) := by
  intro place deep
  obtain ⟨inner, down, left⟩ := Place.descend_ok deep
  simp [Decoder.json, down, jsonItems_eq, items each left, Decoder.close, bind, Except.bind, pure,
    Except.pure]

theorem object {members : Dictionary Json} (sorted : members.Sorted)
    (each : ∀ e ∈ members, Gives depth Decoder.json (.ofJson e.2) e.2) :
    Gives (depth + 1) Decoder.json
      (.mapping none (members.map fun e => (.ofText e.1, .ofJson e.2)) none) (.object members) := by
  intro place deep
  obtain ⟨inner, down, left⟩ := Place.descend_ok deep
  simp [Decoder.json, down, jsonEntries_eq, entries each left, Decoder.close, bind, Except.bind,
    pure, Except.pure, Dictionary.ofList_sorted sorted]

end Gives

namespace Record

variable {entries : List (String × Node)} {place : Place} {fields : List FieldRule} {key : String}

/-- Where the fields of a record are found if they are the entries of a mapping. -/
def found (place : Place) (entries : List (String × Node)) : List Entry :=
  entries.map fun e => (e.1, place.entry e.1, e.2)

theorem lookupIn_found (distinct : (entries.map (·.1)).Nodup) (member : (key, node) ∈ entries) :
    lookupIn (found place entries) key = some (place.entry key, node) := by
  have unique : ((found place entries).map (·.1)).Nodup := by
    rw [found, List.map_map]
    exact distinct
  have found := Keyed.find?_of_mem unique (List.mem_map_of_mem member)
  rw [lookupIn, found]
  rfl

theorem lookupIn_missing (missing : key ∉ entries.map (·.1)) :
    lookupIn (found place entries) key = none := by
  have none : (found place entries).find? (fun e => e.1 = key) = none := by
    rw [List.find?_eq_none]
    intro e member
    obtain ⟨entry, isEntry, rfl⟩ := List.mem_map.mp member
    simpa using fun same => missing (List.mem_map.mpr ⟨entry, isEntry, same⟩)
  rw [lookupIn, none, Option.map_none]

/-- The entries of a mapping are kept if each is what its field asks for. -/
theorem collect_found (each : ∀ e ∈ entries, ∃ f, (fields.find? fun f => f.key = e.1) = some f ∧
      Gives depth f.check e.2 ()) (deep : depth ≤ place.depth)
    (distinct : (entries.map (·.1)).Nodup) {strict : Bool} {seen : List String}
    (fresh : ∀ e ∈ entries, e.1 ∉ seen) :
    collect strict fields place seen (entries.map fun e => (.ofText e.1, e.2)) =
      .ok (found place entries) := by
  induction entries generalizing seen with
  | nil => rfl
  | cons first more ih =>
      obtain ⟨⟨f, isField, gives⟩, others⟩ := List.forall_mem_cons.mp each
      obtain ⟨apart, distinct⟩ := List.nodup_cons.mp distinct
      have check := gives (place.entry first.1) deep
      have notSeen : first.1 ∉ seen := fresh first List.mem_cons_self
      have rest := @ih others distinct (first.1 :: seen) fun e member again => by
        rcases List.mem_cons.mp again with same | before
        · exact apart (List.mem_map.mpr ⟨e, member, same⟩)
        · exact fresh e (List.mem_cons_of_mem first member) before
      simp only [Node.ofText] at rest
      simp [collect, Decoder.name, Node.ofText, isField, notSeen, check, rest, bind, Except.bind,
        Pure.pure, Except.pure, found]

/-- A record makes up a value of the entries of a mapping. -/
structure Yields (depth : Nat) (entries : List (String × Node)) (r : Record α) (a : α) :
    Prop where
  check : ∀ f ∈ r.fields, ∀ node, (f.key, node) ∈ entries → Gives depth f.check node ()
  build : ∀ place inner : Place, depth ≤ inner.depth →
    r.build place (lookupIn (found inner entries)) = .ok a

namespace Yields

theorem pure (a : α) : Yields depth entries (Pure.pure a : Record α) a :=
  ⟨nofun, fun _ _ _ => rfl⟩

theorem seq {f : Record (α → β)} {g : α → β} {r : Record α} (hf : Yields depth entries f g)
    (hr : Yields depth entries r a) : Yields depth entries (f <*> r) (g a) where
  check rule member := (List.mem_append.mp member).elim (hf.check rule) (hr.check rule)
  build place inner deep := by
    change (Record.apply f r).build place _ = _
    simp only [Record.apply, hf.build place inner deep, hr.build place inner deep]
    rfl

/-- A field that may be absent has the value of its absence. -/
theorem absent (missing : key ∉ entries.map (·.1)) {absence : Absence}
    {fallback : Place → Except Failure α} (without : ∀ place, fallback place = .ok a) :
    Yields depth entries (Record.field key decode absence fallback) a where
  check rule isField node member := by
    obtain rfl := List.mem_singleton.mp isField
    exact absurd (List.mem_map_of_mem (f := (·.1)) member) missing
  build place inner deep := by
    rw [Record.field]
    simp only [lookupIn_missing missing]
    exact without place

section

variable (distinct : (entries.map (·.1)).Nodup) (member : (key, node) ∈ entries)
include distinct member

theorem field (gives : Gives depth decode node a) (absence : Absence)
    (absent : Place → Except Failure α) :
    Yields depth entries (Record.field key decode absence absent) a where
  check rule isField other isOther place deep := by
    obtain rfl := List.mem_singleton.mp isField
    obtain ⟨⟩ := List.inj_on_of_nodup_map distinct isOther member rfl
    simp only [checkOf, gives place deep]
    rfl
  build place inner deep := by
    rw [Record.field]
    simp only [lookupIn_found distinct member]
    exact gives _ deep

end

/-- A record is read from the mapping of its fields. -/
theorem gives {r : Record α} (h : Yields depth entries r a)
    (distinct : (entries.map (·.1)).Nodup) (known : ∀ e ∈ entries, e.1 ∈ r.keys)
    (name : String) :
    Gives (depth + 1) (r.read name)
      (.mapping none (entries.map fun e => (.ofText e.1, e.2)) none) a := by
  intro place deep
  obtain ⟨inner, down, left⟩ := Place.descend_ok deep
  have each : ∀ e ∈ entries, ∃ f, (r.fields.find? fun f => f.key = e.1) = some f ∧
      Gives depth f.check e.2 () := by
    intro e member
    obtain ⟨rule, isRule, same⟩ := List.mem_map.mp (known e member)
    have some : (r.fields.find? fun f => f.key = e.1).isSome :=
      List.find?_isSome.mpr ⟨rule, isRule, decide_eq_true same⟩
    obtain ⟨f, isField⟩ := Option.isSome_iff_exists.mp some
    have key : f.key = e.1 := by simpa using List.find?_some isField
    refine ⟨f, isField, h.check f (List.mem_of_find?_eq_some isField) e.2 ?_⟩
    rw [key]
    exact member
  have collected : collect false r.fields inner [] (entries.map fun e => (.ofText e.1, e.2)) =
      .ok (found inner entries) := collect_found each left distinct nofun
  simp [Record.read, Record.readAs, Decoder.mappingOf, down, Decoder.close, collected,
    h.build place inner left, bind, Except.bind]

end Yields

end Record

/-- A tagged value is read from its form and its content, written in this order. -/
theorem Tagged.Adjacent.gives {τ : Type} {t : Tagged.Adjacent τ α} {form : τ} {tag : Node}
    (apart : t.contentKey ≠ t.tagKey) (named : Gives depth t.tag tag form)
    (content : Gives depth (t.content form) node a) :
    Gives (depth + 1) t.read
      (.mapping none [(.ofText t.tagKey, tag), (.ofText t.contentKey, node)] none) a := by
  intro place deep
  obtain ⟨inner, down, left⟩ := Place.descend_ok deep
  have form := named (inner.entry t.tagKey) left
  have value := content (inner.entry t.contentKey) left
  simp [Tagged.Adjacent.read, Decoder.mappingOf, down, Tagged.Adjacent.readEntries, Decoder.name,
    Node.ofText, form, apart, value, Decoder.close, bind, Except.bind, Pure.pure, Except.pure]

end Qualification.Document
