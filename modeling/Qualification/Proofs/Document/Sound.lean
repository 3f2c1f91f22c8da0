import Qualification.Proofs.Json.Storable
import Qualification.Proofs.Refusal

/-! # Sound trees

A tree is sound if its text is well formed throughout and it has no more levels than a reader
goes down. In YAML each scalar also has a type that its characters suit. A text that is read
whatever its shape has a sound tree; what a reader of one shape finds wrong with it is the shape.
What a sound tree holds has no more levels than the tree, even where a reader no longer counts
them.
-/

namespace Qualification.Document

open Json

variable {dialect : Dialect} {depth : Nat} {node : Node} {place : Place}

/-- A place of a text, at which no tree was set aside, with so many levels left below it. -/
structure Place.Reads (place : Place) (depth : Nat) : Prop where
  unbuffered : place.buffered = false
  depth : place.depth = depth

theorem Place.reads_root (dialect : Dialect) :
    (Place.root dialect).Reads (Place.root dialect).depth := by
  cases dialect <;> exact ⟨rfl, rfl⟩

theorem Place.Reads.descend {place inner : Place} {depth : Nat} (reads : place.Reads depth)
    (down : place.descend = .ok inner) : ∃ less, depth = less + 1 ∧ inner.Reads less := by
  unfold Place.descend at down
  rw [if_neg (by simp [reads.unbuffered])] at down
  split at down
  · cases down
  · rename_i less left
    cases down
    exact ⟨less, reads.depth.symm.trans left, reads.unbuffered, rfl⟩

theorem Place.Reads.item {place : Place} {depth : Nat} (reads : place.Reads depth)
    (index : Nat) : (place.item index).Reads depth :=
  ⟨reads.unbuffered, reads.depth⟩

theorem Place.Reads.entry {place : Place} {depth : Nat} (reads : place.Reads depth)
    (key : String) : (place.entry key).Reads depth :=
  ⟨reads.unbuffered, reads.depth⟩

/-- Nothing is read of a tree of another kind. -/
theorem mismatch_ne_ok {α : Type} {expected : String} {a : α} :
    mismatch place node expected ≠ .ok a := by
  intro h
  unfold mismatch at h
  split at h
  · cases h
  · split at h <;> cases h
  · cases h
  · cases h
  · cases h

theorem Decoder.atomJson_storable {atom : Atom} {v : Json} (h : atomJson place atom = .ok v) :
    v.Storable depth := by
  cases atom with
  | null =>
      cases h
      exact .null
  | bool b =>
      cases h
      exact .bool b
  | integer n =>
      rw [atomJson] at h
      split at h
      · rename_i held
        cases h
        exact .integer held
      · cases h
  | float x =>
      cases h
      unfold ofFloat
      split
      · rename_i finite
        exact .float finite
      · exact .null
  | text s =>
      cases h
      exact .text s

/-- Does an integer fit a word of 64 bits? Other atoms have no width. -/
def Atom.fits : Atom → Bool
  | .integer n => Word.holds 64 n
  | _ => true

/-- A scalar suits its tag, if it has one. -/
def Written.Settled (scalar : Written) : Prop :=
  ∃ a, scalar.resolve = .ok a ∧ a.fits

/-- A tree without faults, of no more levels than given, whatever forms are named in it. -/
inductive Sound (dialect : Dialect) : Nat → Node → Prop where
  | value {depth : Nat} {a : Atom} : (dialect = .yaml → a.fits) → Sound dialect depth (.value a)
  | written {depth : Nat} {scalar : Written} : (dialect = .yaml → scalar.Settled) →
      Sound dialect depth (.written scalar)
  | sequence {depth : Nat} {form : Option String} {nodes : List Node} :
      (∀ node ∈ nodes, Sound dialect depth node) →
      Sound dialect (depth + 1) (.sequence form nodes none)
  | mapping {depth : Nat} {form : Option String} {nodes : List (Node × Node)} :
      (∀ e ∈ nodes, Sound dialect depth e.1) → (∀ e ∈ nodes, Sound dialect depth e.2) →
      Sound dialect (depth + 1) (.mapping form nodes none)

namespace Sound

mutual

/-- Nothing is met when a sound tree is passed over. -/
theorem skip : ∀ {node : Node} {depth : Nat}, Sound dialect depth node → node.skip = none
  | .value _, _, _ => rfl
  | .written _, _, _ => rfl
  | .sequence _ nodes _, _, .sequence each => by
      rw [Node.skip, skipItems each]
      rfl
  | .mapping _ nodes _, _, .mapping keys values => by
      rw [Node.skip, skipEntries keys values]
      rfl

theorem skipItems : ∀ {nodes : List Node} {depth : Nat},
    (∀ node ∈ nodes, Sound dialect depth node) → Node.skipItems nodes = none
  | [], _, _ => rfl
  | node :: rest, _, each => by
      obtain ⟨head, tail⟩ := List.forall_mem_cons.mp each
      rw [Node.skipItems, skip head, skipItems tail]
      rfl

theorem skipEntries : ∀ {nodes : List (Node × Node)} {depth : Nat},
    (∀ e ∈ nodes, Sound dialect depth e.1) → (∀ e ∈ nodes, Sound dialect depth e.2) →
      Node.skipEntries nodes = none
  | [], _, _, _ => rfl
  | (key, node) :: rest, _, keys, values => by
      obtain ⟨key, keys⟩ := List.forall_mem_cons.mp keys
      obtain ⟨value, values⟩ := List.forall_mem_cons.mp values
      rw [Node.skipEntries, skip key, skip value, skipEntries keys values]
      rfl

end

theorem name {expected s : String} (h : Decoder.name expected place node = .ok s) :
    Sound .json depth node := by
  unfold Decoder.name at h
  split at h
  · exact .value nofun
  · exact .written nofun
  · rename_i other notText notWritten
    unfold mismatch at h
    split at h
    · exact .value nofun
    · exact .written nofun
    all_goals cases h

mutual

/-- A tree that is read as JSON of any shape is sound. -/
theorem json : ∀ (node : Node) {place : Place} {depth : Nat} {v : Json}, place.Reads depth →
    Decoder.json place node = .ok v → Sound .json depth node
  | .value _, _, _, _, _, _ => .value nofun
  | .written _, _, _, _, _, _ => .written nofun
  | .sequence form nodes cut, _, _, _, reads, h => by
      obtain ⟨_, _, h⟩ := bind_ok h
      obtain ⟨inner, down, h⟩ := bind_ok h
      obtain ⟨values, read, h⟩ := bind_ok h
      obtain ⟨_, closed, _⟩ := bind_ok h
      obtain ⟨less, rfl, deeper⟩ := reads.descend down
      cases cut with
      | some fault => cases closed
      | none => exact .sequence (jsonItems nodes deeper read)
  | .mapping form nodes cut, _, _, _, reads, h => by
      obtain ⟨_, _, h⟩ := bind_ok h
      obtain ⟨inner, down, h⟩ := bind_ok h
      obtain ⟨members, read, h⟩ := bind_ok h
      obtain ⟨_, closed, _⟩ := bind_ok h
      obtain ⟨less, rfl, deeper⟩ := reads.descend down
      cases cut with
      | some fault => cases closed
      | none =>
          have each := jsonEntries nodes deeper read
          exact .mapping (fun e member => (each e member).1) fun e member => (each e member).2
  | .damaged fault _, _, _, _, _, h => nomatch h

theorem jsonItems : ∀ (nodes : List Node) {place : Place} {depth index : Nat}
    {values : List Json}, place.Reads depth → Decoder.jsonItems place index nodes = .ok values →
      ∀ node ∈ nodes, Sound .json depth node
  | [], _, _, _, _, _, _ => nofun
  | node :: rest, _, _, _, _, reads, h => by
      obtain ⟨head, first, h⟩ := bind_ok h
      obtain ⟨tail, others, _⟩ := bind_ok h
      exact List.forall_mem_cons.mpr
        ⟨json node (reads.item _) first, jsonItems rest reads others⟩

theorem jsonEntries : ∀ (nodes : List (Node × Node)) {place : Place} {depth : Nat}
    {members : List (String × Json)}, place.Reads depth →
      Decoder.jsonEntries place nodes = .ok members →
        ∀ e ∈ nodes, Sound .json depth e.1 ∧ Sound .json depth e.2
  | [], _, _, _, _, _ => nofun
  | (key, node) :: rest, _, _, _, reads, h => by
      obtain ⟨s, named, h⟩ := bind_ok h
      obtain ⟨value, first, h⟩ := bind_ok h
      obtain ⟨tail, others, _⟩ := bind_ok h
      exact List.forall_mem_cons.mpr
        ⟨⟨name named, json node (reads.entry s) first⟩, jsonEntries rest reads others⟩

end

mutual

/-- What is read of a sound tree has no more levels than it, and a text that gives it back. -/
theorem storable : ∀ (node : Node) {depth : Nat} {place : Place} {v : Json},
    Sound .json depth node → Decoder.json place node = .ok v → v.Storable depth
  | .value _, _, _, _, _, h => Decoder.atomJson_storable h
  | .written _, _, _, _, _, h => by
      obtain ⟨_, _, h⟩ := bind_ok h
      exact Decoder.atomJson_storable h
  | .sequence _ nodes _, _, _, _, sound, h => by
      cases sound with
      | sequence each =>
          obtain ⟨_, _, h⟩ := bind_ok h
          obtain ⟨_, _, h⟩ := bind_ok h
          obtain ⟨values, read, h⟩ := bind_ok h
          obtain ⟨_, _, h⟩ := bind_ok h
          cases h
          exact .array (storableItems nodes each read)
  | .mapping _ nodes _, _, _, _, sound, h => by
      cases sound with
      | mapping _ each =>
          obtain ⟨_, _, h⟩ := bind_ok h
          obtain ⟨_, _, h⟩ := bind_ok h
          obtain ⟨members, read, h⟩ := bind_ok h
          obtain ⟨_, _, h⟩ := bind_ok h
          cases h
          refine .object (Dictionary.sorted_ofList members) fun e member => ?_
          exact storableEntries nodes each read e (Dictionary.mem_of_mem_ofList member)
  | .damaged _ _, _, _, _, _, h => nomatch h

theorem storableItems : ∀ (nodes : List Node) {depth index : Nat} {place : Place}
    {values : List Json}, (∀ node ∈ nodes, Sound .json depth node) →
      Decoder.jsonItems place index nodes = .ok values → ∀ v ∈ values, v.Storable depth
  | [], _, _, _, _, _, h => by
      cases h
      exact nofun
  | node :: rest, _, _, _, _, each, h => by
      obtain ⟨head, tail⟩ := List.forall_mem_cons.mp each
      obtain ⟨first, read, h⟩ := bind_ok h
      obtain ⟨others, more, h⟩ := bind_ok h
      cases h
      exact List.forall_mem_cons.mpr ⟨storable node head read, storableItems rest tail more⟩

theorem storableEntries : ∀ (nodes : List (Node × Node)) {depth : Nat} {place : Place}
    {members : List (String × Json)}, (∀ e ∈ nodes, Sound .json depth e.2) →
      Decoder.jsonEntries place nodes = .ok members → ∀ e ∈ members, e.2.Storable depth
  | [], _, _, _, _, h => by
      cases h
      exact nofun
  | (key, node) :: rest, _, _, _, each, h => by
      obtain ⟨head, tail⟩ := List.forall_mem_cons.mp each
      obtain ⟨_, _, h⟩ := bind_ok h
      obtain ⟨first, read, h⟩ := bind_ok h
      obtain ⟨others, more, h⟩ := bind_ok h
      cases h
      exact List.forall_mem_cons.mpr ⟨storable node head read, storableEntries rest tail more⟩

end

mutual

/-- A tree that was set aside is sound. -/
theorem buffer : ∀ (node : Node) {place : Place} {depth : Nat} {settled : Node},
    place.Reads depth → Decoder.buffer place node = .ok settled → Sound .json depth settled
  | .value _, _, _, _, _, h => by
      cases h
      exact .value nofun
  | .written _, _, _, _, _, h => by
      obtain ⟨_, _, h⟩ := bind_ok h
      cases h
      exact .value nofun
  | .sequence _ nodes _, _, _, _, reads, h => by
      obtain ⟨_, _, h⟩ := bind_ok h
      obtain ⟨inner, down, h⟩ := bind_ok h
      obtain ⟨items, read, h⟩ := bind_ok h
      obtain ⟨_, _, h⟩ := bind_ok h
      cases h
      obtain ⟨less, rfl, deeper⟩ := reads.descend down
      exact .sequence (bufferItems nodes deeper read)
  | .mapping _ nodes _, _, _, _, reads, h => by
      obtain ⟨_, _, h⟩ := bind_ok h
      obtain ⟨inner, down, h⟩ := bind_ok h
      obtain ⟨entries, read, h⟩ := bind_ok h
      obtain ⟨_, _, h⟩ := bind_ok h
      cases h
      obtain ⟨less, rfl, deeper⟩ := reads.descend down
      have each := bufferEntries nodes deeper read
      exact .mapping (fun e member => (each e member).1) fun e member => (each e member).2
  | .damaged _ _, _, _, _, _, h => nomatch h

theorem bufferItems : ∀ (nodes : List Node) {place : Place} {depth index : Nat}
    {settled : List Node}, place.Reads depth →
      Decoder.bufferItems place index nodes = .ok settled → ∀ node ∈ settled, Sound .json depth node
  | [], _, _, _, _, _, h => by
      cases h
      exact nofun
  | node :: rest, _, _, _, _, reads, h => by
      obtain ⟨head, first, h⟩ := bind_ok h
      obtain ⟨tail, others, h⟩ := bind_ok h
      cases h
      exact List.forall_mem_cons.mpr
        ⟨buffer node (reads.item _) first, bufferItems rest reads others⟩

theorem bufferEntries : ∀ (nodes : List (Node × Node)) {place : Place} {depth : Nat}
    {settled : List (Node × Node)}, place.Reads depth →
      Decoder.bufferEntries place nodes = .ok settled →
        ∀ e ∈ settled, Sound .json depth e.1 ∧ Sound .json depth e.2
  | [], _, _, _, _, h => by
      cases h
      exact nofun
  | (key, node) :: rest, _, _, _, reads, h => by
      obtain ⟨settledKey, first, h⟩ := bind_ok h
      obtain ⟨value, second, h⟩ := bind_ok h
      obtain ⟨tail, others, h⟩ := bind_ok h
      cases h
      exact List.forall_mem_cons.mpr
        ⟨⟨buffer key reads first, buffer node (reads.entry _) second⟩,
          bufferEntries rest reads others⟩

end

end Sound

/-- A place of a text from which on the tree is sound. -/
structure Place.Sees (place : Place) (node : Node) : Prop where
  unbuffered : place.buffered = false
  sound : Sound place.dialect place.depth node

/-- A place one level below another one. -/
structure Place.Above (place inner : Place) : Prop where
  down : place.descend = .ok inner
  dialect : inner.dialect = place.dialect
  depth : place.depth = inner.depth + 1

theorem Place.exists_above (unbuffered : place.buffered = false) (left : 0 < place.depth) :
    ∃ inner, place.Above inner ∧ inner.buffered = false := by
  obtain ⟨depth, left⟩ := Nat.exists_eq_add_of_lt left
  rw [Nat.zero_add] at left
  refine ⟨{ place with depth := depth }, ⟨?_, rfl, left⟩, unbuffered⟩
  rw [Place.descend, unbuffered, left]
  rfl

namespace Place.Sees

theorem item (sees : place.Sees node) (index : Nat) : (place.item index).Sees node :=
  ⟨sees.unbuffered, sees.sound⟩

theorem entry (sees : place.Sees node) (key : String) : (place.entry key).Sees node :=
  ⟨sees.unbuffered, sees.sound⟩

theorem settled {scalar : Written} (sees : place.Sees (.written scalar))
    (isYaml : place.dialect = .yaml) : scalar.Settled := by
  obtain ⟨-, sound⟩ := sees
  generalize place.depth = levels at sound
  cases sound with
  | written settled => exact settled isYaml

theorem fits {a : Atom} (sees : place.Sees (.value a)) (isYaml : place.dialect = .yaml) :
    a.fits := by
  obtain ⟨-, sound⟩ := sees
  generalize place.depth = levels at sound
  cases sound with
  | value fits => exact fits isYaml

theorem not_damaged {onRead : Fault} {onSkip : Option Fault} :
    ¬ place.Sees (.damaged onRead onSkip) := by
  rintro ⟨-, sound⟩
  generalize place.depth = levels at sound
  cases sound

/-- The items of a sound sequence are sound, one level down. -/
theorem sequence {form : Option String} {nodes : List Node} {cut : Option Fault}
    (sees : place.Sees (.sequence form nodes cut)) :
    cut = none ∧ ∃ inner, place.Above inner ∧ ∀ node ∈ nodes, inner.Sees node := by
  obtain ⟨unbuffered, sound⟩ := sees
  generalize left : place.depth = levels at sound
  cases sound with
  | sequence each =>
      obtain ⟨inner, above, still⟩ := exists_above unbuffered (by omega)
      obtain rfl := Nat.succ.inj (left.symm.trans above.depth)
      exact ⟨rfl, inner, above, fun node member => ⟨still, above.dialect ▸ each node member⟩⟩

/-- The keys and the values of a sound mapping are sound, one level down. -/
theorem mapping {form : Option String} {nodes : List (Node × Node)} {cut : Option Fault}
    (sees : place.Sees (.mapping form nodes cut)) : cut = none ∧
      ∃ inner, place.Above inner ∧ ∀ e ∈ nodes, inner.Sees e.1 ∧ inner.Sees e.2 := by
  obtain ⟨unbuffered, sound⟩ := sees
  generalize left : place.depth = levels at sound
  cases sound with
  | mapping keys values =>
      obtain ⟨inner, above, still⟩ := exists_above unbuffered (by omega)
      obtain rfl := Nat.succ.inj (left.symm.trans above.depth)
      exact ⟨rfl, inner, above, fun e member =>
        ⟨⟨still, above.dialect ▸ keys e member⟩, ⟨still, above.dialect ▸ values e member⟩⟩⟩

end Place.Sees

end Qualification.Document
