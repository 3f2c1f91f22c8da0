import Qualification.Proofs.Document.Sound
import Qualification.Yaml.Tree

/-! # YAML values of unknown shape

What a YAML document says to a reader that takes anything: scalars of their own types, sequences
and mappings. A mapping has each key once, and a tag of the document's own stays with its value.
-/

namespace Qualification.Yaml

open Document

/-- A value of a YAML document. -/
inductive Value where
  | atom (a : Atom)
  | sequence (items : List Value)
  | mapping (entries : List (Value × Value))
  | tagged (name : String) (value : Value)

namespace Value

/-- Are two scalars the same value? There is one value that is not a number. -/
def sameAtom : Atom → Atom → Bool
  | .null, .null => true
  | .bool a, .bool b => a == b
  | .integer m, .integer n => m == n
  | .float x, .float y => x == y || x.isNaN && y.isNaN
  | .text s, .text t => s == t
  | _, _ => false

mutual

/-- Are two values the same, mappings whatever the order of their entries? -/
def same : Value → Value → Bool
  | .atom a, .atom b => sameAtom a b
  | .sequence items, .sequence others => sameItems items others
  | .mapping entries, .mapping others =>
      entries.length == others.length && sameEntries entries others
  | .tagged name value, .tagged other others => name == other && same value others
  | _, _ => false

def sameItems : List Value → List Value → Bool
  | [], [] => true
  | item :: rest, other :: others => same item other && sameItems rest others
  | _, _ => false

/-- Is each entry also one of the others? -/
def sameEntries : List (Value × Value) → List (Value × Value) → Bool
  | [], _ => true
  | (key, value) :: rest, others =>
      (others.any fun e => same key e.1 && same value e.2) && sameEntries rest others

end

def ofAtom? (a : Atom) : Option Value :=
  if a.fits then some (.atom a) else none

/-- A scalar has the type that its text or its tag gives it. -/
def ofWritten? (scalar : Written) : Option Value :=
  match scalar.resolve with
  | .error _ => none
  | .ok a =>
      match scalar.tag with
      | .named name => (ofAtom? a).map (.tagged name)
      | _ => ofAtom? a

/-- A tag of the document's own stays with its value. -/
def named (form : Option String) (value : Value) : Value :=
  match form with
  | some name => .tagged name value
  | none => value

mutual

/-- The value of a tree of no more levels than given. -/
def ofNode? : Nat → Node → Option Value
  | _, .value a => ofAtom? a
  | _, .written scalar => ofWritten? scalar
  | depth + 1, .sequence form nodes none =>
      (ofItems? depth nodes).map fun items => named form (.sequence items)
  | depth + 1, .mapping form nodes none =>
      (ofEntries? depth [] nodes).map fun entries => named form (.mapping entries)
  | _, _ => none

def ofItems? : Nat → List Node → Option (List Value)
  | _, [] => some []
  | depth, node :: rest => do
      let item ← ofNode? depth node
      let items ← ofItems? depth rest
      return item :: items

/-- The entries of a mapping; none may have a key that was there before. -/
def ofEntries? : Nat → List Value → List (Node × Node) → Option (List (Value × Value))
  | _, _, [] => some []
  | depth, before, (key, node) :: rest => do
      let name ← ofNode? depth key
      if before.any (same name) then none
      else
        let value ← ofNode? depth node
        let entries ← ofEntries? depth (name :: before) rest
        return (name, value) :: entries

end

/-- The value that a whole text holds. -/
def ofText? (text : String) : Option Value :=
  if (source text).rest.isSome then none
  else ofNode? (Place.root .yaml).depth (source text).root

variable {a : Atom} {scalar : Written} {value : Value} {depth : Nat}

theorem fits_of_ofAtom? (h : ofAtom? a = some value) : a.fits := by
  unfold ofAtom? at h
  split at h
  · assumption
  · cases h

theorem settled_of_ofWritten? (h : ofWritten? scalar = some value) : scalar.Settled := by
  unfold ofWritten? at h
  split at h
  · cases h
  · rename_i a resolved
    refine ⟨a, resolved, ?_⟩
    split at h
    · obtain ⟨_, h, -⟩ := Option.map_eq_some_iff.mp h
      exact fits_of_ofAtom? h
    · exact fits_of_ofAtom? h

mutual

/-- A tree that has a value is sound. -/
theorem sound : ∀ (node : Node) {depth : Nat} {value : Value},
    ofNode? depth node = some value → Sound .yaml depth node
  | .value _, _, _, h => by
      rw [ofNode?] at h
      exact .value fun _ => fits_of_ofAtom? h
  | .written _, _, _, h => by
      rw [ofNode?] at h
      exact .written fun _ => settled_of_ofWritten? h
  | .sequence _ nodes none, depth + 1, _, h => by
      obtain ⟨_, h, -⟩ := Option.map_eq_some_iff.mp h
      exact .sequence (soundItems nodes h)
  | .mapping _ nodes none, depth + 1, _, h => by
      obtain ⟨_, h, -⟩ := Option.map_eq_some_iff.mp h
      have each := soundEntries nodes h
      exact .mapping (fun e member => (each e member).1) fun e member => (each e member).2
  | .sequence _ _ (some _), _, _, h => by simp [ofNode?] at h
  | .sequence _ _ none, 0, _, h => by simp [ofNode?] at h
  | .mapping _ _ (some _), _, _, h => by simp [ofNode?] at h
  | .mapping _ _ none, 0, _, h => by simp [ofNode?] at h
  | .damaged _ _, _, _, h => by simp [ofNode?] at h

theorem soundItems : ∀ (nodes : List Node) {depth : Nat} {items : List Value},
    ofItems? depth nodes = some items → ∀ node ∈ nodes, Sound .yaml depth node
  | [], _, _, _ => nofun
  | node :: rest, _, _, h => by
      obtain ⟨item, first, h⟩ := Option.bind_eq_some_iff.mp h
      obtain ⟨items, others, -⟩ := Option.bind_eq_some_iff.mp h
      exact List.forall_mem_cons.mpr ⟨sound node first, soundItems rest others⟩

theorem soundEntries : ∀ (nodes : List (Node × Node)) {depth : Nat} {before : List Value}
    {entries : List (Value × Value)}, ofEntries? depth before nodes = some entries →
      ∀ e ∈ nodes, Sound .yaml depth e.1 ∧ Sound .yaml depth e.2
  | [], _, _, _, _ => nofun
  | (key, node) :: rest, _, _, _, h => by
      obtain ⟨name, named, h⟩ := Option.bind_eq_some_iff.mp h
      split at h
      · cases h
      · obtain ⟨value, first, h⟩ := Option.bind_eq_some_iff.mp h
        obtain ⟨entries, others, -⟩ := Option.bind_eq_some_iff.mp h
        exact List.forall_mem_cons.mpr
          ⟨⟨sound key named, sound node first⟩, soundEntries rest others⟩

end

/-- A text that holds a value has a sound tree and nothing behind it. -/
theorem sound_of_ofText? {text : String} (h : ofText? text = some value) :
    (source text).rest = none ∧ (Place.root .yaml).Sees (source text).root := by
  unfold ofText? at h
  split at h
  · cases h
  · rename_i ended
    exact ⟨Option.not_isSome_iff_eq_none.mp ended, rfl, sound _ h⟩

end Value

end Qualification.Yaml
