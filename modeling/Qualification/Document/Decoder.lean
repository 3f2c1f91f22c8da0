import Qualification.Numeric.Word
import Qualification.Document.Failure
import Qualification.Document.Scalar

/-! # Reading a document tree

A decoder turns a tree into a value of a type. It goes through the tree in the order of
the text and stops at the first thing that is wrong.
-/

namespace Qualification.Document

/-- Where a decoder stands. -/
structure Place where
  dialect : Dialect
  /-- The path from the root; it is empty at the root. -/
  path : String
  /-- The path of the collection around it. -/
  enclosing : String
  depth : Nat
  /-- Is the tree a copy that was set aside before its type was known? -/
  buffered : Bool
  deriving Repr

/-- Reads a value of a type from a tree. -/
abbrev Decoder (α : Type) := Place → Node → Except Failure α

namespace Place

def root : Dialect → Place
  | .json => ⟨.json, "", "", 127, false⟩
  | .yaml => ⟨.yaml, "", "", 128, false⟩

def entry (place : Place) (key : String) : Place :=
  { place with
    path := if place.path.isEmpty then key else place.path ++ "." ++ key
    enclosing := place.path }

def item (place : Place) (index : Nat) : Place :=
  { place with path := place.path ++ "[" ++ index.repr ++ "]", enclosing := place.path }

def fail {α : Type} (place : Place) (cause : Cause) : Except Failure α :=
  .error (.data place.path cause)

/-- A failure that is noticed only by the collection around this place. -/
def failOutside {α : Type} (place : Place) (cause : Cause) : Except Failure α :=
  .error (.data place.enclosing cause)

def descend (place : Place) : Except Failure Place :=
  if place.buffered then .ok place
  else match place.depth with
    | 0 => .error (.fault .tooDeep)
    | depth + 1 => .ok { place with depth := depth }

end Place

/-- The failure of a decoder that a scalar does not suit. -/
def mistyped {α : Type} (place : Place) (atom : Atom) (expected : String) : Except Failure α :=
  place.fail (.invalidType (.atom atom) expected)

/-- The failure of a decoder that a tree does not suit. -/
def mismatch {α : Type} (place : Place) (node : Node) (expected : String) :
    Except Failure α :=
  match node with
  | .value atom => mistyped place atom expected
  | .written scalar =>
      match scalar.resolve with
      | .ok atom => mistyped place atom expected
      | .error cause => place.fail cause
  | .sequence _ _ _ => place.fail (.invalidType .sequence expected)
  | .mapping _ _ _ => place.fail (.invalidType .mapping expected)
  | .damaged fault _ => .error (.fault fault)

namespace Decoder

/-- Reads a string; a written scalar gives its characters. -/
def text : Decoder String := fun place node =>
  match node with
  | .value (.text s) => .ok s
  | .written scalar => .ok scalar.text
  | other => mismatch place other "a string"

def bool : Decoder Bool := fun place node =>
  match node with
  | .value (.bool b) => .ok b
  | .written scalar =>
      match scalar.asBool? with
      | some b => .ok b
      | none => mismatch place node "a boolean"
  | other => mismatch place other "a boolean"

def float : Decoder Float := fun place node =>
  match node with
  | .value (.integer n) =>
      if Word.holds 64 n then .ok (Binary64.ofInt n) else mismatch place node "f64"
  | .value (.float x) => .ok x
  | .written scalar =>
      match scalar.asFloat? with
      | some x => .ok x
      | none => mismatch place node "f64"
  | other => mismatch place other "f64"

def natBelow (bound : Nat) (expected : String) : Decoder Nat := fun place node =>
  let settle (n : Int) : Except Failure Nat :=
    if 0 ≤ n && n < bound then .ok n.toNat
    else place.fail (.invalidValue (.atom (.integer n)) expected)
  match node with
  | .value (.integer n) =>
      if n < Word.count 64 then settle n else mismatch place node expected
  | .written scalar =>
      match scalar.asNatural? with
      | some n => settle n
      | none => mismatch place node expected
  | other => mismatch place other expected

def count32 : Decoder Nat :=
  natBelow (Word.count 32) "u32"

def count64 : Decoder Nat :=
  natBelow (Word.count 64) "usize"

def optional {α : Type} (decode : Decoder α) : Decoder (Option α) := fun place node =>
  match node with
  | .value .null => .ok none
  | .written scalar => if scalar.isAbsent then .ok none else (decode place node).map some
  | _ => (decode place node).map some

/-- Reads items in order, from a given position on. -/
def items {α : Type} (decode : Decoder α) (place : Place) :
    Nat → List Node → Except Failure (List α)
  | _, [] => .ok []
  | index, node :: rest => do
      let head ← decode (place.item index) node
      let tail ← items decode place (index + 1) rest
      return head :: tail

/-- The failure of a sequence or mapping that does not end. -/
def close (cut : Option Fault) : Except Failure Unit :=
  match cut with
  | none => .ok ()
  | some fault => .error (.fault fault)

/-- The items of a tree that is read as a sequence; an empty scalar has none. -/
def sequenceOf (place : Place) (node : Node) (expected : String) :
    Except Failure (List Node × Option Fault) :=
  match node with
  | .sequence _ nodes cut => .ok (nodes, cut)
  | .written scalar =>
      if scalar.isEmptyPlain then .ok ([], none) else mismatch place node expected
  | other => mismatch place other expected

/-- The entries of a tree that is read as a mapping; an empty scalar has none. -/
def mappingOf (place : Place) (node : Node) (expected : String) :
    Except Failure (List (Node × Node) × Option Fault) :=
  match node with
  | .mapping _ entries cut => .ok (entries, cut)
  | .written scalar =>
      if scalar.isEmptyPlain then .ok ([], none) else mismatch place node expected
  | other => mismatch place other expected

def list {α : Type} (decode : Decoder α) : Decoder (List α) := fun place node => do
  let (nodes, cut) ← sequenceOf place node "a sequence"
  let inner ← place.descend
  let values ← items decode inner 0 nodes
  close cut
  return values

def name (expected : String) : Decoder String := fun place node =>
  match node with
  | .value (.text s) => .ok s
  | .written scalar => .ok scalar.text
  | other => mismatch place other expected

def entries {α : Type} (decode : Decoder α) (expected : String) (place : Place) :
    List (Node × Node) → Except Failure (List (String × α))
  | [] => .ok []
  | (key, node) :: rest => do
      let name ← name expected place key
      let value ← decode (place.entry name) node
      let tail ← entries decode expected place rest
      return (name, value) :: tail

/-- Reads a mapping with names of any kind; of two entries of one name the later wins. -/
def dictionary {α : Type} (decode : Decoder α) : Decoder (Dictionary α) :=
  fun place node => do
    let (nodes, cut) ← mappingOf place node "a map"
    let inner ← place.descend
    let found ← entries decode "a string" inner nodes
    close cut
    return Dictionary.ofList found

/-- The value of a settled scalar; a whole number must fit 64 bits. -/
def atomJson (place : Place) : Atom → Except Failure Json
  | .null => .ok .null
  | .bool b => .ok (.bool b)
  | .integer n =>
      if Word.holds 64 n then .ok (.integer n)
      else place.fail (.refused "JSON number out of range")
  | .float x => .ok (.ofFloat x)
  | .text s => .ok (.text s)

/-- Settle a scalar whose type nobody asks for. A tag of the document's own names a form,
    and such a reader knows none. -/
def settle (place : Place) (scalar : Written) (unnamed : Cause) : Except Failure Atom :=
  match scalar.tag with
  | .named _ => place.fail unnamed
  | _ =>
      match scalar.resolve with
      | .ok atom => .ok atom
      | .error cause => place.fail cause

/-- A sequence or a mapping whose form nobody asks for may name none. -/
def formless (place : Place) (form : Option String) (unnamed : Cause) : Except Failure Unit :=
  match form with
  | some _ => place.fail unnamed
  | none => .ok ()

/-- A form where any JSON value is read. -/
def notJson : Cause :=
  .refused "invalid type: enum, expected any valid JSON value"

mutual

def json (place : Place) : Node → Except Failure Json
  | .value atom => atomJson place atom
  | .written scalar => do
      let atom ← settle place scalar notJson
      atomJson place atom
  | .sequence form nodes cut => do
      formless place form notJson
      let inner ← place.descend
      let values ← jsonItems inner 0 nodes
      close cut
      return .array values
  | .mapping form nodes cut => do
      formless place form notJson
      let inner ← place.descend
      let members ← jsonEntries inner nodes
      close cut
      return .object (Dictionary.ofList members)
  | .damaged fault _ => .error (.fault fault)

def jsonItems (place : Place) (index : Nat) : List Node → Except Failure (List Json)
  | [] => .ok []
  | node :: rest => do
      let head ← json (place.item index) node
      let tail ← jsonItems place (index + 1) rest
      return head :: tail

def jsonEntries (place : Place) : List (Node × Node) → Except Failure (List (String × Json))
  | [] => .ok []
  | (key, node) :: rest => do
      let name ← name "a string key" place key
      let value ← json (place.entry name) node
      let tail ← jsonEntries place rest
      return (name, value) :: tail

end

/-- A form in a tree that is set aside. -/
def notBuffered : Cause :=
  .refused "untagged and internally tagged enums do not support enum input"

mutual

/-- Sets a tree aside before its type is known: every scalar is settled, and the tree has
    no fault left. -/
def buffer (place : Place) : Node → Except Failure Node
  | .value atom => .ok (.value atom)
  | .written scalar => do
      let atom ← settle place scalar notBuffered
      return .value atom
  | .sequence form nodes cut => do
      formless place form notBuffered
      let inner ← place.descend
      let settled ← bufferItems inner 0 nodes
      close cut
      return .sequence none settled none
  | .mapping form nodes cut => do
      formless place form notBuffered
      let inner ← place.descend
      let settled ← bufferEntries inner nodes
      close cut
      return .mapping none settled none
  | .damaged fault _ => .error (.fault fault)

def bufferItems (place : Place) (index : Nat) : List Node → Except Failure (List Node)
  | [] => .ok []
  | node :: rest => do
      let head ← buffer (place.item index) node
      let tail ← bufferItems place (index + 1) rest
      return head :: tail

def bufferEntries (place : Place) :
    List (Node × Node) → Except Failure (List (Node × Node))
  | [] => .ok []
  | (key, node) :: rest => do
      let settledKey ← buffer place key
      let name := match settledKey with
        | .value (.text s) => s
        | _ => "?"
      let settled ← buffer (place.entry name) node
      let tail ← bufferEntries place rest
      return (settledKey, settled) :: tail

end

end Decoder

/-- Decode a whole text: the tree first, then whatever stands behind it. -/
def Source.decode {α : Type} (dialect : Dialect) (decode : Decoder α) (source : Source) :
    Except Failure α := do
  let value ← decode (Place.root dialect) source.root
  Decoder.close source.rest
  return value

end Qualification.Document
