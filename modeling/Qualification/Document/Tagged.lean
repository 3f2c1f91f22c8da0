import Qualification.Document.Record

/-! # Reading tagged values

A type with several forms carries the name of the form in a field. Either the content
stands in a field beside it, or the fields of the form do. What comes before the name is
set aside until the form is known.
-/

namespace Qualification.Document.Tagged

variable {τ α : Type}

/-- How the fields of a tagged value are named and read. -/
structure Adjacent (τ α : Type) where
  /-- What a reader of the type expects, in words. -/
  expected : String
  tagKey : String
  contentKey : String
  tag : Decoder τ
  content : τ → Decoder α

/-- How far a tagged value is read. -/
inductive Progress (τ α : Type) where
  | start
  | named (form : τ)
  | held (node : Node)
  | done (value : α)

/-- Go on through the entries of a tagged value. -/
def Adjacent.readEntries (a : Adjacent τ α) (place : Place) (cut : Option Fault) :
    Progress τ α → List (Node × Node) → Except Failure α
  | progress, [] => do
      Decoder.close cut
      match progress with
      | .start | .held _ => place.fail (.missingField a.tagKey)
      | .named _ => place.fail (.missingField a.contentKey)
      | .done value => return value
  | progress, (key, node) :: rest => do
      let name ← Decoder.name "field identifier" place key
      if name = a.tagKey then
        match progress with
        | .named _ | .done _ => place.fail (.duplicateField a.tagKey)
        | .start => do
            let form ← a.tag (place.entry name) node
            a.readEntries place cut (.named form) rest
        | .held content => do
            let form ← a.tag (place.entry name) node
            let value ← a.content form { place with buffered := true } content
            a.readEntries place cut (.done value) rest
      else if name = a.contentKey then
        match progress with
        | .held _ | .done _ => place.fail (.duplicateField a.contentKey)
        | .start => do
            let settled ← Decoder.buffer (place.entry name) node
            a.readEntries place cut (.held settled) rest
        | .named form => do
            let value ← a.content form (place.entry name) node
            a.readEntries place cut (.done value) rest
      else
        Decoder.close node.skip
        a.readEntries place cut progress rest

/-- Read a tagged value: a mapping, or a sequence of name and content. -/
def Adjacent.read (a : Adjacent τ α) : Decoder α := fun place node =>
  match node with
  | .sequence _ nodes cut => do
      let inner ← place.descend
      match nodes with
      | [] =>
          Decoder.close cut
          place.fail (.invalidLength 0 a.expected)
      | first :: rest => do
          let form ← a.tag (inner.item 0) first
          match rest with
          | [] =>
              Decoder.close cut
              place.fail (.invalidLength 1 a.expected)
          | second :: _ => do
              let value ← a.content form (inner.item 1) second
              Record.closeItems place 2 nodes cut
              return value
  | _ => do
      let (entries, cut) ← Decoder.mappingOf place node a.expected
      let inner ← place.descend
      a.readEntries inner cut .start entries

/-- How a value is read whose form is named among its own fields. -/
structure Internal (τ α : Type) where
  /-- What a reader of the type expects, in words. -/
  expected : String
  tagKey : String
  tag : Decoder τ
  /-- Reads the other fields of a form. -/
  content : τ → Decoder α

def isNamed (key : Node) (name : String) : Bool :=
  match key with
  | .value (.text s) => s == name
  | .written scalar => scalar.text == name
  | _ => false

/-- Take the name out of the entries and set the others aside. -/
def Internal.split (t : Internal τ α) (place : Place) :
    Option τ → List (Node × Node) → Except Failure (Option τ × List (Node × Node))
  | form, [] => .ok (form, [])
  | form, (key, node) :: rest =>
      if isNamed key t.tagKey then
        match form with
        | some _ => place.fail (.duplicateField t.tagKey)
        | none => do
            let found ← t.tag (place.entry t.tagKey) node
            t.split place (some found) rest
      else do
        let settled ← Decoder.bufferEntries place [(key, node)]
        let (found, others) ← t.split place form rest
        return (found, settled ++ others)

/-- Read a value whose form is named among its fields, or first in a sequence. -/
def Internal.read (t : Internal τ α) : Decoder α := fun place node =>
  match node with
  | .sequence none nodes cut => do
      let inner ← place.descend
      match nodes with
      | [] =>
          Decoder.close cut
          place.fail (.missingField t.tagKey)
      | first :: rest => do
          let form ← t.tag (inner.item 0) first
          let settled ← Decoder.bufferItems inner 1 rest
          Decoder.close cut
          t.content form { place with buffered := true } (.sequence none settled none)
  | .mapping none entries cut => do
      let inner ← place.descend
      let (form, others) ← t.split inner none entries
      Decoder.close cut
      match form with
      | none => place.fail (.missingField t.tagKey)
      | some form =>
          t.content form { place with buffered := true } (.mapping none others none)
  | other => mismatch place other t.expected

end Qualification.Document.Tagged
