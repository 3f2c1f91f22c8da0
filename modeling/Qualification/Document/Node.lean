import Qualification.Document.Fault
import Qualification.Json.Basic

/-! # Document trees

What JSON text and YAML text have in common for a reader: a tree of scalars, sequences
and mappings, as far as the text is well formed. A reader that goes through a tree in
order meets a fault exactly where a reader of the text would meet it.
-/

namespace Qualification.Document

/-- A scalar whose type is settled. -/
inductive Atom where
  | null
  | bool (b : Bool)
  | integer (n : Int)
  | float (x : Float)
  | text (s : String)
  deriving Repr

/-- How a scalar is set off from the text around it. -/
inductive Style where
  | plain
  /-- By quotes, or as a folded block. -/
  | quoted
  | literal
  deriving Repr, DecidableEq

/-- The type that a scalar is tagged with. -/
inductive Tag where
  /-- No tag, or the tag of strings on no plain scalar. -/
  | untagged
  | text
  | bool
  | int
  | float
  | null
  | named (name : String)
  deriving Repr, DecidableEq

/-- A scalar whose type depends on what a reader wants. -/
structure Written where
  text : String
  style : Style
  tag : Tag
  deriving Repr, DecidableEq

/-- A document tree, as far as its text is well formed. A tag of the document's own on a
    sequence or a mapping names its form. -/
inductive Node where
  | value (atom : Atom)
  | written (scalar : Written)
  /-- The items in order, and the fault in place of the end if there is one. -/
  | sequence (form : Option String) (items : List Node) (cut : Option Fault)
  /-- The entries in order, and the fault in place of the end if there is one. -/
  | mapping (form : Option String) (entries : List (Node × Node)) (cut : Option Fault)
  /-- A faulty place: how it fails when read, and how, if at all, when passed over. -/
  | damaged (onRead : Fault) (onSkip : Option Fault)
  deriving Repr, Inhabited

/-- A text read as a document: its tree, and the fault behind the tree if there is one. -/
structure Source where
  root : Node
  rest : Option Fault
  deriving Repr

namespace Node

/-- The string that a settled or written scalar holds. -/
def ofText (s : String) : Node :=
  .value (.text s)

mutual

/-- The first fault met when a tree is passed over. -/
def skip : Node → Option Fault
  | .value _ => none
  | .written _ => none
  | .sequence _ items cut => (skipItems items).or (cut.map Fault.inSkippedList)
  | .mapping _ entries cut => (skipEntries entries).or (cut.map Fault.inSkippedObject)
  | .damaged _ onSkip => onSkip

/-- The first fault met when items are passed over. -/
def skipItems : List Node → Option Fault
  | [] => none
  | item :: rest => (skip item).or (skipItems rest)

/-- The first fault met when entries are passed over. -/
def skipEntries : List (Node × Node) → Option Fault
  | [] => none
  | (key, node) :: rest => (skip key).or ((skip node).or (skipEntries rest))

end

mutual

def ofJson : Json → Node
  | .null => .value .null
  | .bool b => .value (.bool b)
  | .integer n => .value (.integer n)
  | .float x => .value (.float x)
  | .text s => .value (.text s)
  | .array items => .sequence none (ofItems items) none
  | .object members => .mapping none (ofMembers members) none

def ofItems : List Json → List Node
  | [] => []
  | item :: rest => ofJson item :: ofItems rest

def ofMembers : List (String × Json) → List (Node × Node)
  | [] => []
  | (name, item) :: rest => (ofText name, ofJson item) :: ofMembers rest

end

end Node

end Qualification.Document
