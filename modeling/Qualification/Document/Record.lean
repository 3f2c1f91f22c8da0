import Qualification.Document.Decoder

/-! # Reading records

A record is a mapping with known fields. Its entries are read in the order of the text:
a second entry for a field is a failure, an unknown one is passed over or refused, and
what is missing is noticed at the end, in the order of declaration. In JSON, and in a tree
that was set aside, a sequence gives the fields by position.
-/

namespace Qualification.Document

/-- What the absence of a field means. -/
inductive Absence where
  | required
  /-- No value; a sequence must still give one. -/
  | optional
  | defaulted
  deriving Repr, DecidableEq

/-- What is known of a field without its type. -/
structure FieldRule where
  key : String
  /-- Does a tree hold a value of the field? -/
  check : Decoder Unit
  absence : Absence

/-- Finds the tree of a field and the place where it stands. -/
abbrev FieldLookup := String → Option (Place × Node)

/-- How a record of a type is read: its fields in declaration order, and the value that
    they make up. -/
structure Record (α : Type) where
  fields : List FieldRule
  /-- The value, once every entry has passed its check. -/
  build : Place → FieldLookup → Except Failure α

namespace Record

variable {α β : Type}

def checkOf (decode : Decoder α) : Decoder Unit := fun place node =>
  (decode place node).map fun _ => ()

/-- A field that may be absent in the given way. -/
def field (key : String) (decode : Decoder α) (absence : Absence)
    (absent : Place → Except Failure α) : Record α where
  fields := [⟨key, checkOf decode, absence⟩]
  build place find :=
    match find key with
    | some (inner, node) => decode inner node
    | none => absent place

def required (key : String) (decode : Decoder α) : Record α :=
  field key decode .required fun place => place.fail (.missingField key)

/-- A field with a value of its own when it is absent. -/
def withDefault (key : String) (decode : Decoder α) (value : α) : Record α :=
  field key decode .defaulted fun _ => .ok value

/-- A field that may be absent or null. -/
def optional (key : String) (decode : Decoder α) : Record (Option α) :=
  field key (Decoder.optional decode) .optional fun _ => .ok none

/-- A field that may be absent or null, also at the end of a sequence. -/
def optionalDefault (key : String) (decode : Decoder α) : Record (Option α) :=
  withDefault key (Decoder.optional decode) none

def pure (value : α) : Record α :=
  ⟨[], fun _ _ => .ok value⟩

def apply (f : Record (α → β)) (r : Record α) : Record β where
  fields := f.fields ++ r.fields
  build place find :=
    match f.build place find with
    | .ok g => (r.build place find).map g
    | .error failure => .error failure

instance : Applicative Record where
  pure := Record.pure
  seq f r := Record.apply f (r ())

def keys (r : Record α) : List String :=
  r.fields.map (·.key)

/-- An entry that belongs to a field: its name, place and tree. -/
abbrev Entry := String × Place × Node

def lookupIn (found : List Entry) : FieldLookup := fun key =>
  (found.find? fun e => e.1 = key).map (·.2)

/-- Go through the entries of a mapping in order and keep those of fields. -/
def collect (strict : Bool) (fields : List FieldRule) (place : Place) :
    List String → List (Node × Node) → Except Failure (List Entry)
  | _, [] => .ok []
  | seen, (key, node) :: rest => do
      let name ← Decoder.name "field identifier" place key
      match fields.find? fun f => f.key = name with
      | none =>
          if strict then place.fail (.unknownField name (fields.map (·.key)))
          else
            Decoder.close node.skip
            collect strict fields place seen rest
      | some f =>
          if seen.contains name then place.fail (.duplicateField name)
          else
            f.check (place.entry name) node
            let found ← collect strict fields place (name :: seen) rest
            return (name, place.entry name, node) :: found

/-- Go through items that give the fields by position. -/
def collectItems (place : Place) :
    Nat → List FieldRule → List Node → Except Failure (List Entry)
  | index, f :: fields, node :: rest => do
      f.check (place.item index) node
      let found ← collectItems place (index + 1) fields rest
      return (f.key, place.item index, node) :: found
  | _, _, _ => .ok []

def elements (n : Nat) : String :=
  if n = 1 then "1 element" else n.repr ++ " elements"

/-- The position of the first field that a sequence of some length leaves without a
    value. -/
def firstUnfilled (fields : List FieldRule) (length : Nat) : Option Nat :=
  ((fields.zipIdx.drop length).find? fun f => f.1.absence != .defaulted).map (·.2)

/-- What follows the items that a record takes from a sequence. -/
def closeItems (place : Place) (count : Nat) (nodes : List Node) (cut : Option Fault) :
    Except Failure Unit :=
  if count < nodes.length then
    if place.buffered then
      place.fail (.invalidLength nodes.length (elements count ++ " in sequence"))
    else .error (.fault .trailingCharacters)
  else Decoder.close (cut.map Fault.atListEnd)

/-- Read a record from a mapping or, where that is admitted, by position from a
    sequence. -/
def readAs (expected : String) (strict : Bool) (r : Record α) : Decoder α :=
  fun place node =>
    match node with
    | .sequence _ nodes cut =>
        if place.dialect == .yaml && !place.buffered then mismatch place node expected
        else do
          let inner ← place.descend
          let found ← collectItems inner 0 r.fields nodes
          if nodes.length < r.fields.length then
            Decoder.close cut
            match firstUnfilled r.fields nodes.length with
            | some index =>
                place.fail (.invalidLength index
                  (expected ++ " with " ++ elements r.fields.length))
            | none => r.build place (lookupIn found)
          else
            let value ← r.build place (lookupIn found)
            closeItems place r.fields.length nodes cut
            return value
    | _ => do
        let (nodes, cut) ← Decoder.mappingOf place node expected
        let inner ← place.descend
        let found ← collect strict r.fields inner [] nodes
        Decoder.close cut
        r.build place (lookupIn found)

/-- Read a record of a named type; unknown fields are passed over. -/
def read (name : String) (r : Record α) : Decoder α :=
  readAs ("struct " ++ name) false r

/-- Read a record of a named type; unknown fields are refused. -/
def readStrict (name : String) (r : Record α) : Decoder α :=
  readAs ("struct " ++ name) true r

end Record

end Qualification.Document
