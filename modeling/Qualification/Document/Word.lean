import Qualification.Document.Decoder

/-! # Reading words

A type with finitely many cases is written as words. A case may have several; messages
list the words in the order of the cases.
-/

namespace Qualification.Document

/-- The words of each case of a type, cases in declaration order. -/
abbrev Words (α : Type) := List (α × List String)

namespace Words

variable {α : Type}

def find? (words : Words α) (word : String) : Option α :=
  (List.find? (fun e => e.2.contains word) words).map (·.1)

def all (words : Words α) : List String :=
  words.flatMap (·.2)

def settle (words : Words α) (place : Place) (word : String) : Except Failure α :=
  match words.find? word with
  | some a => .ok a
  | none => place.fail (.unknownVariant word words.all)

/-- The content of a case that carries none. -/
def readNothing : Decoder Unit := fun place node =>
  match node with
  | .value .null => .ok ()
  | .written scalar => if scalar.isAbsent then .ok () else mismatch place node "unit"
  | other => mismatch place other "unit"

/-- A word as the only key of an object, over no content. -/
def readKeyed (words : Words α) (place : Place) (entries : List (Node × Node))
    (cut : Option Fault) : Except Failure α := do
  match entries with
  | [] =>
      Decoder.close cut
      .error (.fault .expectedValue)
  | (key, node) :: rest =>
      let inner ← place.descend
      let word ← Decoder.name "variant identifier" inner key
      let a ← words.settle inner word
      readNothing inner node
      match rest, cut with
      | [], none => return a
      | [], some .endOfObject => .error (.fault .endOfObject)
      | _, _ => .error (.fault .expectedValue)

def read (words : Words α) : Decoder α := fun place node =>
  match node with
  | .value (.text word) => words.settle place word
  | .written scalar =>
      match scalar.tag with
      | .named word => do
          let a ← words.settle place word
          readNothing place (.written { scalar with tag := .untagged })
          return a
      | _ => words.settle place scalar.text
  | .damaged fault _ => .error (.fault fault)
  | .sequence (some word) _ _ | .mapping (some word) _ _ => do
      let a ← words.settle place word
      readNothing place node
      return a
  | .mapping none entries cut =>
      match place.dialect with
      | .json => readKeyed words place entries cut
      | .yaml => mismatch place node "a YAML tag starting with '!'"
  | other =>
      match place.dialect with
      | .json => .error (.fault .expectedValue)
      | .yaml => mismatch place other "a YAML tag starting with '!'"

/-- Reads a word of a type where nothing but a string will do. -/
def readIdentifier (words : Words α) : Decoder α := fun place node => do
  words.settle place (← Decoder.name "variant identifier" place node)

end Words

end Qualification.Document
