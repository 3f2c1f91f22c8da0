import Qualification.Document.Node

/-! # Tokens of a YAML text

The tokens of a text carry its structure: where indentation opens and closes a
collection there is a token for it.
-/

namespace Qualification.Yaml

open Document

/-- A line before a document that concerns its reading. -/
inductive Directive where
  | version (major minor : Nat)
  | tagHandle (handle : String) (expansion : String)
  deriving Repr, DecidableEq

/-- A token. -/
inductive Token where
  | directive (d : Directive)
  /-- The mark at the start of a document. -/
  | documentStart
  /-- The mark at the end of a document. -/
  | documentEnd
  | blockSequence
  | blockMapping
  | blockEnd
  | flowSequence
  | flowSequenceEnd
  | flowMapping
  | flowMappingEnd
  | blockEntry
  | flowEntry
  | key
  | value
  | alias (name : String)
  | anchor (name : String)
  /-- A tag: its handle, and what follows the handle. -/
  | tag (handle : String) (rest : String)
  | scalar (text : String) (style : Style)
  | textEnd
  deriving Repr, DecidableEq

end Qualification.Yaml
