import Qualification.Path
import Qualification.Protocol.Codec
import Qualification.Protocol.Validation
import Qualification.Json.Reader
import Qualification.Yaml.Tree

/-! # Protocols from text

A text is read as a document, decoded as a protocol, and checked against all rules. A
document of the wrong shape breaks the schema; a text that is no document does not parse.
-/

namespace Qualification

open Document

namespace Format

/-- The format of a file: YAML by its extension in any case, else JSON. -/
def ofPath (path : String) : Format :=
  match (Path.fileName? path).bind Path.extension? with
  | some ext =>
      let word := String.ofList (ext.map Char.toLower)
      if word == "yaml" || word == "yml" then .yaml else .json
  | none => .json

end Format

namespace ProtocolDefinition

def occursIn (part : List Char) : List Char → Bool
  | [] => part.isEmpty
  | c :: rest => part.isPrefixOf (c :: rest) || occursIn part rest

/-- Does the message of a YAML document speak of its shape? -/
def speaksOfShape (message : String) : Bool :=
  ["missing field", "invalid type", "unknown variant", "did not match"].any fun phrase =>
    occursIn phrase.toList message.toList

def jsonError : Failure → ProtocolError
  | .fault f => .parse .json f.message
  | failure => .schema .inText (failure.message .json)

def yamlError (failure : Failure) : ProtocolError :=
  let message := failure.message .yaml
  if speaksOfShape message then .schema .inText message else .parse .yaml message

def ofText (format : Format) (text : String) : Except ProtocolError ProtocolDefinition :=
  match format with
  | .json =>
      match Json.decode decode text with
      | .ok p => .ok p
      | .error failure => .error (jsonError failure)
  | .yaml =>
      match Yaml.decode decode text with
      | .ok p => .ok p
      | .error failure => .error (yamlError failure)

/-- The protocol that a text holds, if it keeps all rules. -/
def parse (format : Format) (text : String) : Except ProtocolError ProtocolDefinition := do
  let p ← ofText format text
  Validation.check p
  return p

end ProtocolDefinition

end Qualification
