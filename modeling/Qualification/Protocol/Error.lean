import Qualification.Diagnostic

/-! # Why a protocol is not loaded -/

namespace Qualification

/-- The format of a protocol text. -/
inductive Format where
  | json
  | yaml
  deriving Repr, DecidableEq

def Format.name : Format → String
  | .json => "JSON"
  | .yaml => "YAML"

/-- Where a protocol breaks a rule. -/
inductive Location where
  | inText
  /-- At a part of the protocol, by its path. -/
  | part (path : String)
  deriving Repr, DecidableEq

/-- The text of a place; one in the text of the protocol is left to whoever shows it. -/
def Location.text : Location → String
  | inText => "<pos>"
  | part path => path

/-- What must be unique. -/
inductive Identified where
  | parameter
  | phase
  | step
  | sequence
  | measurementSpec
  | criterion
  deriving Repr, DecidableEq

def Identified.text : Identified → String
  | parameter => "parameter"
  | phase => "phase"
  | step => "step"
  | sequence => "step sequence"
  | measurementSpec => "measurement spec"
  | criterion => "criterion"

/-- Why a protocol is not loaded. -/
inductive ProtocolError where
  | unreadable (path reason : String)
  /-- Its text is not a document of its format. -/
  | parse (format : Format) (message : String)
  | schema (location : Location) (message : String)
  /-- Two of its parts have one identity. -/
  | duplicate (kind : Identified) (id scope : String)
  deriving Repr, DecidableEq

namespace ProtocolError

def message : ProtocolError → String
  | unreadable path reason => "failed to read protocol " ++ path ++ ": " ++ reason
  | parse format message => "protocol is not valid " ++ format.name ++ ": " ++ message
  | schema .inText message => "schema error: " ++ message
  | schema (.part path) message => "schema error at " ++ path ++ ": " ++ message
  | duplicate kind id scope =>
      "duplicate " ++ kind.text ++ " '" ++ id ++ "' in " ++ scope

def code : ProtocolError → String
  | unreadable .. => "E_PROTO_READ"
  | parse .. => "E_PROTO_PARSE"
  | schema .. => "E_PROTO_SCHEMA"
  | duplicate .. => "E_PROTO_DUPLICATE"

def context : ProtocolError → List (String × Json)
  | unreadable path _ => [("file", .text path)]
  | parse format _ => [("format", .text format.name)]
  | schema location _ => [("location", .text location.text)]
  | duplicate kind id scope =>
      [("id", .text id), ("kind", .text kind.text), ("scope", .text scope)]

def fixSteps : ProtocolError → List String
  | unreadable .. => ["Check that the protocol file exists and is readable"]
  | duplicate kind _ _ => ["Give every " ++ kind.text ++ " a unique identifier"]
  | parse .. | schema .. => []

def diagnostic (e : ProtocolError) : Diagnostic where
  code := e.code
  severity := "error"
  source := "protocol"
  message := e.message
  context := .object e.context
  fixSteps := e.fixSteps

end ProtocolError

end Qualification
