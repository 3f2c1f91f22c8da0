import Qualification.Json.Printer

/-! # Diagnostics

What the program tells its user about an input: a code, a message, and how to mend it.
-/

namespace Qualification

/-- A finding about an input. -/
structure Diagnostic where
  code : String
  severity : String
  /-- The part of the program that it comes from. -/
  source : String
  message : String
  context : Json
  /-- How to mend it, step by step. -/
  fixSteps : List String

namespace Diagnostic

def error (code message : String) : Diagnostic :=
  ⟨code, "error", "unknown", message, .object [], []⟩

def isError (d : Diagnostic) : Bool :=
  d.severity == "error"

/-- The details, one line each; an empty object has none. -/
def contextLines (d : Diagnostic) : List String :=
  match d.context with
  | .object (m :: rest) => (Json.object (m :: rest)).pretty.splitOn "\n"
  | _ => []

/-- The steps of the remedy, numbered from one. -/
def fixLines (steps : List String) : List String :=
  steps.zipIdx.map fun s => "  " ++ (s.2 + 1).repr ++ ". " ++ s.1 ++ "\n"

def terminal (d : Diagnostic) : String :=
  let icon := if d.severity == "warn" then "warn" else "error"
  let head := icon ++ " [" ++ d.code ++ "] " ++ d.message ++ "\n  source: " ++ d.source ++ "\n"
  let context := d.contextLines.map fun line => "  " ++ line ++ "\n"
  let fix := if d.fixSteps.isEmpty then [] else "\nFix:\n" :: fixLines d.fixSteps
  head ++ String.join context ++ String.join fix

def toJson (d : Diagnostic) : Json :=
  .object [("code", .text d.code), ("severity", .text d.severity), ("source", .text d.source),
    ("message", .text d.message), ("context", d.context),
    ("fix_steps", .ofList .text d.fixSteps)]

end Diagnostic

end Qualification
