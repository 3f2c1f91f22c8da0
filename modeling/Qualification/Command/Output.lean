import Qualification.Json.Printer
import Qualification.Protocol.Error

/-! # Output

What a request leaves behind for its caller: two texts and an exit code. In a text with
columns a cell is filled up with blanks to the width of its column; a longer one keeps its
length. Widths count code points.
-/

namespace Qualification.Text

def blanks (count : Nat) : String :=
  String.ofList (List.replicate count ' ')

/-- A cell at the left of its column. -/
def padRight (width : Nat) (cell : String) : String :=
  cell ++ blanks (width - cell.length)

/-- A cell at the right of its column. -/
def padLeft (width : Nat) (cell : String) : String :=
  blanks (width - cell.length) ++ cell

def lines (ls : List String) : String :=
  String.join (ls.map (· ++ "\n"))

end Qualification.Text

namespace Qualification

/-- How a request ended. -/
inductive ExitCode where
  | ok
  /-- The test failed, was aborted, or quality control objects. -/
  | testFailed
  /-- The configuration, a protocol, a session or the store could not be used. -/
  | unusable
  deriving Repr, DecidableEq

def ExitCode.number : ExitCode → Nat
  | ok => 0
  | testFailed => 1
  | unusable => 2

/-- What a request prints, and how it ended. -/
structure Output where
  code : ExitCode
  stdout : String
  stderr : String
  deriving Repr, DecidableEq

namespace Output

def ofLines (code : ExitCode) (lines : List String) : Output :=
  ⟨code, Text.lines lines, ""⟩

def ofJson (code : ExitCode) (document : Json) : Output :=
  ofLines code [document.pretty]

def refused (message : String) : Output :=
  ⟨.unusable, "", Text.lines ["error: " ++ message]⟩

def fatal (message : String) : Output :=
  ⟨.unusable, "", Text.lines ["fatal: " ++ message]⟩

def rejected (d : Diagnostic) : Output :=
  ⟨.unusable, "", d.terminal⟩

end Output

end Qualification
