import Qualification.Json.Basic
import Qualification.Decimal.Layout

/-! # JSON text

A value as text: on one line without blanks, or with one item a line and two blanks of
indentation a level. Members are written in the order they have.
-/

namespace Qualification.Json

/-- The two lower-case hexadecimal digits of an octet. -/
def hexPair (n : Nat) : List Char :=
  [Nat.digitChar (n / 16), Nat.digitChar (n % 16)]

/-- A character inside a string: quotes, backslashes and controls are escaped. -/
def escaped (c : Char) : List Char :=
  match c with
  | '"' => ['\\', '"']
  | '\\' => ['\\', '\\']
  | '\n' => ['\\', 'n']
  | '\r' => ['\\', 'r']
  | '\t' => ['\\', 't']
  | '\x08' => ['\\', 'b']
  | '\x0c' => ['\\', 'f']
  | c => if c.toNat < 0x20 then ['\\', 'u', '0', '0'] ++ hexPair c.toNat else [c]

/-- Does the character stand for itself inside a string? -/
def isVerbatim (c : Char) : Bool :=
  0x20 ≤ c.toNat && c != '"' && c != '\\'

def quote (s : String) : String :=
  if s.toList.all isVerbatim then "\"" ++ s ++ "\""
  else String.ofList ('"' :: s.toList.flatMap escaped ++ ['"'])

def number (x : Float) : String :=
  if x.isFinite then Decimal.document x else "null"

mutual

def compact : Json → String
  | .null => "null"
  | .bool b => if b then "true" else "false"
  | .integer n => n.repr
  | .float x => number x
  | .text s => quote s
  | .array items => "[" ++ compactItems items ++ "]"
  | .object members => "\x7b" ++ compactMembers members ++ "\x7d"

def compactItems : List Json → String
  | [] => ""
  | [item] => compact item
  | item :: rest => compact item ++ "," ++ compactItems rest

def compactMembers : List (String × Json) → String
  | [] => ""
  | [(name, value)] => quote name ++ ":" ++ compact value
  | (name, value) :: rest =>
      quote name ++ ":" ++ compact value ++ "," ++ compactMembers rest

end

/-- A new line and the blanks of a level. -/
def newLine (level : Nat) : String :=
  "\n" ++ String.ofList (List.replicate (2 * level) ' ')

mutual

/-- The value with one item a line, inside the given level. -/
def prettyAt (level : Nat) : Json → String
  | .array [] => "[]"
  | .object [] => "\x7b\x7d"
  | .array items => "[" ++ prettyItems (level + 1) items ++ newLine level ++ "]"
  | .object members => "\x7b" ++ prettyMembers (level + 1) members ++ newLine level ++ "\x7d"
  | value => compact value

/-- Items, each on a line of its own. -/
def prettyItems (level : Nat) : List Json → String
  | [] => ""
  | [item] => newLine level ++ prettyAt level item
  | item :: rest => newLine level ++ prettyAt level item ++ "," ++ prettyItems level rest

/-- Members, each on a line of its own. -/
def prettyMembers (level : Nat) : List (String × Json) → String
  | [] => ""
  | [(name, value)] => newLine level ++ quote name ++ ": " ++ prettyAt level value
  | (name, value) :: rest =>
      newLine level ++ quote name ++ ": " ++ prettyAt level value ++ ","
        ++ prettyMembers level rest

end

def pretty (value : Json) : String :=
  prettyAt 0 value

end Qualification.Json
