/-! # Places in a YAML text

A reader of YAML looks at lines and columns as well as characters: indentation is
structure. A cursor is a place in the text together with the text from there on.
-/

namespace Qualification.Yaml

def isBreak (c : Char) : Bool :=
  c == '\n' || c == '\r' || c == '\u0085' || c == '\u2028' || c == '\u2029'

/-- Is the character a blank within a line? -/
def isBlank (c : Char) : Bool :=
  c == ' ' || c == '\t'

def isGap (c : Char) : Bool :=
  isBlank c || isBreak c

/-- May the character stand in the name of an anchor, a tag or a directive? -/
def isNameCharacter (c : Char) : Bool :=
  c.isAlphanum || c == '_' || c == '-'

/-- May the character stand in a text at all? -/
def isAdmitted (c : Char) : Bool :=
  let n := c.toNat
  n == 0x09 || n == 0x0A || n == 0x0D || (0x20 ≤ n && n ≤ 0x7E) || n == 0x85 ||
    (0xA0 ≤ n && n ≤ 0xFFFD) || 0x10000 ≤ n

/-- A line break as a scalar holds it. -/
def heldBreak (c : Char) : Char :=
  if c == '\u2028' || c == '\u2029' then c else '\n'

/-- A place in a text. -/
structure Cursor where
  rest : List Char
  index : Nat
  line : Nat
  /-- How many characters of the line stand before. -/
  column : Nat
  deriving Repr

namespace Cursor

def start (text : List Char) : Cursor :=
  ⟨text, 0, 0, 0⟩

/-- The character here, if the text has not ended. -/
def head? (cur : Cursor) : Option Char :=
  cur.rest.head?

def sees (cur : Cursor) (c : Char) : Bool :=
  cur.head? == some c

/-- Does a character of the class stand so many places on? -/
def holdsAt (cur : Cursor) (n : Nat) (p : Char → Bool) : Bool :=
  (cur.rest[n]?).any p

/-- Does a word end before the character so many places on? -/
def wordEndsAt (cur : Cursor) (n : Nat) : Bool :=
  (cur.rest[n]?).all isGap

def atLineEnd (cur : Cursor) : Bool :=
  cur.head?.all isBreak

/-- The place so many characters on in the same line. -/
def advance (cur : Cursor) (n : Nat) : Cursor :=
  ⟨cur.rest.drop n, cur.index + n, cur.line, cur.column + n⟩

/-- The characters of a class that stand here, and the place behind them. -/
def span (cur : Cursor) (p : Char → Bool) : List Char × Cursor :=
  let taken := cur.rest.takeWhile p
  (taken, cur.advance taken.length)

/-- The place behind the characters of a class. -/
def skipWhile (cur : Cursor) (p : Char → Bool) : Cursor :=
  (cur.span p).2

/-- The place behind the line break that stands here. -/
def nextLine (cur : Cursor) : Cursor :=
  match cur.rest with
  | '\r' :: '\n' :: rest => ⟨rest, cur.index + 2, cur.line + 1, 0⟩
  | _ :: rest => ⟨rest, cur.index + 1, cur.line + 1, 0⟩
  | [] => cur

/-- The place behind a line break, if one stands here. -/
def passBreak (cur : Cursor) : Cursor :=
  if cur.head?.any isBreak then cur.nextLine else cur

/-- Pass over a comment, up to the end of its line. -/
def skipComment (cur : Cursor) : Cursor :=
  if cur.sees '#' then cur.skipWhile fun c => !isBreak c else cur

/-- Does a line begin here with three of a character that stand alone? -/
def atTriple (cur : Cursor) (c : Char) : Bool :=
  cur.column == 0 && [c, c, c].isPrefixOf cur.rest && cur.wordEndsAt 3

/-- Does a document begin or end here by its mark? -/
def atDocumentMark (cur : Cursor) : Bool :=
  cur.atTriple '-' || cur.atTriple '.'

end Cursor

end Qualification.Yaml
