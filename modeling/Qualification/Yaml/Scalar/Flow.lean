import Qualification.Yaml.Cursor

/-! # Flow scalars

Scalars that may stand within a line: plain ones, and those in quotes. A scalar may go on
over several lines. A gap without a line break keeps its blanks; a single break becomes a
space, and of several breaks the first is dropped.
-/

namespace Qualification.Yaml

/-- Blanks and line breaks between two words of a scalar. -/
structure Gap where
  broken : Bool
  blanks : List Char
  /-- The breaks, as a scalar holds them. -/
  breaks : List Char
  deriving Repr

namespace Gap

def empty : Gap :=
  ⟨false, [], []⟩

/-- The gap behind a line whose break is written out. -/
def behindBreak : Gap :=
  ⟨true, [], []⟩

def folded (gap : Gap) : List Char :=
  if gap.broken then
    match gap.breaks with
    | ['\n'] => [' ']
    | '\n' :: more => more
    | breaks => breaks
  else gap.blanks

/-- Read on through a gap. On a new line no tab may stand before the given column. -/
def read (column : Nat) : Nat → Gap → Cursor → Option (Gap × Cursor)
  | 0, gap, cur => some (gap, cur)
  | fuel + 1, gap, cur =>
      match cur.head? with
      | none => some (gap, cur)
      | some c =>
          if isBreak c then
            read column fuel ⟨true, gap.blanks, gap.breaks ++ [heldBreak c]⟩ cur.nextLine
          else if !isBlank c then some (gap, cur)
          else if !gap.broken then
            read column fuel ⟨false, gap.blanks ++ [c], gap.breaks⟩ (cur.advance 1)
          else if c == '\t' && cur.column < column then none
          else read column fuel gap (cur.advance 1)

end Gap

def Cursor.gap (cur : Cursor) (column : Nat) : Option (Gap × Cursor) :=
  Gap.read column cur.rest.length .empty cur

/-- Is the character a mark of flow collections? -/
def isFlowMark (c : Char) : Bool :=
  c == ',' || c == '[' || c == ']' || c == '{' || c == '}'

/-- Does a plain scalar end before the character here? It ends before a colon that stands
    at the end of a word, before a comment, and in a flow collection before each of its
    marks. -/
def endsPlain (inFlow : Bool) (cur : Cursor) : Bool :=
  cur.wordEndsAt 0 || (cur.sees ':' && cur.wordEndsAt 1) ||
    (inFlow && cur.holdsAt 0 isFlowMark)

/-- Is there a colon here that a flow collection does not admit? -/
def isStrayColon (inFlow : Bool) (cur : Cursor) : Bool :=
  inFlow && cur.sees ':' && cur.holdsAt 1 fun c => isFlowMark c || c == '?'

/-- A word of a plain scalar, with what is read so far reversed. -/
def plainWord (inFlow : Bool) : Nat → List Char → Cursor → Option (List Char × Cursor)
  | 0, read, cur => some (read.reverse, cur)
  | fuel + 1, read, cur =>
      if isStrayColon inFlow cur then none
      else if endsPlain inFlow cur then some (read.reverse, cur)
      else
        match cur.head? with
        | none => some (read.reverse, cur)
        | some c => plainWord inFlow fuel (c :: read) (cur.advance 1)

/-- A plain scalar and what follows it. -/
structure PlainReading where
  text : String
  broken : Bool
  behind : Cursor

/-- Read on in a plain scalar behind a gap, with the words so far in order. -/
def readPlain (inFlow : Bool) (column : Nat) :
    Nat → List Char → Gap → Cursor → Option PlainReading
  | 0, read, gap, cur => some ⟨String.ofList read, gap.broken, cur⟩
  | fuel + 1, read, gap, cur =>
      if cur.atDocumentMark || cur.sees '#' then some ⟨String.ofList read, gap.broken, cur⟩
      else do
        let (word, behind) ← plainWord inFlow cur.rest.length [] cur
        if word.isEmpty then some ⟨String.ofList read, gap.broken, cur⟩
        else
          let joined := read ++ gap.folded ++ word
          if !behind.holdsAt 0 isGap then some ⟨String.ofList joined, false, behind⟩
          else
            let (after, next) ← behind.gap column
            if !inFlow && next.column < column then
              some ⟨String.ofList joined, after.broken, next⟩
            else readPlain inFlow column fuel joined after next

/-- The plain scalar that begins here. Outside flow collections its further lines begin
    at the given column or behind it. -/
def Cursor.plain (cur : Cursor) (inFlow : Bool) (column : Nat) : Option PlainReading :=
  readPlain inFlow column (cur.rest.length + 1) [] .empty cur

/-- The character of an escape of one letter. -/
def letterEscape? (c : Char) : Option Char :=
  match c with
  | '0' => some '\x00'
  | 'a' => some '\x07'
  | 'b' => some '\x08'
  | 't' => some '\t'
  | '\t' => some '\t'
  | 'n' => some '\n'
  | 'v' => some '\x0b'
  | 'f' => some '\x0c'
  | 'r' => some '\r'
  | 'e' => some '\x1b'
  | ' ' => some ' '
  | '"' => some '"'
  | '/' => some '/'
  | '\\' => some '\\'
  | 'N' => some '\u0085'
  | '_' => some '\u00a0'
  | 'L' => some '\u2028'
  | 'P' => some '\u2029'
  | _ => none

/-- How many digits follow the letter of an escape by number. -/
def escapeWidth? (c : Char) : Option Nat :=
  match c with
  | 'x' => some 2
  | 'u' => some 4
  | 'U' => some 8
  | _ => none

/-- The value of a hexadecimal digit of either case. -/
def hexDigit? (c : Char) : Option Nat :=
  if '0' ≤ c && c ≤ '9' then some (c.toNat - 48)
  else if 'a' ≤ c && c ≤ 'f' then some (c.toNat - 87)
  else if 'A' ≤ c && c ≤ 'F' then some (c.toNat - 55)
  else none

def hexNumber? (cs : List Char) : Option Nat :=
  cs.foldl (fun n c => do
    let high ← n
    let low ← hexDigit? c
    return high * 16 + low) (some 0)

/-- The character with a number; surrogates and numbers beyond all planes have none. -/
def character? (n : Nat) : Option Char :=
  if h : n.isValidChar then some (Char.ofNatAux n h) else none

/-- The character of an escape behind its backslash, and the place behind it. -/
def escape? (cur : Cursor) : Option (Char × Cursor) := do
  let letter ← cur.head?
  match letterEscape? letter with
  | some c => return (c, cur.advance 1)
  | none =>
      let width ← escapeWidth? letter
      let digits := (cur.rest.drop 1).take width
      if digits.length < width then none
      else
        let c ← (hexNumber? digits).bind character?
        return (c, cur.advance (1 + width))

/-- Read on in quotes, with what is read so far reversed. -/
def readQuoted (single : Bool) : Nat → List Char → Cursor → Option (String × Cursor)
  | 0, _, _ => none
  | fuel + 1, read, cur =>
      if cur.atDocumentMark then none
      else do
        let c ← cur.head?
        if isGap c then
          let (gap, next) ← cur.gap 0
          readQuoted single fuel (gap.folded.reverse ++ read) next
        else if single && c == '\'' then
          if cur.holdsAt 1 (· == '\'') then readQuoted single fuel (c :: read) (cur.advance 2)
          else some (String.ofList read.reverse, cur.advance 1)
        else if !single && c == '"' then some (String.ofList read.reverse, cur.advance 1)
        else if !single && c == '\\' then
          if cur.holdsAt 1 isBreak then
            let behind := (cur.advance 1).nextLine
            let (gap, next) ← Gap.read 0 behind.rest.length .behindBreak behind
            readQuoted single fuel (gap.breaks.reverse ++ read) next
          else
            let (e, next) ← escape? (cur.advance 1)
            readQuoted single fuel (e :: read) next
        else readQuoted single fuel (c :: read) (cur.advance 1)

/-- The scalar whose opening quote stands here, and the place behind it. -/
def Cursor.quoted (cur : Cursor) (single : Bool) : Option (String × Cursor) :=
  readQuoted single (cur.rest.length + 1) [] (cur.advance 1)

end Qualification.Yaml
