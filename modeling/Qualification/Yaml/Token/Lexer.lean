import Qualification.Yaml.Token.Mark
import Qualification.Yaml.Scalar.Flow
import Qualification.Yaml.Scalar.Block

/-! # Tokens from text

A key on one line is known as a key only when its colon is met, so a lexer remembers where
one may have begun and puts the token for it there afterwards. Until that is decided,
nothing from that place on counts as read.
-/

namespace Qualification.Yaml

open Document

/-- A place where a key may have begun. -/
structure PendingKey where
  /-- Must it be a key, by its indentation? -/
  required : Bool
  number : Nat
  origin : Cursor

/-- Can the colon still come? A key stays in its line and within a thousand characters or
    so. -/
def PendingKey.isOpen (k : PendingKey) (cur : Cursor) : Bool :=
  k.origin.line == cur.line && cur.index ≤ k.origin.index + 1024

/-- A lexer between two tokens. -/
structure Lexer where
  cursor : Cursor
  tokens : Array Token
  /-- The columns of the collections that indentation holds open, the innermost first. -/
  indents : List Nat
  /-- The pending key of the innermost flow collection, or of the text outside any. -/
  pending : Option PendingKey
  /-- The pending keys around each open flow collection, the innermost first. -/
  outer : List (Option PendingKey)
  /-- May a key on one line begin here? -/
  keyAllowed : Bool

namespace Lexer

def start (text : List Char) : Lexer :=
  ⟨.start text, #[], [], none, [], true⟩

def inFlow (l : Lexer) : Bool :=
  !l.outer.isEmpty

/-- The column of the innermost collection that indentation holds open. -/
def indent? (l : Lexer) : Option Nat :=
  l.indents.head?

def moveTo (l : Lexer) (cur : Cursor) : Lexer :=
  { l with cursor := cur }

def push (l : Lexer) (t : Token) : Lexer :=
  { l with tokens := l.tokens.push t }

def allowKey (l : Lexer) (allowed : Bool) : Lexer :=
  { l with keyAllowed := allowed }

def pushMark (l : Lexer) (t : Token) (width : Nat) : Lexer :=
  (l.push t).moveTo (l.cursor.advance width)

/-- Give up the pending key, unless it had to be one. -/
def dropPending (l : Lexer) : Option Lexer :=
  if l.pending.any (·.required) then none else some { l with pending := none }

def notePending (l : Lexer) : Option Lexer :=
  if l.keyAllowed then
    l.dropPending.map fun l =>
      let required := !l.inFlow && l.indent? == some l.cursor.column
      { l with pending := some ⟨required, l.tokens.size, l.cursor⟩ }
  else some l

/-- Open a collection at a column, if it is deeper than those open, with its token at a
    given place. -/
def openBlock (l : Lexer) (column : Nat) (place : Nat) (t : Token) : Lexer :=
  if l.inFlow || l.indents.head?.any (column ≤ ·) then l
  else { l with
    indents := column :: l.indents
    tokens := l.tokens.insertIdxIfInBounds place t }

/-- Close the collections that are deeper than a column; all of them without one. -/
def closeBlocks (l : Lexer) (column : Option Nat) : Lexer :=
  if l.inFlow then l
  else
    let deeper := l.indents.takeWhile fun i => column.all (· < i)
    { l with
      indents := l.indents.drop deeper.length
      tokens := l.tokens ++ (deeper.map fun _ => Token.blockEnd) }

/-- Pass over blanks, comments and line breaks up to the next token. -/
def toNext : Nat → Lexer → Lexer
  | 0, l => l
  | fuel + 1, l =>
      let cur := l.cursor
      let cur := if cur.column == 0 && cur.sees '\ufeff' then cur.advance 1 else cur
      let tabs := l.inFlow || !l.keyAllowed
      let cur := (cur.skipWhile fun c => c == ' ' || (tabs && c == '\t')).skipComment
      if cur.head?.any isBreak then
        toNext fuel ((l.moveTo cur.nextLine).allowKey (l.keyAllowed || !l.inFlow))
      else l.moveTo cur

def finish (l : Lexer) : Option Lexer := do
  let cur := l.cursor
  let l := if cur.column == 0 then l
    else l.moveTo { cur with line := cur.line + 1, column := 0 }
  let l ← (l.closeBlocks none).dropPending
  return (l.allowKey false).push .textEnd

def directive (l : Lexer) : Option Lexer := do
  let l ← (l.closeBlocks none).dropPending
  let (t, behind) ← directiveToken l.cursor
  return ((l.allowKey false).push t).moveTo behind

def documentMark (l : Lexer) (t : Token) : Option Lexer := do
  let l ← (l.closeBlocks none).dropPending
  return (l.allowKey false).pushMark t 3

def flowStart (l : Lexer) (t : Token) : Option Lexer := do
  let l ← l.notePending
  return ({ l with pending := none, outer := l.pending :: l.outer, keyAllowed := true }).pushMark
    t 1

def flowEnd (l : Lexer) (t : Token) : Option Lexer := do
  let l ← l.dropPending
  let l := match l.outer with
    | [] => l
    | pending :: outer => { l with pending, outer }
  return (l.allowKey false).pushMark t 1

def flowEntry (l : Lexer) : Option Lexer := do
  let l ← l.dropPending
  return (l.allowKey true).pushMark .flowEntry 1

def blockEntry (l : Lexer) : Option Lexer := do
  if !l.inFlow && !l.keyAllowed then none
  else
    let l ← (l.openBlock l.cursor.column l.tokens.size .blockSequence).dropPending
    return (l.allowKey true).pushMark .blockEntry 1

/-- The mark before a key of any shape. -/
def keyMark (l : Lexer) : Option Lexer := do
  if !l.inFlow && !l.keyAllowed then none
  else
    let l ← (l.openBlock l.cursor.column l.tokens.size .blockMapping).dropPending
    return (l.allowKey (!l.inFlow)).pushMark .key 1

/-- The mark before a value: what is pending becomes a key. -/
def valueMark (l : Lexer) : Option Lexer :=
  match l.pending.filter (·.isOpen l.cursor) with
  | some k =>
      let l := { l with
        tokens := l.tokens.insertIdxIfInBounds k.number .key
        pending := none
        keyAllowed := false }
      some ((l.openBlock k.origin.column k.number .blockMapping).pushMark .value 1)
  | none =>
      if l.pending.any (·.required) then none
      else if !l.inFlow && !l.keyAllowed then none
      else
        let l := l.openBlock l.cursor.column l.tokens.size .blockMapping
        some ((l.allowKey (!l.inFlow)).pushMark .value 1)

def named (l : Lexer) (t : String → Token) : Option Lexer := do
  let l ← l.notePending
  let (name, behind) ← anchorName (l.cursor.advance 1)
  return ((l.allowKey false).push (t name)).moveTo behind

def tag (l : Lexer) : Option Lexer := do
  let l ← l.notePending
  let (t, behind) ← tagToken l.inFlow l.cursor
  return ((l.allowKey false).push t).moveTo behind

def quoted (l : Lexer) (single : Bool) : Option Lexer := do
  let l ← l.notePending
  let (text, behind) ← l.cursor.quoted single
  return ((l.allowKey false).push (.scalar text .quoted)).moveTo behind

def block (l : Lexer) (isLiteral : Bool) : Option Lexer := do
  let l ← l.dropPending
  let (text, behind) ← l.cursor.block isLiteral l.indent?
  let style := if isLiteral then Style.literal else .quoted
  return ((l.allowKey true).push (.scalar text style)).moveTo behind

def plain (l : Lexer) : Option Lexer := do
  let l ← l.notePending
  let r ← l.cursor.plain l.inFlow ((l.indent?.map (· + 1)).getD 0)
  return ((l.allowKey r.broken).push (.scalar r.text .plain)).moveTo r.behind

def beginsPlain (l : Lexer) (c : Char) : Bool :=
  if c == '-' then !l.cursor.holdsAt 1 isBlank
  else if c == '?' || c == ':' then !l.inFlow && !l.cursor.wordEndsAt 1
  else !isGap c && !",[]\x7b\x7d#&*!|>\x27\"%@\x60".toList.contains c

/-- Read the token that begins with a character. -/
def readToken (l : Lexer) (c : Char) : Option Lexer :=
  let cur := l.cursor
  let alone := cur.wordEndsAt 1
  if cur.column == 0 && c == '%' then l.directive
  else if cur.atTriple '-' then l.documentMark .documentStart
  else if cur.atTriple '.' then l.documentMark .documentEnd
  else if c == '[' then l.flowStart .flowSequence
  else if c == '{' then l.flowStart .flowMapping
  else if c == ']' then l.flowEnd .flowSequenceEnd
  else if c == '}' then l.flowEnd .flowMappingEnd
  else if c == ',' then l.flowEntry
  else if c == '-' && alone then l.blockEntry
  else if c == '?' && (l.inFlow || alone) then l.keyMark
  else if c == ':' && (l.inFlow || alone) then l.valueMark
  else if c == '*' then l.named .alias
  else if c == '&' then l.named .anchor
  else if c == '!' then l.tag
  else if c == '|' && !l.inFlow then l.block true
  else if c == '>' && !l.inFlow then l.block false
  else if c == '\'' then l.quoted true
  else if c == '"' then l.quoted false
  else if l.beginsPlain c then l.plain
  else none

/-- Read one more token, or the end of the text. -/
def next (l : Lexer) : Option Lexer :=
  let l := toNext (l.cursor.rest.length + 1) l
  let l := l.closeBlocks (some l.cursor.column)
  match l.cursor.head? with
  | none => l.finish
  | some c => l.readToken c

def undecided (l : Lexer) : List PendingKey :=
  ((l.pending :: l.outer).filterMap id).filter fun k => k.required || k.isOpen l.cursor

def settled (l : Lexer) : Array Token :=
  l.undecided.foldl (fun ts k => ts.take k.number) l.tokens

/-- Has a key that had to be one missed its colon? -/
def hasMissedKey (l : Lexer) : Bool :=
  l.undecided.any fun k => !k.isOpen l.cursor

/-- Read on to the end of the text, or to where it is at fault. -/
def run : Nat → Lexer → Array Token
  | 0, l => l.settled
  | fuel + 1, l =>
      match l.next with
      | none => l.settled
      | some l =>
          if l.hasMissedKey then l.settled
          else if l.tokens.back? == some .textEnd then l.tokens
          else run fuel l

end Lexer

/-- The tokens of a text. They end in `textEnd` unless the text is at fault; then they are
    those before the fault. -/
def tokens (text : List Char) : List Token :=
  (Lexer.run (text.length + 2) (.start text)).toList

end Qualification.Yaml
