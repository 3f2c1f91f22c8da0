import Qualification.Yaml.Cursor

/-! # Block scalars

A block scalar stands on the lines below its mark, indented alike. A literal one keeps
its line breaks; a folded one joins lines that begin with no blank. What becomes of the
breaks at its end is written beside the mark.
-/

namespace Qualification.Yaml

/-- What becomes of the line breaks at the end of a block scalar. -/
inductive Chomping where
  | strip
  | clip
  | keep
  deriving Repr, DecidableEq

/-- What stands beside the mark of a block scalar. -/
structure BlockHeader where
  /-- What becomes of the breaks at the end. -/
  chomping : Chomping
  /-- How much deeper the lines are indented than the mapping around them. -/
  increment : Option Nat
  deriving Repr

/-- The sign of a header, if there is one. -/
def chompingSign (cur : Cursor) : Option Chomping × Cursor :=
  if cur.sees '+' then (some .keep, cur.advance 1)
  else if cur.sees '-' then (some .strip, cur.advance 1)
  else (none, cur)

/-- The digit of a header, if there is one; it is not zero. -/
def incrementDigit (cur : Cursor) : Option (Option Nat × Cursor) :=
  match cur.head? with
  | some c =>
      if c == '0' then none
      else if c.isDigit then some (some (c.toNat - 48), cur.advance 1)
      else some (none, cur)
  | none => some (none, cur)

/-- The header behind a mark, and the line below it. -/
def blockHeader (cur : Cursor) : Option (BlockHeader × Cursor) := do
  let (before, cur) := chompingSign cur
  let (increment, cur) ← incrementDigit cur
  let (sign, cur) :=
    match before, increment with
    | none, some _ => chompingSign cur
    | _, _ => (before, cur)
  let cur := (cur.skipWhile isBlank).skipComment
  if cur.atLineEnd then some (⟨sign.getD .clip, increment⟩, cur.passBreak) else none

/-- Empty lines, where the indentation is known or looked for. -/
structure EmptyLines where
  /-- The breaks, as a scalar holds them. -/
  breaks : List Char
  widest : Nat
  /-- The place behind them and behind the indentation of the next line. -/
  behind : Cursor

/-- Pass over empty lines. No tab may stand in the indentation. -/
def emptyLines (indent : Option Nat) : Nat → List Char → Nat → Cursor → Option EmptyLines
  | 0, breaks, widest, cur => some ⟨breaks, widest, cur⟩
  | fuel + 1, breaks, widest, cur =>
      let spaces := (cur.rest.takeWhile (· == ' ')).length
      let taken := match indent with
        | some column => min spaces (column - cur.column)
        | none => spaces
      let cur := cur.advance taken
      let widest := max widest cur.column
      if cur.sees '\t' && indent.all (cur.column < ·) then none
      else
        match cur.head? with
        | some c =>
            if isBreak c then
              emptyLines indent fuel (breaks ++ [heldBreak c]) widest cur.nextLine
            else some ⟨breaks, widest, cur⟩
        | none => some ⟨breaks, widest, cur⟩

def Cursor.emptyLines (cur : Cursor) (indent : Option Nat) : Option EmptyLines :=
  Yaml.emptyLines indent (cur.rest.length + 1) [] 0 cur

/-- A block scalar behind one of its lines. -/
structure BlockProgress where
  /-- The text so far, without the break of its last line. -/
  text : List Char
  /-- The break of the last line, if there is one. -/
  lineEnd : Option Char
  /-- Did the last line begin with a blank? -/
  blankStart : Bool
  /-- The breaks of the empty lines below. -/
  breaks : List Char

/-- What stands between a line and the next one. -/
def BlockProgress.joint (p : BlockProgress) (isLiteral blankNext : Bool) : List Char :=
  if !isLiteral && p.lineEnd == some '\n' && !p.blankStart && !blankNext then
    if p.breaks.isEmpty then [' '] else p.breaks
  else p.lineEnd.toList ++ p.breaks

/-- Read the lines that are indented to a column. -/
def blockLines (isLiteral : Bool) (column : Nat) :
    Nat → BlockProgress → Cursor → Option (BlockProgress × Cursor)
  | 0, p, cur => some (p, cur)
  | fuel + 1, p, cur =>
      if cur.column != column || cur.rest.isEmpty then some (p, cur)
      else do
        let blankStart := cur.holdsAt 0 isBlank
        let (content, behind) := cur.span fun c => !isBreak c
        let lineEnd := behind.head?.map heldBreak
        let below ← behind.passBreak.emptyLines (some column)
        blockLines isLiteral column fuel
          ⟨p.text ++ p.joint isLiteral blankStart ++ content, lineEnd, blankStart, below.breaks⟩
          below.behind

/-- The text of a block scalar, with its end chomped. -/
def BlockProgress.finish (p : BlockProgress) (chomping : Chomping) : String :=
  String.ofList <| p.text ++
    match chomping with
    | .strip => []
    | .clip => p.lineEnd.toList
    | .keep => p.lineEnd.toList ++ p.breaks

/-- The block scalar whose mark stands here, and the place behind it. The indentation is
    that of the collection around it, if there is one. -/
def Cursor.block (cur : Cursor) (isLiteral : Bool) (indent : Option Nat) :
    Option (String × Cursor) := do
  let (header, below) ← blockHeader (cur.advance 1)
  let given := header.increment.map (indent.getD 0 + ·)
  let first ← below.emptyLines given
  let least := (indent.map (· + 1)).getD 1
  let column := given.getD (max first.widest least)
  let (p, behind) ← blockLines isLiteral column (cur.rest.length + 1)
    ⟨[], none, false, first.breaks⟩ first.behind
  return (p.finish header.chomping, behind)

end Qualification.Yaml
