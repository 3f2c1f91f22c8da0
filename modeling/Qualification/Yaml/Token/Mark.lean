import Qualification.Yaml.Token
import Qualification.Yaml.Scalar.Flow

/-! # Anchors, tags and directives

The tokens that stand before a node or before a document.
-/

namespace Qualification.Yaml

/-- May the character follow the name of an anchor? -/
def endsAnchor (c : Char) : Bool :=
  isGap c || c == '?' || c == ':' || c == ',' || c == ']' || c == '}' || c == '%' ||
    c == '@' || c == '\x60'

/-- The name of an anchor behind its mark, and the place behind it. -/
def anchorName (cur : Cursor) : Option (String × Cursor) :=
  let (name, behind) := cur.span isNameCharacter
  if !name.isEmpty && behind.head?.all endsAnchor then some (String.ofList name, behind)
  else none

def isTagCharacter (c : Char) : Bool :=
  isNameCharacter c || ";/?:@&=+$.%!~*\x27()".toList.contains c

/-- May the character stand in a tag between angle brackets? -/
def isVerbatimCharacter (c : Char) : Bool :=
  isTagCharacter c || c == ',' || c == '[' || c == ']'

/-- An octet written by a percent sign and two digits. -/
def percentOctet? (cur : Cursor) : Option Nat :=
  match cur.rest with
  | '%' :: a :: b :: _ => hexNumber? [a, b]
  | _ => none

/-- How many octets a character has whose first octet this is, and the bits that it gives
    to the character. -/
def leadingOctet? (n : Nat) : Option (Nat × Nat) :=
  if n < 0x80 then some (1, n)
  else if n < 0xC0 then none
  else if n < 0xE0 then some (2, n - 0xC0)
  else if n < 0xF0 then some (3, n - 0xE0)
  else if n < 0xF8 then some (4, n - 0xF0)
  else none

/-- The octets of a character behind the first, with the bits so far. -/
def trailingOctets : Nat → Nat → Cursor → Option (Nat × Cursor)
  | 0, bits, cur => some (bits, cur)
  | more + 1, bits, cur => do
      let n ← percentOctet? cur
      if 0x80 ≤ n && n < 0xC0 then
        trailingOctets more (bits * 64 + (n - 0x80)) (cur.advance 3)
      else none

/-- A character written octet by octet, and the place behind it. -/
def percentCharacter? (cur : Cursor) : Option (Char × Cursor) := do
  let n ← percentOctet? cur
  let (width, bits) ← leadingOctet? n
  let (number, behind) ← trailingOctets (width - 1) bits (cur.advance 3)
  let c ← character? number
  return (c, behind)

/-- Read on in a tag, with what is read so far reversed. -/
def readTag (p : Char → Bool) : Nat → List Char → Cursor → Option (List Char × Cursor)
  | 0, read, cur => some (read.reverse, cur)
  | fuel + 1, read, cur =>
      match cur.head? with
      | none => some (read.reverse, cur)
      | some c =>
          if !p c then some (read.reverse, cur)
          else if c == '%' then
            match percentCharacter? cur with
            | some (d, behind) => readTag p fuel (d :: read) behind
            | none => none
          else readTag p fuel (c :: read) (cur.advance 1)

/-- The characters of a tag from here on. -/
def tagText (p : Char → Bool) (cur : Cursor) : Option (List Char × Cursor) :=
  readTag p cur.rest.length [] cur

/-- The characters of a tag from here on; there must be some. -/
def someTagText (p : Char → Bool) (cur : Cursor) : Option (List Char × Cursor) :=
  (tagText p cur).filter fun r => !r.1.isEmpty

/-- The handle that begins here with its mark: a name, perhaps closed by a second mark. -/
def tagHandle (cur : Cursor) : Option (List Char × Bool × Cursor) :=
  if cur.sees '!' then
    let (name, behind) := (cur.advance 1).span isNameCharacter
    if behind.sees '!' then some ('!' :: name ++ ['!'], true, behind.advance 1)
    else some ('!' :: name, false, behind)
  else none

/-- The tag that begins here, and the place behind it, without a look at what follows. -/
def openTag (cur : Cursor) : Option (Token × Cursor) :=
  if cur.holdsAt 1 (· == '<') then do
    let (rest, behind) ← someTagText isVerbatimCharacter (cur.advance 2)
    if behind.sees '>' then some (.tag "" (String.ofList rest), behind.advance 1) else none
  else do
    let (handle, closed, behind) ← tagHandle cur
    if closed then
      let (rest, behind) ← someTagText isTagCharacter behind
      some (.tag (String.ofList handle) (String.ofList rest), behind)
    else
      let (rest, behind) ← tagText isTagCharacter behind
      let whole := String.ofList (handle.drop 1 ++ rest)
      some (if whole.isEmpty then .tag "" "!" else .tag "!" whole, behind)

/-- The tag that begins here, and the place behind it. -/
def tagToken (inFlow : Bool) (cur : Cursor) : Option (Token × Cursor) :=
  (openTag cur).filter fun r => r.2.wordEndsAt 0 || (inFlow && r.2.sees ',')

def versionNumber (cur : Cursor) : Option (Nat × Cursor) :=
  let (digits, behind) := cur.span Char.isDigit
  if digits.isEmpty || 9 < digits.length then none
  else some (digits.foldl (fun n c => n * 10 + (c.toNat - 48)) 0, behind)

def versionDirective (cur : Cursor) : Option (Directive × Cursor) := do
  let (major, behind) ← versionNumber (cur.skipWhile isBlank)
  if behind.sees '.' then
    let (minor, behind) ← versionNumber (behind.advance 1)
    some (.version major minor, behind)
  else none

/-- The handle and expansion that a directive gives. -/
def tagDirective (cur : Cursor) : Option (Directive × Cursor) := do
  let (handle, closed, behind) ← tagHandle (cur.skipWhile isBlank)
  if (closed || handle == ['!']) && behind.holdsAt 0 isBlank then
    let (expansion, behind) ← someTagText isVerbatimCharacter (behind.skipWhile isBlank)
    if behind.wordEndsAt 0 then
      some (.tagHandle (String.ofList handle) (String.ofList expansion), behind)
    else none
  else none

/-- The directive whose mark stands here, and the line below it. -/
def directiveToken (cur : Cursor) : Option (Token × Cursor) := do
  let (name, behind) := (cur.advance 1).span isNameCharacter
  if !behind.wordEndsAt 0 then none
  else
    let (d, behind) ←
      match String.ofList name with
      | "YAML" => versionDirective behind
      | "TAG" => tagDirective behind
      | _ => none
    let behind := (behind.skipWhile isBlank).skipComment
    if behind.atLineEnd then some (.directive d, behind.passBreak) else none

end Qualification.Yaml
