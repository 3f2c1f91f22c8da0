import Qualification.Numeric.Word
import Qualification.Document.Decoder

/-! # JSON text as a document tree

Reading JSON text gives a tree that reaches as far as the text is well formed. Whether a
number is in range and a surrogate is paired matters only to a reader of the value, so
such places are marked and the text behind them is read on.
-/

namespace Qualification.Json

open Document

def isGap (c : Char) : Bool :=
  c == ' ' || c == '\n' || c == '\t' || c == '\r'

def skipGap (cs : List Char) : List Char :=
  cs.dropWhile isGap

/-- The value of a hexadecimal digit of either case. -/
def hexValue? (c : Char) : Option Nat :=
  if '0' ≤ c && c ≤ '9' then some (c.toNat - 48)
  else if 'a' ≤ c && c ≤ 'f' then some (c.toNat - 87)
  else if 'A' ≤ c && c ≤ 'F' then some (c.toNat - 55)
  else none

def octets (cs : List Char) : Nat :=
  cs.foldl (fun n c => n + c.utf8Size) 0

/-- The code unit written by four hexadecimal digits. -/
def hexUnit (cs : List Char) : Except Fault (Nat × List Char) :=
  let bad : Except Fault (Nat × List Char) :=
    .error (if octets (cs.take 4) < 4 then .endOfString else .badEscape)
  match cs with
  | a :: b :: c :: d :: rest =>
      match hexValue? a, hexValue? b, hexValue? c, hexValue? d with
      | some a, some b, some c, some d => .ok (((a * 16 + b) * 16 + c) * 16 + d, rest)
      | _, _, _, _ => bad
  | _ => bad

/-- Is the code unit the first of a pair? -/
def isLeading (n : Nat) : Bool :=
  0xD800 ≤ n && n ≤ 0xDBFF

/-- Is the code unit the second of a pair? -/
def isTrailing (n : Nat) : Bool :=
  0xDC00 ≤ n && n ≤ 0xDFFF

/-- The character of an escape by number; two units above the first plane. -/
def hexCharacter (cs : List Char) : Except Fault (Char × List Char) := do
  let (first, rest) ← hexUnit cs
  if isTrailing first then .error .loneSurrogate
  else if !isLeading first then .ok (Char.ofNat first, rest)
  else
    match rest with
    | [] => .error .endOfString
    | '\\' :: [] => .error .endOfString
    | '\\' :: 'u' :: more =>
        let (second, rest) ← hexUnit more
        if isTrailing second then
          .ok (Char.ofNat (0x10000 + (first - 0xD800) * 0x400 + (second - 0xDC00)), rest)
        else .error .loneSurrogate
    | _ => .error .endOfEscape

/-- The character of an escape of one letter. -/
def letterEscape? (c : Char) : Option Char :=
  match c with
  | '"' => some '"'
  | '\\' => some '\\'
  | '/' => some '/'
  | 'b' => some '\x08'
  | 'f' => some '\x0c'
  | 'n' => some '\n'
  | 'r' => some '\r'
  | 't' => some '\t'
  | _ => none

/-- The rest of a string behind its opening quote, with what is read so far reversed. -/
def readString : Nat → List Char → List Char → Except Fault (String × List Char)
  | _, _, [] => .error .endOfString
  | _, read, '"' :: rest => .ok (String.ofList read.reverse, rest)
  | _, _, '\\' :: [] => .error .endOfString
  | 0, _, _ => .error .endOfString
  | fuel + 1, read, '\\' :: c :: rest =>
      if c = 'u' then
        match hexCharacter rest with
        | .ok (character, more) => readString fuel (character :: read) more
        | .error fault => .error fault
      else
        match letterEscape? c with
        | some character => readString fuel (character :: read) rest
        | none => .error .badEscape
  | fuel + 1, read, c :: rest =>
      if c.toNat < 0x20 then .error .control else readString fuel (c :: read) rest

/-- Pass over the rest of a string behind its opening quote. -/
def skipString : Nat → List Char → Except Fault (List Char)
  | _, [] => .error .endOfString
  | _, '"' :: rest => .ok rest
  | _, '\\' :: [] => .error .endOfString
  | 0, _ => .error .endOfString
  | fuel + 1, '\\' :: c :: rest =>
      if c = 'u' then
        match hexUnit rest with
        | .ok (_, more) => skipString fuel more
        | .error fault => .error fault
      else if (letterEscape? c).isSome then skipString fuel rest
      else .error .badEscape
  | fuel + 1, c :: rest =>
      if c.toNat < 0x20 then .error .control else skipString fuel rest

def someDigits (cs : List Char) : Except Fault (List Char × List Char) :=
  let ds := cs.takeWhile Decimal.isDigit
  if ds.isEmpty then .error (if cs.isEmpty then .endOfValue else .badNumber)
  else .ok (ds, cs.dropWhile Decimal.isDigit)

/-- The digits before the point: no zero before another digit. -/
def wholeDigits (cs : List Char) : Except Fault (List Char × List Char) :=
  match cs with
  | '0' :: c :: rest =>
      if Decimal.isDigit c then .error .badNumber else .ok (['0'], c :: rest)
  | _ => someDigits cs

/-- The digits behind a point, if there is one. -/
def fractionDigits (cs : List Char) : Except Fault (Option (List Char) × List Char) :=
  match cs with
  | '.' :: rest => (someDigits rest).map fun r => (some r.1, r.2)
  | _ => .ok (none, cs)

def exponentDigits (cs : List Char) : Except Fault (Option Int × List Char) :=
  match cs with
  | c :: rest =>
      if c = 'e' || c = 'E' then
        let (negative, more) := Decimal.splitSign rest
        (someDigits more).map fun r =>
          let n : Int := Decimal.ofDigits r.1
          (some (if negative then -n else n), r.2)
      else .ok (none, cs)
  | [] => .ok (none, cs)

/-- The value of a number: whole when it is written so and fits 64 bits. -/
def numberAtom (negative : Bool) (whole : List Char) (fraction : Option (List Char))
    (exponent : Option Int) : Atom :=
  let n := Decimal.ofDigits whole
  let real := Decimal.signed negative
    (Decimal.ofParts whole (fraction.getD []) (exponent.getD 0)).toFloat
  if fraction.isSome || exponent.isSome then .float real
  else if negative then
    if 0 < n && Word.holdsSigned 64 (-(n : Int)) then .integer (-(n : Int)) else .float real
  else if Word.holdsUnsigned 64 n then .integer n else .float real

/-- A number at the start of a text. -/
def readNumber (cs : List Char) : Except Fault (Node × List Char) := do
  let (negative, digits) := match cs with
    | '-' :: rest => (true, rest)
    | _ => (false, cs)
  let (whole, rest) ← wholeDigits digits
  let (fraction, rest) ← fractionDigits rest
  let (exponent, rest) ← exponentDigits rest
  match numberAtom negative whole fraction exponent with
  | .float x =>
      if x.isFinite then return (.value (.float x), rest)
      else return (.damaged .numberOutOfRange none, rest)
  | atom => return (.value atom, rest)

/-- A word at the start of a text. -/
def readWord (word : List Char) (atom : Atom) : List Char → Except Fault (Node × List Char)
  | cs => go word cs
where
  go : List Char → List Char → Except Fault (Node × List Char)
    | [], rest => .ok (.value atom, rest)
    | _ :: _, [] => .error .endOfValue
    | a :: as, b :: bs => if a = b then go as bs else .error .expectedWord

/-- A tree and, if the text can be read on behind it, the rest of the text. -/
abbrev Reading := Node × Option (List Char)

/-- A place that the text cannot be read on from. -/
def stuck (fault : Fault) : Reading :=
  (.damaged fault (some fault), none)

/-- A scalar, or the fault in its place. -/
def settle : Except Fault (Node × List Char) → Reading
  | .ok (node, rest) => (node, some rest)
  | .error fault => stuck fault

def stringNode (cs : List Char) : Reading :=
  match readString cs.length [] cs with
  | .ok (s, rest) => (.ofText s, some rest)
  | .error fault =>
      match skipString cs.length cs with
      | .ok rest => (.damaged fault none, some rest)
      | .error other => (.damaged fault (some other), none)

/-- A collection after an item: the items so far, reversed, and what must follow. -/
inductive Step where
  /-- The end, or the fault in its place. -/
  | done (cut : Option Fault) (rest : Option (List Char))
  | more (rest : List Char)

/-- What follows at the place of the first item. -/
def listStart (cs : List Char) : Step :=
  match skipGap cs with
  | [] => .done (some .endOfList) none
  | ']' :: rest => .done none (some rest)
  | rest => .more rest

def listNext (cs : List Char) : Step :=
  match skipGap cs with
  | [] => .done (some .endOfList) none
  | ']' :: rest => .done none (some rest)
  | ',' :: rest =>
      match skipGap rest with
      | [] => .done (some .endOfValue) none
      | ']' :: _ => .done (some .trailingComma) none
      | more => .more more
  | _ => .done (some .expectedItemEnd) none

def keyStart (cs : List Char) : Step :=
  match cs with
  | '"' :: rest => .more rest
  | _ => .done (some .keyNotText) none

/-- What follows at the place of the first member; a key is read behind its quote. -/
def objectStart (cs : List Char) : Step :=
  match skipGap cs with
  | [] => .done (some .endOfObject) none
  | '}' :: rest => .done none (some rest)
  | rest => keyStart rest

def objectNext (cs : List Char) : Step :=
  match skipGap cs with
  | [] => .done (some .endOfObject) none
  | '}' :: rest => .done none (some rest)
  | ',' :: rest =>
      match skipGap rest with
      | [] => .done (some .endOfValue) none
      | '}' :: _ => .done (some .trailingComma) none
      | more => keyStart more
  | _ => .done (some .expectedMemberEnd) none

mutual

/-- The tree at the start of a text. Every step takes a character, so the length of the
    text is enough fuel. -/
def readNode : Nat → List Char → Reading
  | 0, _ => stuck .endOfValue
  | fuel + 1, cs =>
      match skipGap cs with
      | [] => stuck .endOfValue
      | 'n' :: rest => settle (readWord ['u', 'l', 'l'] .null rest)
      | 't' :: rest => settle (readWord ['r', 'u', 'e'] (.bool true) rest)
      | 'f' :: rest => settle (readWord ['a', 'l', 's', 'e'] (.bool false) rest)
      | '"' :: rest => stringNode rest
      | '[' :: rest => readItems fuel [] (listStart rest)
      | '{' :: rest => readMembers fuel [] (objectStart rest)
      | c :: rest =>
          if c = '-' || Decimal.isDigit c then settle (readNumber (c :: rest))
          else stuck .expectedValue

/-- The items of a list, those so far in reverse. -/
def readItems : Nat → List Node → Step → Reading
  | _, items, .done cut rest => (.sequence none items.reverse cut, rest)
  | 0, items, .more _ => (.sequence none items.reverse (some .endOfList), none)
  | fuel + 1, items, .more cs =>
      match readNode fuel cs with
      | (node, none) => (.sequence none (node :: items).reverse none, none)
      | (node, some rest) => readItems fuel (node :: items) (listNext rest)

/-- The members of an object, those so far in reverse. -/
def readMembers : Nat → List (Node × Node) → Step → Reading
  | _, entries, .done cut rest => (.mapping none entries.reverse cut, rest)
  | 0, entries, .more _ => (.mapping none entries.reverse (some .endOfObject), none)
  | fuel + 1, entries, .more cs =>
      match stringNode cs with
      | (key, none) => (.mapping none ((key, key) :: entries).reverse none, none)
      | (key, some rest) =>
          match skipGap rest with
          | ':' :: rest =>
              match readNode fuel rest with
              | (node, none) => (.mapping none ((key, node) :: entries).reverse none, none)
              | (node, some rest) =>
                  readMembers fuel ((key, node) :: entries) (objectNext rest)
          | rest =>
              let fault := if rest.isEmpty then Fault.endOfObject else .expectedColon
              (.mapping none ((key, .damaged fault (some fault)) :: entries).reverse none, none)

end

/-- The tree of a text, and the fault behind it if there is one. -/
def source (text : String) : Source :=
  let cs := text.toList
  match readNode (2 * cs.length + 2) cs with
  | (node, none) => ⟨node, none⟩
  | (node, some rest) =>
      ⟨node, if (skipGap rest).isEmpty then none else some .trailingCharacters⟩

def decode {α : Type} (decoder : Decoder α) (text : String) : Except Failure α :=
  (source text).decode .json decoder

def decodeValue {α : Type} (decoder : Decoder α) (value : Json) : Except Failure α :=
  decoder (Place.root .json) (Node.ofJson value)

def parse (text : String) : Except Failure Json :=
  decode Decoder.json text

end Qualification.Json
