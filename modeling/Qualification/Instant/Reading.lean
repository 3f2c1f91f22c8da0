import Qualification.Numeric.Word
import Qualification.Instant.Basic
import Qualification.Decimal.Basic
import Qualification.Text.Character

/-! # Instants from text

Two readers of the same notation. The strict one takes what `Instant.toText` writes for a
four-digit year, with any offset; the lenient one also takes blanks before numbers and
marks, one-digit numbers, and years with a sign.
-/

namespace Qualification.Instant

/-- Why a text is not an instant. -/
inductive TextFault where
  /-- A number or the whole lies out of range. -/
  | outOfRange
  /-- A character that does not belong there. -/
  | invalid
  | tooShort
  | tooLong
  /-- In UTC the year would be out of range. -/
  | impossible
  deriving Repr, DecidableEq

def TextFault.message : TextFault → String
  | outOfRange => "input is out of range"
  | invalid => "input contains invalid characters"
  | tooShort => "premature end of input"
  | tooLong => "trailing input"
  | impossible => "no possible date and time matching input"

/-- A reader of the start of a text. -/
abbrev Scan (α : Type) := List Char → Except TextFault (α × List Char)

/-- A number of between `least` and `most` digits. -/
def scanNumber (least most : Nat) : Scan Nat := fun cs =>
  let ds := (cs.take most).takeWhile Decimal.isDigit
  if ds.length < least then .error (if cs.length < least then .tooShort else .invalid)
  else if !Word.holdsSigned 64 (Decimal.ofDigits ds) then .error .outOfRange
  else .ok (Decimal.ofDigits ds, cs.drop ds.length)

def scanMark (mark : Char) : Scan Unit
  | [] => .error .tooShort
  | c :: rest => if c = mark then .ok ((), rest) else .error .invalid

def skipBlanks (cs : List Char) : List Char :=
  cs.dropWhile Text.isBlankChar

def scanDivider : Scan Unit
  | [] => .error .tooShort
  | c :: rest =>
      if c = 'T' || c = 't' || c = ' ' then .ok ((), rest) else .error .invalid

/-- A fraction behind a point, if there is one, in nanoseconds; digits beyond the ninth
    are cut. -/
def scanFraction : Scan Nat := fun cs =>
  match cs with
  | '.' :: rest => do
      let (n, more) ← scanNumber 1 9 rest
      let used := rest.length - more.length
      return (n * Nat.pow 10 (9 - used), more.dropWhile Decimal.isDigit)
  | _ => .ok (0, cs)

def scanPair : Scan (Char × Char)
  | [] => .error .tooShort
  | [c] => .error (if c.toNat < 128 then .tooShort else .invalid)
  | a :: b :: rest => .ok ((a, b), rest)

def scanSign : Scan Bool
  | [] => .error .tooShort
  | '+' :: rest => .ok (false, rest)
  | '-' :: rest => .ok (true, rest)
  | '−' :: rest => .ok (true, rest)
  | _ => .error .invalid

/-- An offset in seconds: `Z`, or a sign, hours and minutes with a divider. -/
def scanOffset (divider : Scan Unit) : Scan Int := fun cs =>
  match cs with
  | 'Z' :: rest | 'z' :: rest => .ok (0, rest)
  | _ => do
      let (negative, cs) ← scanSign cs
      let ((a, b), cs) ← scanPair cs
      if !(Decimal.isDigit a && Decimal.isDigit b) then .error .invalid
      let (_, cs) ← divider cs
      let ((c, d), cs) ← scanPair cs
      if !(Decimal.isDigit c && Decimal.isDigit d) then .error .invalid
      if '6' ≤ c then .error .outOfRange
      let n : Int := Decimal.ofDigits [a, b] * 3600 + Decimal.ofDigits [c, d] * 60
      return (if negative then -n else n, cs)

def within (low high : Nat) (n : Nat) : Except TextFault Unit :=
  if low ≤ n && n ≤ high then .ok () else .error .outOfRange

/-- The parts of a text that writes an instant. -/
structure Parts where
  day : CalendarDay
  hour : Nat
  minute : Nat
  second : Nat
  nanos : Nat
  offset : Int

/-- Can an instant lie in the year? -/
def isYear (year : Int) : Bool :=
  firstYear ≤ year && year ≤ lastYear

/-- The instant that parts write; second sixty is the second before it gone on. -/
def Parts.instant (p : Parts) : Instant :=
  let leap := p.second / 60
  let clock := p.hour * 3600 + p.minute * 60 + (p.second - leap)
  ⟨p.day.toDays * 86400 + clock - p.offset, p.nanos + leap * Instant.second⟩

def ofParts (p : Parts) : Except TextFault Instant :=
  if !(isYear p.day.year && p.day.isValid && p.offset.natAbs < 86400) then .error .outOfRange
  else if isYear p.instant.day.year then .ok p.instant
  else .error .impossible

/-- A number of at most two digits within bounds, blanks before it allowed. -/
def scanLenient (low high : Nat) : Scan Nat := fun cs => do
  let (n, cs) ← scanNumber 1 2 (skipBlanks cs)
  within low high n
  return (n, cs)

/-- A year of up to four digits, or of any number of digits behind a sign. -/
def scanYear : Scan Int := fun cs => do
  let bounded (n : Int) (rest : List Char) : Except TextFault (Int × List Char) :=
    if Word.holdsSigned 32 n then .ok (n, rest) else .error .outOfRange
  match skipBlanks cs with
  | '-' :: rest => do
      let (n, rest) ← scanNumber 1 rest.length.succ rest
      bounded (-(n : Int)) rest
  | '+' :: rest => do
      let (n, rest) ← scanNumber 1 rest.length.succ rest
      bounded n rest
  | rest => do
      let (n, rest) ← scanNumber 1 4 rest
      bounded n rest

/-- The offset of a lenient text: also the name of UTC, and any blanks and colons as
    divider. -/
def scanLenientOffset : Scan Int := fun cs =>
  match cs with
  | a :: b :: c :: rest =>
      if a.toUpper = 'U' && b.toUpper = 'T' && c.toUpper = 'C' then .ok (0, rest)
      else scanOffset loose cs
  | _ => scanOffset loose cs
where
  loose : Scan Unit := fun cs =>
    .ok ((), cs.dropWhile fun c => c == ':' || Text.isBlankChar c)

/-- Read an instant leniently; only blanks may follow. -/
def read (text : String) : Except TextFault Instant := do
  let (year, cs) ← scanYear text.toList
  let (_, cs) ← scanMark '-' (skipBlanks cs)
  let (month, cs) ← scanLenient 1 12 cs
  let (_, cs) ← scanMark '-' (skipBlanks cs)
  let (day, cs) ← scanLenient 1 31 cs
  let (_, cs) ← scanDivider cs
  let (hour, cs) ← scanLenient 0 23 cs
  let (_, cs) ← scanMark ':' (skipBlanks cs)
  let (minute, cs) ← scanLenient 0 59 cs
  let (_, cs) ← scanMark ':' (skipBlanks cs)
  let (second, cs) ← scanLenient 0 60 cs
  let (nanos, cs) ← scanFraction cs
  let (offset, cs) ← scanLenientOffset (skipBlanks cs)
  if !(skipBlanks cs).isEmpty then .error .tooLong
  ofParts ⟨⟨year, month, day⟩, hour, minute, second, nanos, offset⟩

/-- A number of exactly two digits within bounds. -/
def scanStrict (low high : Nat) : Scan Nat := fun cs => do
  let (n, cs) ← scanNumber 2 2 cs
  within low high n
  return (n, cs)

def readStrict (text : String) : Except TextFault Instant := do
  let (year, cs) ← scanNumber 4 4 text.toList
  let (_, cs) ← scanMark '-' cs
  let (month, cs) ← scanStrict 1 12 cs
  let (_, cs) ← scanMark '-' cs
  let (day, cs) ← scanStrict 1 31 cs
  let (_, cs) ← scanDivider cs
  let (hour, cs) ← scanStrict 0 23 cs
  let (_, cs) ← scanMark ':' cs
  let (minute, cs) ← scanStrict 0 59 cs
  let (_, cs) ← scanMark ':' cs
  let (second, cs) ← scanStrict 0 60 cs
  let (nanos, cs) ← scanFraction cs
  let (offset, cs) ← scanOffset (scanMark ':') cs
  if !cs.isEmpty then .error .tooLong
  ofParts ⟨⟨year, month, day⟩, hour, minute, second, nanos, offset⟩

end Qualification.Instant
