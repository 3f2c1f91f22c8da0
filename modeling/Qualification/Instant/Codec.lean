import Qualification.Document.Decoder
import Qualification.Instant.Basic
import Qualification.Instant.Reading

/-! # Written instants

An instant is written in UTC with as many groups of three fraction digits as it needs.
-/

namespace Qualification.Instant

/-- A number with at least the given count of digits. -/
def padded (width n : Nat) : String :=
  let ds := Nat.toDigits 10 n
  String.ofList (List.replicate (width - ds.length) '0' ++ ds)

/-- A year: four digits, or a sign and at least four when it has no four-digit form. -/
def yearText (year : Int) : String :=
  if 0 ≤ year && year ≤ 9999 then padded 4 year.toNat
  else (if year < 0 then "-" else "+") ++ padded 4 year.natAbs

/-- The fraction of a second in the fewest groups of three digits. -/
def fractionText (nanos : Nat) : String :=
  if nanos = 0 then ""
  else if nanos % 1000000 = 0 then "." ++ padded 3 (nanos / 1000000)
  else if nanos % 1000 = 0 then "." ++ padded 6 (nanos / 1000)
  else "." ++ padded 9 nanos

def dayText (t : Instant) : String :=
  yearText t.day.year ++ "-" ++ padded 2 t.day.month ++ "-" ++ padded 2 t.day.day

/-- The time of day to the second; a leap second is second sixty. -/
def clockText (t : Instant) : String :=
  let s := t.secondOfDay
  padded 2 (s / 3600) ++ ":" ++ padded 2 (s / 60 % 60) ++ ":"
    ++ padded 2 (s % 60 + t.nanos / second)

def timeText (t : Instant) : String :=
  clockText t ++ fractionText (t.nanos % second)

def toText (t : Instant) : String :=
  dayText t ++ "T" ++ timeText t ++ "Z"

def display (t : Instant) : String :=
  dayText t ++ " " ++ timeText t ++ " UTC"

def tableText (t : Instant) : String :=
  dayText t ++ " " ++ clockText t

open Document

def toJson (t : Instant) : Json :=
  .text t.toText

def decode : Decoder Instant := fun place node =>
  let settle (s : String) : Except Failure Instant :=
    match read s with
    | .ok t => .ok t
    | .error fault => place.fail (.refused fault.message)
  match node with
  | .value (.text s) => settle s
  | .written scalar => settle scalar.text
  | other => mismatch place other "an RFC 3339 formatted date and time string"

end Qualification.Instant
