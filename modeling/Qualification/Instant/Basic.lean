/-! # Instants

A point in time in UTC, to the nanosecond. A leap second is the second before it gone on:
its nanoseconds run from one thousand million up.
-/

namespace Qualification

/-- A point in time. -/
structure Instant where
  seconds : Int
  /-- Nanoseconds into the second, below two thousand million. -/
  nanos : Nat
  deriving Repr, DecidableEq, Inhabited

/-- A calendar day. -/
structure CalendarDay where
  /-- The year; year zero is the one before year one. -/
  year : Int
  month : Nat
  /-- The day of the month from 1. -/
  day : Nat
  deriving Repr, DecidableEq

namespace CalendarDay

def isLeapYear (year : Int) : Bool :=
  year % 4 == 0 && (year % 100 != 0 || year % 400 == 0)

def daysInMonth (year : Int) (month : Nat) : Nat :=
  if month = 2 then if isLeapYear year then 29 else 28
  else if month = 4 || month = 6 || month = 9 || month = 11 then 30
  else 31

def isValid (d : CalendarDay) : Bool :=
  1 ≤ d.month && d.month ≤ 12 && 1 ≤ d.day && d.day ≤ daysInMonth d.year d.month

/-- The number of days since the start of 1970. Years are counted from March, so that the
    day of a leap year comes last, in eras of 400 years. -/
def toDays (d : CalendarDay) : Int :=
  let year := if d.month ≤ 2 then d.year - 1 else d.year
  let era := year.fdiv 400
  let yearOfEra := year - era * 400
  let shifted : Int := if d.month ≤ 2 then d.month + 9 else d.month - 3
  let dayOfYear := (153 * shifted + 2) / 5 + d.day - 1
  let dayOfEra := yearOfEra * 365 + yearOfEra / 4 - yearOfEra / 100 + dayOfYear
  era * 146097 + dayOfEra - 719468

/-- The day at a number of days since the start of 1970. -/
def ofDays (days : Int) : CalendarDay :=
  let z := days + 719468
  let era := z.fdiv 146097
  let dayOfEra := z - era * 146097
  let yearOfEra := (dayOfEra - dayOfEra / 1460 + dayOfEra / 36524 - dayOfEra / 146096) / 365
  let dayOfYear := dayOfEra - (365 * yearOfEra + yearOfEra / 4 - yearOfEra / 100)
  let shifted := (5 * dayOfYear + 2) / 153
  let day := dayOfYear - (153 * shifted + 2) / 5 + 1
  let month := if shifted < 10 then shifted + 3 else shifted - 9
  let year := yearOfEra + era * 400 + (if month ≤ 2 then 1 else 0)
  ⟨year, month.toNat, day.toNat⟩

end CalendarDay

namespace Instant

/-- The first year that an instant can lie in. -/
def firstYear : Int :=
  -262143

/-- The last year that an instant can lie in. -/
def lastYear : Int :=
  262142

def second : Nat :=
  1000000000

def day (t : Instant) : CalendarDay :=
  .ofDays (t.seconds.fdiv 86400)

def secondOfDay (t : Instant) : Nat :=
  (t.seconds.fmod 86400).toNat

def isLeap (t : Instant) : Bool :=
  second ≤ t.nanos

def le (s t : Instant) : Bool :=
  s.seconds < t.seconds || (s.seconds == t.seconds && s.nanos ≤ t.nanos)

def lt (s t : Instant) : Bool :=
  !le t s

/-- Nanoseconds from one instant to another. A leap second on the earlier side of a
    difference within its day counts as one more second. -/
def since (t s : Instant) : Int :=
  let extra : Int :=
    if s.secondOfDay < t.secondOfDay && s.isLeap then 1
    else if t.secondOfDay < s.secondOfDay && t.isLeap then -1
    else 0
  (t.seconds - s.seconds + extra) * 1000000000 + ((t.nanos : Int) - (s.nanos : Int))

/-- Does the year fit the four digits of the usual notation? -/
def hasPlainYear (t : Instant) : Bool :=
  0 ≤ t.day.year && t.day.year ≤ 9999

end Instant

end Qualification
