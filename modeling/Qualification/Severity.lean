import Qualification.Document.Word

/-! # Severity

How grave a failed criterion or a finding is, from least to most.
-/

namespace Qualification

open Document

/-- How grave a failure is. -/
inductive Severity where
  | info
  | warning
  | error
  | critical
  deriving Repr, DecidableEq

namespace Severity

def text : Severity → String
  | info => "info"
  | warning => "warning"
  | error => "error"
  | critical => "critical"

def words : Words Severity := [
  (info, ["info"]),
  (warning, ["minor", "warn", "warning"]),
  (error, ["error", "major"]),
  (critical, ["critical"])]

def rank : Severity → Nat
  | info => 0
  | warning => 1
  | error => 2
  | critical => 3

/-- Does a failed criterion of this severity fail the whole run? -/
def isBlocking : Severity → Bool
  | error | critical => true
  | info | warning => false

def max (a b : Severity) : Severity :=
  if a.rank < b.rank then b else a

def worst? : List Severity → Option Severity
  | [] => none
  | a :: rest => some (rest.foldl max a)

def toJson (s : Severity) : Json :=
  .text s.text

def decode : Decoder Severity :=
  words.read

end Severity

end Qualification
