import Qualification.Keyed
import Qualification.Measurement.Codec

/-! # The measurement ledger

The measurements of a run in the order of recording. Entries are only ever appended; the
flag and the notes of an entry are all that may change afterwards.
-/

namespace Qualification

/-- Measurements in the order of recording. -/
structure Ledger where
  entries : List Measurement
  deriving Repr, BEq

namespace Ledger

/-- The ledger of a run that has recorded nothing. -/
def empty : Ledger :=
  ⟨[]⟩

def append (l : Ledger) (m : Measurement) : Ledger :=
  ⟨l.entries ++ [m]⟩

def get? (l : Ledger) (id : String) : Option Measurement :=
  l.entries.find? fun m => m.id = id

/-- Set the flag of an entry, and its notes if any are given. -/
def reflag (flag : QualityFlag) (notes : Option String) (m : Measurement) : Measurement :=
  { m with flag := flag, notes := notes.or m.notes }

/-- Set the flag of the entry with an identity, and its notes if any are given. -/
def setFlag (l : Ledger) (id : String) (flag : QualityFlag) (notes : Option String) :
    Ledger :=
  ⟨Keyed.changeFirst Measurement.id id (reflag flag notes) l.entries⟩

/-- The entries of a parameter that count, in the order of recording. -/
def usable (l : Ledger) (parameter : String) : List Measurement :=
  l.entries.filter fun m => m.parameter == parameter && m.isUsable

/-- The entry of a parameter that was recorded last and counts. -/
def latest? (l : Ledger) (parameter : String) : Option Measurement :=
  (l.usable parameter).getLast?

/-- The readings of a parameter that count, in the order of recording. -/
def readings (l : Ledger) (parameter : String) : List Float :=
  (l.usable parameter).filterMap Measurement.reading?

/-- The distinct texts of a list, in the order of first appearance, leaving out those
    already seen. -/
def distinct : List String → List String → List String
  | _, [] => []
  | seen, s :: rest =>
      if seen.contains s then distinct seen rest else s :: distinct (s :: seen) rest

/-- The parameters, in the order of first recording. -/
def parameters (l : Ledger) : List String :=
  distinct [] (l.entries.map (·.parameter))

/-- The times of the entries, in the order of recording. -/
def timestamps (l : Ledger) : List Instant :=
  l.entries.map (·.timestamp)

end Ledger

end Qualification
