import Qualification.Ledger
import Qualification.Numeric.Scalar

/-! # Points of a degradation series -/

namespace Qualification

/-- The power of a specimen after some exposure. -/
structure DegradationPoint where
  elapsedHours : Float
  pmax : Float
  /-- When in the test it was measured. -/
  type : MeasurementType
  deriving Repr, BEq

namespace DegradationPoint

def toJson (p : DegradationPoint) : Json :=
  .object [("elapsed_hours", .ofFloat p.elapsedHours), ("pmax", .ofFloat p.pmax),
    ("measurement_type", .text p.type.text)]

/-- The readings of a parameter that count, with their entries. -/
def readingsOf (parameter : String) (entries : List Measurement) :
    List (Measurement × Float) :=
  (entries.filter fun m => m.parameter == parameter && m.isUsable).filterMap fun m =>
    m.reading?.map fun x => (m, x)

def earliest? : List Instant → Option Instant
  | [] => none
  | t :: rest => some (rest.foldl (fun first u => if u.lt first then u else first) t)

/-- The hours from one instant to another, in whole milliseconds. -/
def hoursBetween (start t : Instant) : Float :=
  Float.ofInt (Int.tdiv (t.since start) 1000000) / 3600000.0

/-- The hours of exposure of an entry: as its instrument says, else by the clock. -/
def hoursOf (start : Instant) (m : Measurement) : Float :=
  ((Dictionary.get? "elapsed_hours" m.metadata).bind Json.toFloat?).getD
    (hoursBetween start m.timestamp)

/-- The points that an entry with a reading makes. -/
def ofReading (start : Instant) (r : Measurement × Float) : DegradationPoint :=
  ⟨hoursOf start r.1, r.2, r.1.type⟩

/-- The series of a parameter in the order of exposure; points of the same hour keep the
    order of recording. -/
def series (entries : List Measurement) (parameter : String) : List DegradationPoint :=
  let readings := readingsOf parameter entries
  match earliest? (readings.map (·.1.timestamp)) with
  | none => []
  | some start =>
      (readings.map (ofReading start)).mergeSort fun p q =>
        Binary64.totalLe p.elapsedHours q.elapsedHours

end DegradationPoint

end Qualification
