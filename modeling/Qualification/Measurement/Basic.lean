import Qualification.Measurement.Value
import Qualification.Instant.Codec

/-! # Measurements

One entry of the ledger of a run, and the form in which a caller submits one.
-/

namespace Qualification

open Document

/-- When in a test a measurement was taken. -/
inductive MeasurementType where
  | preTest
  | duringTest
  | postTest
  | initial
  | duringExposure
  | postExposure
  deriving Repr, DecidableEq

namespace MeasurementType

def text : MeasurementType → String
  | preTest => "pre_test"
  | duringTest => "during_test"
  | postTest => "post_test"
  | initial => "initial"
  | duringExposure => "during_exposure"
  | postExposure => "post_exposure"

def words : Words MeasurementType :=
  [preTest, duringTest, postTest, initial, duringExposure, postExposure].map fun t =>
    (t, [t.text])

def ofText? (s : String) : Option MeasurementType :=
  words.find? s

end MeasurementType

/-- How far a measurement is trusted. -/
inductive QualityFlag where
  | good
  | suspect
  /-- Kept in the ledger and counted nowhere. -/
  | bad
  deriving Repr, DecidableEq

namespace QualityFlag

def text : QualityFlag → String
  | good => "GOOD"
  | suspect => "SUSPECT"
  | bad => "BAD"

def words : Words QualityFlag :=
  [good, suspect, bad].map fun f => (f, [f.text])

def ofText? (s : String) : Option QualityFlag :=
  words.find? s

def isUsable (f : QualityFlag) : Bool :=
  f != bad

end QualityFlag

/-- A recorded measurement. -/
structure Measurement where
  id : String
  runId : String
  parameter : String
  value : MeasuredValue
  unit : Option String
  timestamp : Instant
  phaseId : Option String
  stepId : Option String
  /-- When in the test it was taken. -/
  type : MeasurementType
  flag : QualityFlag
  notes : Option String
  metadata : Dictionary Json
  deriving Repr, BEq

namespace Measurement

def reading? (m : Measurement) : Option Float :=
  match m.value with
  | .numeric x => some x
  | _ => none

def isUsable (m : Measurement) : Bool :=
  m.flag.isUsable

end Measurement

/-- A measurement as it is submitted, before it has an identity. -/
structure NewMeasurement where
  parameter : String
  value : MeasuredValue
  unit : Option String
  /-- When in the test it was taken. -/
  type : MeasurementType
  /-- When it was taken, if the instrument knows. -/
  timestamp : Option Instant
  /-- The step that it is meant for, if not the one in progress. -/
  stepId : Option String
  metadata : Dictionary Json
  deriving Repr, BEq

end Qualification
