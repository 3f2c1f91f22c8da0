import Qualification.Measurement.Codec
import Qualification.Statistics.Outlier

/-! # Quality control settings

The thresholds of quality control, from a protocol or as configured defaults.
-/

namespace Qualification

open Document

/-- Irradiance must stay within a percentage of its nominal value. -/
structure IrradianceTolerance where
  parameter : String
  nominal : Float
  tolerancePct : Float
  deriving Repr, BEq

/-- Temperature must stay within a distance of its nominal value. -/
structure TemperatureTolerance where
  parameter : String
  nominal : Float
  /-- The admitted deviation, in the unit of the readings. -/
  tolerance : Float
  deriving Repr, BEq

/-- The choice of outlier screening. -/
inductive Screening where
  | iqr
  | zScore
  | mad
  deriving Repr, DecidableEq

/-- How outliers are screened. -/
structure OutlierSettings where
  method : Screening
  /-- The multiplier; standard scores have no usual one. -/
  threshold : Option Float
  minPoints : Nat
  deriving Repr, BEq

/-- The thresholds of quality control. -/
structure QcSettings where
  /-- The share of expected readings that must be there, in percent. -/
  minCompletionRate : Float
  /-- The greatest coefficient of variation of repeated readings, in percent. -/
  maxCv : Float
  /-- The tolerance of irradiance, if it is checked. -/
  irradiance : Option IrradianceTolerance
  /-- The tolerance of temperature, if it is checked. -/
  temperature : Option TemperatureTolerance
  outlier : OutlierSettings
  deriving Repr, BEq

namespace Screening

def text : Screening → String
  | iqr => "iqr"
  | zScore => "zscore"
  | mad => "mad"

def words : Words Screening :=
  [(iqr, ["iqr"]), (zScore, ["z_score", "zscore"]), (mad, ["mad"])]

end Screening

namespace IrradianceTolerance

def toJson (t : IrradianceTolerance) : Json :=
  .object [("parameter", .text t.parameter), ("nominal", .ofFloat t.nominal),
    ("tolerance_pct", .ofFloat t.tolerancePct)]

def decode : Decoder IrradianceTolerance :=
  Record.read "IrradianceTolerance" (IrradianceTolerance.mk
    <$> .withDefault "parameter" Decoder.text "irradiance"
    <*> .required "nominal" Decoder.float
    <*> .required "tolerance_pct" Decoder.float)

end IrradianceTolerance

namespace TemperatureTolerance

def toJson (t : TemperatureTolerance) : Json :=
  .object [("parameter", .text t.parameter), ("nominal", .ofFloat t.nominal),
    ("tolerance", .ofFloat t.tolerance)]

def decode : Decoder TemperatureTolerance :=
  Record.read "TemperatureTolerance" (TemperatureTolerance.mk
    <$> .withDefault "parameter" Decoder.text "temperature"
    <*> .required "nominal" Decoder.float
    <*> .required "tolerance" Decoder.float)

end TemperatureTolerance

namespace OutlierSettings

def default : OutlierSettings :=
  ⟨.iqr, none, 4⟩

def toJson (s : OutlierSettings) : Json :=
  .object ([("method", .text s.method.text)]
    ++ Json.memberOf? "threshold" .ofFloat s.threshold
    ++ [("min_points", .ofNat s.minPoints)])

def decode : Decoder OutlierSettings :=
  Record.read "OutlierSettings" (OutlierSettings.mk
    <$> .withDefault "method" Screening.words.read .iqr
    <*> .optionalDefault "threshold" Decoder.float
    <*> .withDefault "min_points" Decoder.count64 4)

/-- The screening that the settings ask for; the usual multiplier of quartiles is 1.5, of
    median deviations 3.5. -/
def method? (s : OutlierSettings) : Option (Statistics.OutlierMethod Float) :=
  match s.method, s.threshold with
  | .iqr, k => some (.iqr (k.getD 1.5))
  | .mad, k => some (.mad (k.getD 3.5))
  | .zScore, some k => some (.zScore k)
  | .zScore, none => none

end OutlierSettings

namespace QcSettings

def default : QcSettings :=
  ⟨95.0, 2.0, none, none, .default⟩

def toJson (s : QcSettings) : Json :=
  .object ([("min_completion_rate", .ofFloat s.minCompletionRate), ("max_cv", .ofFloat s.maxCv)]
    ++ Json.memberOf? "irradiance" IrradianceTolerance.toJson s.irradiance
    ++ Json.memberOf? "temperature" TemperatureTolerance.toJson s.temperature
    ++ [("outlier", s.outlier.toJson)])

def decode : Decoder QcSettings :=
  Record.read "QcSettings" (QcSettings.mk
    <$> .withDefault "min_completion_rate" Decoder.float 95.0
    <*> .withDefault "max_cv" Decoder.float 2.0
    <*> .optionalDefault "irradiance" IrradianceTolerance.decode
    <*> .optionalDefault "temperature" TemperatureTolerance.decode
    <*> .withDefault "outlier" OutlierSettings.decode .default)

end QcSettings

end Qualification
