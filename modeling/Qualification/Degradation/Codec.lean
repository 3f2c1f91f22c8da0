import Qualification.Degradation.Analysis

/-! # Degradation reports in documents -/

namespace Qualification.Degradation

open Document

namespace AnalysisError

/-- The forms of an error. -/
inductive Form where
  | noBaseline
  | insufficientData

def Form.words : Words Form :=
  [(noBaseline, ["no_baseline"]), (insufficientData, ["insufficient_data"])]

def toJson : AnalysisError → Json
  | noBaseline reason => .object [("error", .text "no_baseline"), ("reason", .text reason)]
  | insufficientData reason =>
      .object [("error", .text "insufficient_data"), ("reason", .text reason)]

def decodeForm : Form → Decoder AnalysisError
  | .noBaseline =>
      Record.readAs "struct variant AnalysisError::NoBaseline" false
        (noBaseline <$> .required "reason" Decoder.text)
  | .insufficientData =>
      Record.readAs "struct variant AnalysisError::InsufficientData" false
        (insufficientData <$> .required "reason" Decoder.text)

def decode : Decoder AnalysisError :=
  Tagged.Internal.read
    ⟨"internally tagged enum AnalysisError", "error", Words.readIdentifier Form.words,
      decodeForm⟩

end AnalysisError

namespace StabilizationOptions

def toJson (o : StabilizationOptions) : Json :=
  .object [("window", .ofNat o.window), ("threshold", .ofFloat o.threshold)]

def decode : Decoder StabilizationOptions :=
  Record.read "StabilizationOptions" (StabilizationOptions.mk
    <$> .required "window" Decoder.count64
    <*> .required "threshold" Decoder.float)

end StabilizationOptions

namespace Options

def toJson (o : Options) : Json :=
  .object [("baseline", .ofFloat? o.baseline), ("stabilization", o.stabilization.toJson)]

def decode : Decoder Options :=
  Record.read "DegradationOptions" (Options.mk
    <$> .optional "baseline" Decoder.float
    <*> .required "stabilization" StabilizationOptions.decode)

end Options

namespace BaselineSource

def text : BaselineSource → String
  | initial => "initial"
  | provided => "provided"

def words : Words BaselineSource :=
  [(initial, ["initial"]), (provided, ["provided"])]

end BaselineSource

namespace PointLoss

/-- A point with its loss in a document. -/
def toJson (l : PointLoss) : Json :=
  .object [("elapsed_hours", .ofFloat l.point.elapsedHours), ("pmax", .ofFloat l.point.pmax),
    ("measurement_type", .text l.point.type.text), ("degradation_pct", .ofFloat l.lossPct)]

def ofFields (hours pmax : Float) (type : MeasurementType) (loss : Float) : PointLoss :=
  ⟨⟨hours, pmax, type⟩, loss⟩

def decode : Decoder PointLoss :=
  Record.read "PointDegradation" (ofFields
    <$> .required "elapsed_hours" Decoder.float
    <*> .required "pmax" Decoder.float
    <*> .required "measurement_type" MeasurementType.words.read
    <*> .required "degradation_pct" Decoder.float)

end PointLoss

namespace Stabilization

def toJson (s : Stabilization) : Json :=
  .object [("is_stabilized", .bool s.isStabilized),
    ("max_recent_change", .ofFloat? s.maxRecentChange), ("onset_hours", .ofFloat? s.onsetHours)]

def decode : Decoder Stabilization :=
  Record.read "Stabilization" (Stabilization.mk
    <$> .required "is_stabilized" Decoder.bool
    <*> .optional "max_recent_change" Decoder.float
    <*> .optional "onset_hours" Decoder.float)

end Stabilization

namespace Recovery

def toJson (r : Recovery) : Json :=
  .object [("recovery_measured", .bool r.isMeasured), ("power_loss", .ofFloat r.powerLoss),
    ("power_recovered", .ofFloat r.powerRecovered), ("recovery_pct", .ofFloat r.recoveryPct)]

def decode : Decoder Recovery :=
  Record.read "Recovery" (Recovery.mk
    <$> .required "recovery_measured" Decoder.bool
    <*> .required "power_loss" Decoder.float
    <*> .required "power_recovered" Decoder.float
    <*> .required "recovery_pct" Decoder.float)

end Recovery

namespace Report

def toJson (r : Report) : Json :=
  .object [("baseline", .ofFloat r.baseline),
    ("baseline_source", .text r.baselineSource.text),
    ("points", .ofList PointLoss.toJson r.points),
    ("max_degradation_pct", .ofFloat r.maxLossPct),
    ("final_degradation_pct", .ofFloat r.finalLossPct),
    ("degradation_rate", .ofFloat r.rate),
    ("rate_r_squared", .ofFloat r.rateRSquared),
    ("stabilization", r.stabilization.toJson),
    ("recovery", r.recovery.toJson)]

def decode : Decoder Report :=
  Record.read "DegradationReport" (Report.mk
    <$> .required "baseline" Decoder.float
    <*> .required "baseline_source" BaselineSource.words.read
    <*> .required "points" (Decoder.list PointLoss.decode)
    <*> .required "max_degradation_pct" Decoder.float
    <*> .required "final_degradation_pct" Decoder.float
    <*> .required "degradation_rate" Decoder.float
    <*> .required "rate_r_squared" Decoder.float
    <*> .required "stabilization" Stabilization.decode
    <*> .required "recovery" Recovery.decode)

end Report

end Qualification.Degradation
