import Qualification.Degradation.Point
import Qualification.Statistics.Regression
import Qualification.Decimal.Layout

/-! # Degradation analysis

The loss of power over a series of exposures: against a baseline, as a trend, when it came
to rest, and how much of it came back.
-/

namespace Qualification.Degradation

open Statistics

/-- Why a series cannot be analysed. -/
inductive AnalysisError where
  | noBaseline (reason : String)
  | insufficientData (reason : String)
  deriving Repr, DecidableEq

def AnalysisError.message : AnalysisError → String
  | noBaseline reason => "no baseline: " ++ reason
  | insufficientData reason => "insufficient data: " ++ reason

/-- When a series counts as stable. -/
structure StabilizationOptions where
  /-- How many of the last points are looked at. -/
  window : Nat
  /-- Consecutive changes below this are stable, in percentage points. -/
  threshold : Float
  deriving Repr, BEq

/-- How a series is analysed. -/
structure Options where
  /-- The power to compare with, if not that of the initial points. -/
  baseline : Option Float
  stabilization : StabilizationOptions
  deriving Repr, BEq

/-- The options when only a baseline is given. -/
def Options.ofBaseline (baseline : Option Float) : Options :=
  ⟨baseline, ⟨3, 0.5⟩⟩

/-- Where a baseline comes from. -/
inductive BaselineSource where
  | initial
  | provided
  deriving Repr, DecidableEq

/-- A point with its loss. -/
structure PointLoss where
  point : DegradationPoint
  /-- The loss in percent of the baseline. -/
  lossPct : Float
  deriving Repr, BEq

/-- Whether and when a series came to rest. -/
structure Stabilization where
  isStabilized : Bool
  /-- The largest change among the last points, if there are enough of them. -/
  maxRecentChange : Option Float
  /-- The hour from which the series is stable. -/
  onsetHours : Option Float
  deriving Repr, BEq

/-- How much of a loss came back after exposure. -/
structure Recovery where
  /-- Is there a point during and one after exposure? -/
  isMeasured : Bool
  powerLoss : Float
  powerRecovered : Float
  /-- The share that came back, in percent. -/
  recoveryPct : Float
  deriving Repr, BEq

/-- What the analysis of a series finds. -/
structure Report where
  baseline : Float
  baselineSource : BaselineSource
  points : List PointLoss
  maxLossPct : Float
  /-- The loss of the last point that is not initial. -/
  finalLossPct : Float
  rate : Float
  rateRSquared : Float
  /-- Whether and when the series came to rest. -/
  stabilization : Stabilization
  recovery : Recovery
  deriving Repr, BEq

/-- The power to compare with: a given one must be finite and not zero. -/
def baselineOf (points : List DegradationPoint) :
    Option Float → Except AnalysisError (Float × BaselineSource)
  | some b =>
      if b == 0.0 || !b.isFinite then
        .error (.noBaseline ("provided baseline " ++ Decimal.plain b ++ " is unusable"))
      else .ok (b, .provided)
  | none =>
      match mean ((points.filter fun p => p.type == .initial).map (·.pmax)) with
      | none => .error (.noBaseline "no initial measurements")
      | some b =>
          if b == 0.0 then .error (.noBaseline "initial measurements average to zero")
          else .ok (b, .initial)

/-- The loss of a power against a baseline, in percent. -/
def lossPct (baseline pmax : Float) : Float :=
  100.0 * (baseline - pmax) / baseline

/-- The changes from each value to the next. -/
def steps : List Float → List Float
  | x :: y :: rest => (y - x).abs :: steps (y :: rest)
  | _ => []

/-- The largest change from a value to the next, zero if there is none. -/
def maxStep (values : List Float) : Float :=
  (steps values).foldl Binary64.max 0.0

/-- Walk back from a position in windows of a size to the first whose change reaches the
    threshold; the onset is the position behind it, else the start. -/
def onset (size : Nat) (threshold : Float) (values : List Float) (stop : Nat) : Nat :=
  if _h : stop = 0 ∨ size = 0 then 0
  else
    let start := stop - size
    if threshold ≤ maxStep ((values.take stop).drop start) then stop
    else onset size threshold values start
termination_by stop
decreasing_by omega

/-- Whether the last values of a series are stable, and since which hour. -/
def stabilization (hours values : List Float) (o : StabilizationOptions) : Stabilization :=
  let size := max o.window 2
  if values.length < size then ⟨false, none, none⟩
  else
    let recent := maxStep (values.drop (values.length - size))
    let isStable : Bool := recent < o.threshold
    ⟨isStable, some recent,
      if isStable then hours[onset size o.threshold values values.length]? else none⟩

def lastOf? (points : List DegradationPoint) (type : MeasurementType) :
    Option DegradationPoint :=
  (points.filter fun p => p.type == type).getLast?

/-- How much of the loss during exposure came back. -/
def recovery (points : List DegradationPoint) (baseline : Float) : Recovery :=
  match lastOf? points .duringExposure, lastOf? points .postExposure with
  | some during, some post =>
      let loss := baseline - during.pmax
      let recovered := post.pmax - during.pmax
      ⟨true, loss, recovered, if 0.0 < loss then 100.0 * recovered / loss else 0.0⟩
  | _, _ => ⟨false, 0.0, 0.0, 0.0⟩

def isFinitePoint (p : DegradationPoint) : Bool :=
  p.pmax.isFinite && p.elapsedHours.isFinite

def analyze (points : List DegradationPoint) (o : Options) :
    Except AnalysisError Report :=
  if points.isEmpty then .error (.insufficientData "no points")
  else match points.find? fun p => !isFinitePoint p with
    | some p =>
        .error (.insufficientData
          ("non-finite point at " ++ Decimal.plain p.elapsedHours ++ " h"))
    | none =>
        match baselineOf points o.baseline with
        | .error e => .error e
        | .ok (baseline, source) =>
            let losses := points.map fun p => PointLoss.mk p (lossPct baseline p.pmax)
            let hours := points.map (·.elapsedHours)
            let values := losses.map (·.lossPct)
            let fit := linearRegression hours values
            .ok {
              baseline := baseline
              baselineSource := source
              points := losses
              maxLossPct := values.foldl Binary64.max (-Binary64.infinity)
              finalLossPct :=
                ((losses.filter fun l => l.point.type != .initial).getLast?.map
                  (·.lossPct)).getD 0.0
              rate := fit.slope
              rateRSquared := fit.rSquared
              stabilization := stabilization hours values o.stabilization
              recovery := recovery points baseline }

end Qualification.Degradation
