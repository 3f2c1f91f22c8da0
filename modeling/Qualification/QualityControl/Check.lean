import Qualification.QualityControl.Finding
import Qualification.Statistics.Summary

/-! # Quality control checks

Each check looks at plain numbers or times and reports a finding. Details are objects
whose names are in byte order.
-/

namespace Qualification.QcCheck

open Statistics

/-- The severity of a finding: none to speak of when the check passed. -/
def grade (passed : Bool) (failed : Severity) : Severity :=
  if passed then .info else failed

/-- Are enough of the expected readings there? Where none is expected, all are. -/
def completeness (actual expected : Nat) (minRate : Float) : QcFinding :=
  let rate : Float :=
    if expected = 0 then 100.0 else 100.0 * Float.ofNat actual / Float.ofNat expected
  let passed : Bool := minRate ≤ rate
  { name := "completeness"
    category := .completeness
    passed := passed
    severity := grade passed .error
    expected := .object [("count", .ofNat expected), ("min_rate", .ofFloat minRate)]
    actual := .object [("count", .ofNat actual), ("rate", .ofFloat rate)]
    message := actual.repr ++ "/" ++ expected.repr ++ " measurements recorded ("
      ++ Decimal.fixed 1 rate ++ "%, minimum " ++ Decimal.fixed 1 minRate ++ "%)" }

/-- Do repeated readings agree, by their coefficient of variation? -/
def repeatability (name : String) (values : List Float) (maxCv : Float) : QcFinding :=
  let finding (passed : Bool) (severity : Severity) (actual : Json) (message : String) :
      QcFinding :=
    ⟨name, .repeatability, passed, severity, .object [("max_cv", .ofFloat maxCv)], actual,
      message⟩
  if values.length < 2 then
    finding false .error (.object [("count", .ofNat values.length)])
      "insufficient measurements"
  else
    match coefficientOfVariation values with
    | none =>
        finding false .error
          (.object [("count", .ofNat values.length), ("mean", .float 0.0)]) "mean is zero"
    | some cv =>
        let passed : Bool := cv ≤ maxCv
        finding passed (grade passed .warning)
          (.object [("count", .ofNat values.length), ("cv", .ofFloat cv),
            ("mean", .ofFloat? (mean values)), ("stdev", .ofFloat? (sampleDeviation values))])
          ("CV " ++ Decimal.fixed 3 cv ++ "% (maximum " ++ Decimal.fixed 3 maxCv ++ "%)")

/-- The first time that is earlier than the one before it: its position and both. -/
def firstBreak? : Nat → List Instant → Option (Nat × Instant × Instant)
  | index, s :: t :: rest =>
      if t.lt s then some (index + 1, s, t) else firstBreak? (index + 1) (t :: rest)
  | _, _ => none

def chronology (times : List Instant) : QcFinding :=
  let finding (passed : Bool) (actual : Json) (message : String) : QcFinding :=
    ⟨"chronological_order", .chronology, passed, grade passed .error,
      .text "non-decreasing timestamps", actual, message⟩
  match firstBreak? 0 times with
  | none =>
      finding true (.object [("count", .ofNat times.length)])
        (times.length.repr ++ " timestamps in order")
  | some (index, before, after) =>
      finding false (.object [("index", .ofNat index)])
        ("timestamp at position " ++ index.repr ++ " (" ++ after.display
          ++ ") precedes the previous one (" ++ before.display ++ ")")

/-- The reading furthest from a nominal value; of equally far ones the last. -/
def furthest? (nominal : Float) : List Float → Option Float
  | [] => none
  | x :: rest =>
      some (rest.foldl (fun worst y =>
        if Binary64.totalLe (worst - nominal).abs (y - nominal).abs then y else worst) x)

/-- Do all readings lie within a band? Readings on its edges do. -/
def band (parameter : String) (readings : List Float) (nominal low high : Float) :
    QcFinding :=
  let finding (passed : Bool) (severity : Severity) (actual : Json) (message : String) :
      QcFinding :=
    ⟨"environment:" ++ parameter, .environment, passed, severity,
      .object [("max", .ofFloat high), ("min", .ofFloat low), ("nominal", .ofFloat nominal)],
      actual, message⟩
  let edges := "[" ++ Decimal.plain low ++ ", " ++ Decimal.plain high ++ "]"
  match furthest? nominal readings with
  | none =>
      finding false .warning (.object [("count", .ofNat 0)]) "no readings recorded"
  | some worst =>
      let violations := (readings.filter fun x => x < low || high < x).length
      let passed := violations == 0
      finding passed (grade passed .warning)
        (.object [("count", .ofNat readings.length), ("violations", .ofNat violations),
          ("worst", .ofFloat worst)])
        (if passed then "all " ++ readings.length.repr ++ " readings within " ++ edges
          else violations.repr ++ " of " ++ readings.length.repr ++ " readings outside "
            ++ edges ++ ", worst " ++ Decimal.plain worst)

/-- Did irradiance stay within its percentage of the nominal value? -/
def irradiance (readings : List Float) (t : IrradianceTolerance) : QcFinding :=
  let span := t.nominal * t.tolerancePct / 100.0
  band t.parameter readings t.nominal (t.nominal - span) (t.nominal + span)

/-- Did temperature stay within its distance of the nominal value? -/
def temperature (readings : List Float) (t : TemperatureTolerance) : QcFinding :=
  band t.parameter readings t.nominal (t.nominal - t.tolerance) (t.nominal + t.tolerance)

def outliers (parameter : String) (values : List Float) (method : OutlierMethod Float) :
    QcFinding :=
  let indices := detectOutliers values method
  let passed := indices.isEmpty
  { name := "outliers:" ++ parameter
    category := .outlier
    passed := passed
    severity := grade passed .warning
    expected := .object [("k", .ofFloat method.k), ("method", .text method.name)]
    actual := .object [("count", .ofNat values.length), ("indices", .ofList .ofNat indices),
      ("values", .ofList .ofFloat (indices.filterMap fun i => values[i]?))]
    message := indices.length.repr ++ " outlier(s) among " ++ values.length.repr
      ++ " readings (" ++ method.name ++ " k=" ++ Decimal.plain method.k ++ ")" }

end Qualification.QcCheck
