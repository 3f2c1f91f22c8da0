import Qualification.QualityControl.Check
import Qualification.Run.Transition

/-! # Quality control of a run

All checks over the ledger of a run, always computed anew. A protocol that has settings of
its own uses them; the others use the fallback.
-/

namespace Qualification.QcAssessment

/-- The entries that count towards an expected measurement. -/
def matching (ledger : Ledger) (s : MeasurementSpec) : List Measurement :=
  (ledger.usable s.parameter).filter fun m => s.type.all fun t => m.type == t

/-- The readings that count towards an expected measurement. -/
def replicates (ledger : Ledger) (s : MeasurementSpec) : List Float :=
  (matching ledger s).filterMap Measurement.reading?

def total : List Nat → Nat
  | [] => 0
  | n :: rest => n + total rest

def expectedCount (specs : List MeasurementSpec) : Nat :=
  total (specs.map (·.expectedCount))

/-- How many of the expected measurements are there; more than expected do not count. -/
def actualCount (ledger : Ledger) (specs : List MeasurementSpec) : Nat :=
  total (specs.map fun s => min (matching ledger s).length s.expectedCount)

def completeness (ledger : Ledger) (specs : List MeasurementSpec) (settings : QcSettings) :
    QcFinding :=
  QcCheck.completeness (actualCount ledger specs) (expectedCount specs)
    settings.minCompletionRate

/-- A check for each measurement that is expected more than once. -/
def repeatability (ledger : Ledger) (specs : List MeasurementSpec) (settings : QcSettings) :
    List QcFinding :=
  (specs.filter fun s => 2 ≤ s.expectedCount).map fun s =>
    QcCheck.repeatability ("repeatability:" ++ s.id) (replicates ledger s) settings.maxCv

/-- The checks of the surroundings that are configured. -/
def environment (ledger : Ledger) (settings : QcSettings) : List QcFinding :=
  (settings.irradiance.map fun t =>
      QcCheck.irradiance (ledger.readings t.parameter) t).toList
    ++ (settings.temperature.map fun t =>
      QcCheck.temperature (ledger.readings t.parameter) t).toList

/-- A screening of each parameter that has enough readings. -/
def screening (ledger : Ledger) (settings : QcSettings) : List QcFinding :=
  match settings.outlier.method? with
  | none => []
  | some method =>
      (ledger.parameters.filter fun parameter =>
          settings.outlier.minPoints ≤ (ledger.readings parameter).length).map fun parameter =>
        QcCheck.outliers parameter (ledger.readings parameter) method

/-- All findings on a ledger, in a fixed order. -/
def findings (ledger : Ledger) (specs : List MeasurementSpec) (settings : QcSettings) :
    List QcFinding :=
  completeness ledger specs settings :: repeatability ledger specs settings
    ++ [QcCheck.chronology ledger.timestamps]
    ++ environment ledger settings
    ++ screening ledger settings

/-- All findings on a run of a protocol. -/
def assess (run : TestRun) (p : ProtocolDefinition) (fallback : QcSettings) :
    Except EngineError (List QcFinding) :=
  (run.requireProtocol p).map fun () =>
    findings run.ledger p.measurementSpecs (p.qc.getD fallback)

end Qualification.QcAssessment
