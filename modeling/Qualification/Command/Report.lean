import Qualification.Command.Output
import Qualification.Command.Request
import Qualification.Degradation.Codec
import Qualification.QualityControl.Finding
import Qualification.Run.Codec
import Qualification.Store.Summary

/-! # Reports

Runs, findings and analyses as lines for a reader and as documents. In a document every
mapping is in the order of its keys, except that a list of records keeps the order of
their fields.
-/

namespace Qualification.Report

def mark : Option Bool → String
  | some true => "✔"
  | some false => "✖"
  | none => "?"

/-- A remark in brackets, if there is one. -/
def remark (text : Option String) : String :=
  match text with
  | some s => "  (" ++ s ++ ")"
  | none => ""

def stepLine (s : StepRecord) : String :=
  "  " ++ Text.padRight 12 s.phaseId ++ " " ++ Text.padRight 12 s.stepId ++ " "
    ++ s.status.text ++ remark s.observations

def evaluationLine (e : Evaluation) : String :=
  "  " ++ mark e.passed ++ " " ++ Text.padRight 10 e.criterionId ++ " [" ++ e.severity.text
    ++ "] " ++ e.parameter ++ " = " ++ ((e.value.map MeasuredValue.display).getD "-")
    ++ ((e.reason.map ("  " ++ ·)).getD "")

def findingLine (f : QcFinding) : String :=
  mark (some f.passed) ++ " " ++ Text.padRight 28 f.name ++ " [" ++ f.severity.text ++ "] "
    ++ f.message

/-- A section, left out when there is nothing in it. -/
def sectionOf {α : Type} (title : String) (items : List α) (line : α → String) : List String :=
  if items.isEmpty then [] else title :: items.map line

/-- How many findings there are, and how many failed. -/
def findingCount (findings : List QcFinding) : String :=
  "qc: " ++ findings.length.repr ++ " checks, "
    ++ (findings.filter fun f => !f.passed).length.repr ++ " failed"

def runLines (run : TestRun) (findings : List QcFinding) : List String :=
  ["run " ++ run.id ++ "  " ++ run.key.display ++ "  specimen " ++ run.specimenId
      ++ "  operator " ++ run.operator,
    "status " ++ run.status.text ++ "  result " ++ run.result.text ++ "  progress "
      ++ Decimal.fixed 0 run.progressPct ++ "%"]
    ++ (run.reason.map ("reason: " ++ ·)).toList
    ++ "steps:" :: run.steps.map stepLine
    ++ ["measurements: " ++ run.ledger.entries.length.repr]
    ++ sectionOf "acceptance:" run.acceptance evaluationLine
    ++ sectionOf (findingCount findings) findings fun f => "  " ++ findingLine f

/-- A run and the findings on it, in a document. -/
def runJson (run : TestRun) (findings : List QcFinding) : Json :=
  (Json.object [("run", run.toJson), ("progress_pct", .float run.progressPct),
    ("qc", .ofList QcFinding.toJson findings)]).canonical

def run (code : ExitCode) (format : OutputFormat) (run : TestRun)
    (findings : List QcFinding) : Output :=
  match format with
  | .json => .ofJson code (runJson run findings)
  | .text => .ofLines code (runLines run findings)

def findings (code : ExitCode) (format : OutputFormat) (findings : List QcFinding) : Output :=
  match format with
  | .json => .ofJson code (.ofList QcFinding.toJson findings)
  | .text => .ofLines code (findings.map findingLine)

def summaryLine (s : RunSummary) : String :=
  s.runId ++ "  " ++ s.protocolId ++ "@" ++ s.protocolVersion ++ "  "
    ++ Text.padRight 12 s.specimenId ++ " " ++ Text.padRight 11 s.status.text ++ " "
    ++ Text.padRight 13 s.result.text ++ " " ++ s.createdAt.tableText

def summaries (format : OutputFormat) (summaries : List RunSummary) : Output :=
  match format with
  | .json => .ofJson .ok (.ofList RunSummary.toJson summaries)
  | .text =>
      ⟨.ok, Text.lines (summaries.map summaryLine),
        if summaries.isEmpty then Text.lines ["no runs stored"] else ""⟩

/-- The word for the source of a baseline. -/
def sourceText : Degradation.BaselineSource → String
  | .initial => "Initial"
  | .provided => "Provided"

def pointLine (l : Degradation.PointLoss) : String :=
  "  " ++ Text.padLeft 10 (Decimal.fixed 1 l.point.elapsedHours) ++ " h  "
    ++ Text.padLeft 10 (Decimal.fixed 3 l.point.pmax) ++ "  "
    ++ Text.padLeft 7 (Decimal.fixed 3 l.lossPct) ++ "%  " ++ l.point.type.text

/-- Whether and since when a series is stable. -/
def stabilizationLine (s : Degradation.Stabilization) : String :=
  match s.onsetHours with
  | some onset => "stabilized since " ++ Decimal.fixed 1 onset ++ " h"
  | none => if s.isStabilized then "stabilized" else "not stabilized"

/-- How much of a loss came back, if that was measured. -/
def recoveryLine? (r : Degradation.Recovery) : Option String :=
  if r.isMeasured then
    some ("recovery " ++ Decimal.fixed 1 r.recoveryPct ++ "% (loss "
      ++ Decimal.fixed 3 r.powerLoss ++ ", recovered " ++ Decimal.fixed 3 r.powerRecovered
      ++ ")")
  else none

def degradationLines (r : Degradation.Report) : List String :=
  ["baseline " ++ Decimal.fixed 3 r.baseline ++ " (" ++ sourceText r.baselineSource ++ ")"]
    ++ r.points.map pointLine
    ++ ["max " ++ Decimal.fixed 3 r.maxLossPct ++ "%  final "
        ++ Decimal.fixed 3 r.finalLossPct ++ "%  rate " ++ Decimal.fixed 6 r.rate
        ++ " %/h (R² " ++ Decimal.fixed 3 r.rateRSquared ++ ")",
      stabilizationLine r.stabilization]
    ++ (recoveryLine? r.recovery).toList

/-- The analysis of a run, or why there is none. -/
def degradation (runId : String) (format : OutputFormat) :
    Except Degradation.AnalysisError Degradation.Report → Output
  | .ok r => match format with
      | .json => .ofJson .ok
          (Json.object [("run_id", .text runId), ("report", r.toJson)]).canonical
      | .text => .ofLines .ok (degradationLines r)
  | .error e => match format with
      | .json => .ofJson .testFailed
          (Json.object [("run_id", .text runId), ("analysis_error", e.toJson)]).canonical
      | .text => ⟨.testFailed, "", Text.lines ["✖ " ++ e.message]⟩

def counted (n : Nat) (noun : String) : String :=
  n.repr ++ " " ++ noun ++ (if n = 1 then "" else "s")

def verdictLine (findings : List Diagnostic) : String :=
  let errors := (findings.filter Diagnostic.isError).length
  let warnings := findings.length - errors
  if 0 < errors then
    "✖ Validation failed (" ++ counted errors "error" ++ ", " ++ counted warnings "warning"
      ++ ")"
  else if 0 < warnings then
    "⚠️  Validation passed with warnings (" ++ counted warnings "warning" ++ ")"
  else "✔ Validation OK"

def protocolLine (p : ProtocolDefinition) : String :=
  p.key.display ++ ": " ++ p.phases.length.repr ++ " phases, " ++ p.stepCount.repr
    ++ " steps, " ++ p.acceptanceCriteria.length.repr ++ " acceptance criteria"

/-- A protocol with the digest of its text, in a document. -/
def protocolJson (p : ProtocolDefinition) (digest : String) : Json :=
  .object [("id", .text p.id), ("version", .text p.version), ("name", .text p.name),
    ("category", .text p.category), ("phases", .ofNat p.phases.length),
    ("steps", .ofNat p.stepCount),
    ("acceptance_criteria", .ofNat p.acceptanceCriteria.length), ("digest", .text digest)]

/-- The validation of a file: the protocol with its digest if it loads, and the
    findings. -/
def validation (file : String) (format : OutputFormat)
    (protocol : Option (ProtocolDefinition × String)) (findings : List Diagnostic) : Output :=
  let code := if findings.any Diagnostic.isError then ExitCode.unusable else .ok
  match format with
  | .json => .ofJson code (Json.object [("file", .text file),
      ("protocol", .ofOption (fun p => protocolJson p.1 p.2) protocol),
      ("diagnostics", .ofList Diagnostic.toJson findings),
      ("exit_code", .ofNat code.number)]).canonical
  | .text =>
      ⟨code,
        if code = .ok then Text.lines (protocol.map fun p => protocolLine p.1).toList else "",
        String.join (findings.map Diagnostic.terminal)
          ++ Text.lines [verdictLine findings]⟩

end Qualification.Report
