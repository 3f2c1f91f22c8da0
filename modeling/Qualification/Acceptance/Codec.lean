import Qualification.Acceptance.Evaluation

/-! # Verdicts in documents -/

namespace Qualification

open Document

namespace TestResult

def text : TestResult → String
  | pass => "PASS"
  | fail => "FAIL"
  | conditional => "CONDITIONAL"
  | notEvaluated => "NOT_EVALUATED"

def words : Words TestResult :=
  [pass, fail, conditional, notEvaluated].map fun r => (r, [r.text])

def ofText? (s : String) : Option TestResult :=
  words.find? s

end TestResult

namespace Evaluation

def toJson (e : Evaluation) : Json :=
  .object [("criterion_id", .text e.criterionId), ("parameter", .text e.parameter),
    ("severity", e.severity.toJson), ("passed", .ofOption .bool e.passed),
    ("evaluated_value", .ofOption MeasuredValue.toJson e.value),
    ("failure_reason", .ofText? e.reason)]

def decode : Decoder Evaluation :=
  Record.read "AcceptanceEvaluation" (Evaluation.mk
    <$> .required "criterion_id" Decoder.text
    <*> .required "parameter" Decoder.text
    <*> .required "severity" Severity.decode
    <*> .optional "passed" Decoder.bool
    <*> .optional "evaluated_value" MeasuredValue.decode
    <*> .optional "failure_reason" Decoder.text)

end Evaluation

end Qualification
