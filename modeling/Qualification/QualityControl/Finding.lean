import Qualification.QualityControl.Settings
import Qualification.Severity

/-! # Findings of quality control -/

namespace Qualification

open Document

/-- What a check looks at. -/
inductive QcCategory where
  | completeness
  | repeatability
  | chronology
  /-- Did the surroundings stay in their band? -/
  | environment
  | outlier
  deriving Repr, DecidableEq

namespace QcCategory

def text : QcCategory → String
  | completeness => "completeness"
  | repeatability => "repeatability"
  | chronology => "chronology"
  | environment => "environment"
  | outlier => "outlier"

def words : Words QcCategory :=
  [completeness, repeatability, chronology, environment, outlier].map fun c => (c, [c.text])

end QcCategory

/-- The outcome of one check. -/
structure QcFinding where
  name : String
  category : QcCategory
  passed : Bool
  severity : Severity
  expected : Json
  actual : Json
  message : String
  deriving Repr, BEq

namespace QcFinding

def toJson (f : QcFinding) : Json :=
  .object [("check_name", .text f.name), ("category", .text f.category.text),
    ("passed", .bool f.passed), ("severity", f.severity.toJson),
    ("expected_value", f.expected), ("actual_value", f.actual), ("message", .text f.message)]

def decode : Decoder QcFinding :=
  Record.read "QcCheckResult" (QcFinding.mk
    <$> .required "check_name" Decoder.text
    <*> .required "category" QcCategory.words.read
    <*> .required "passed" Decoder.bool
    <*> .required "severity" Severity.decode
    <*> .required "expected_value" Decoder.json
    <*> .required "actual_value" Decoder.json
    <*> .required "message" Decoder.text)

def worst? (findings : List QcFinding) : Option Severity :=
  Severity.worst? ((findings.filter fun f => !f.passed).map (·.severity))

end QcFinding

end Qualification
