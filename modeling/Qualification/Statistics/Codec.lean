import Qualification.Statistics.Outlier
import Qualification.Statistics.Regression
import Qualification.Document.Tagged
import Qualification.Document.Word

/-! # Screening methods and fits in documents -/

namespace Qualification.Statistics

open Document

namespace OutlierMethod

/-- The forms of a method. -/
inductive Form where
  | iqr
  | zScore
  | mad

def Form.words : Words Form :=
  [(iqr, ["iqr"]), (zScore, ["z_score"]), (mad, ["mad"])]

def toJson : OutlierMethod Float → Json
  | iqr k => .object [("method", .text "iqr"), ("k", .ofFloat k)]
  | zScore k => .object [("method", .text "z_score"), ("k", .ofFloat k)]
  | mad k => .object [("method", .text "mad"), ("k", .ofFloat k)]

def decodeForm : Form → Decoder (OutlierMethod Float)
  | .iqr => read "Iqr" iqr
  | .zScore => read "ZScore" zScore
  | .mad => read "Mad" mad
where
  read (name : String) (make : Float → OutlierMethod Float) : Decoder (OutlierMethod Float) :=
    Record.readAs ("struct variant OutlierMethod::" ++ name) false
      (make <$> .required "k" Decoder.float)

def decode : Decoder (OutlierMethod Float) :=
  Tagged.Internal.read
    ⟨"internally tagged enum OutlierMethod", "method", Words.readIdentifier Form.words,
      decodeForm⟩

end OutlierMethod

namespace Regression

def toJson (r : Regression Float) : Json :=
  .object [("slope", .ofFloat r.slope), ("intercept", .ofFloat r.intercept),
    ("r_squared", .ofFloat r.rSquared)]

def decode : Decoder (Regression Float) :=
  Record.read "Regression" (Regression.mk
    <$> .required "slope" Decoder.float
    <*> .required "intercept" Decoder.float
    <*> .required "r_squared" Decoder.float)

end Regression

end Qualification.Statistics
