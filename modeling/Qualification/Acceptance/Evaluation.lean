import Qualification.Ledger
import Qualification.Protocol.Basic

/-! # Acceptance

Each criterion is judged on its own: a threshold of the wrong shape, or a value that is no
number, fails it with a reason. The verdicts of all criteria make up the result of a run.
-/

namespace Qualification

/-- The result of a run. -/
inductive TestResult where
  | pass
  | fail
  /-- Some criterion is undetermined, or failed without blocking. -/
  | conditional
  | notEvaluated
  deriving Repr, DecidableEq

/-- Why a value cannot be compared. -/
inductive ComparisonError where
  | notNumeric
  | invalidThreshold (reason : String)
  deriving Repr, DecidableEq

def ComparisonError.message : ComparisonError → String
  | notNumeric => "not numeric"
  | invalidThreshold reason => "invalid threshold: " ++ reason

/-- The verdict on one criterion. -/
structure Evaluation where
  criterionId : String
  parameter : String
  severity : Severity
  /-- Did it pass? Open while there is no value. -/
  passed : Option Bool
  value : Option MeasuredValue
  reason : Option String
  deriving Repr, BEq

namespace Evaluation

def isFailure (e : Evaluation) : Bool :=
  e.passed == some false

def isUndetermined (e : Evaluation) : Bool :=
  e.passed.isNone

end Evaluation

namespace Acceptance

/-- Are a value and a single threshold of one kind and equal? -/
def equals : MeasuredValue → ScalarValue → Bool
  | .numeric x, .number y => x == y
  | .text s, .text t => s == t
  | .boolean a, .bool b => a == b
  | .json v, .number y =>
      match v.toFloat? with
      | some x => x == y
      | none => false
  | .json v, .text t => v.toText? == some t
  | .json v, .bool b => v.toBool? == some b
  | _, _ => false

def ordered : Operator → Float → Float → Bool
  | .gt, x, y => y < x
  | .ge, x, y => y ≤ x
  | .lt, x, y => x < y
  | _, x, y => x ≤ y

def numberOf (actual : MeasuredValue) : Except ComparisonError Float :=
  match actual.number? with
  | some x => .ok x
  | none => .error .notNumeric

/-- Does a value lie within two ordered bounds? -/
def within (actual : MeasuredValue) : List Float → Except ComparisonError Bool
  | [low, high] =>
      if high < low then
        .error (.invalidThreshold
          ("range [" ++ Decimal.plain low ++ ", " ++ Decimal.plain high ++ "] is not ordered"))
      else (numberOf actual).map fun x => low ≤ x && x ≤ high
  | bounds =>
      .error (.invalidThreshold
        ("between needs [low, high], got " ++ bounds.length.repr ++ " values"))

/-- Is a value in the demanded order to a single threshold? -/
def inOrder (actual : MeasuredValue) (op : Operator) :
    ScalarValue → Except ComparisonError Bool
  | .number y => (numberOf actual).map fun x => ordered op x y
  | other =>
      .error (.invalidThreshold
        ("operator " ++ op.text ++ " needs a numeric value, got " ++ other.display))

def compare (actual : MeasuredValue) (op : Operator) (expected : ThresholdValue) :
    Except ComparisonError Bool :=
  match op, expected with
  | .between, .range bounds => within actual bounds
  | .between, .scalar _ => .error (.invalidThreshold "between needs a [low, high] range")
  | op, .range _ =>
      .error (.invalidThreshold ("operator " ++ op.text ++ " needs a single value"))
  | .eq, .scalar v => .ok (equals actual v)
  | .ne, .scalar v => .ok (!equals actual v)
  | op, .scalar v => inOrder actual op v

/-- The value that a criterion is judged by: the last entry of its parameter that counts,
    else the run parameter of that name. -/
def valueOf? (ledger : Ledger) (parameters : Dictionary Json) (parameter : String) :
    Option MeasuredValue :=
  ((ledger.latest? parameter).map (·.value)).or
    ((Dictionary.get? parameter parameters).map MeasuredValue.ofJson)

/-- The verdict on a value, with the reason unless it passes. -/
def judge (t : Threshold) (actual : MeasuredValue) : Bool × Option String :=
  match compare actual t.operator t.value with
  | .ok true => (true, none)
  | .ok false =>
      (false, some (t.parameter ++ " = " ++ actual.display ++ " does not satisfy "
        ++ t.operator.text ++ " " ++ t.value.display))
  | .error e => (false, some e.message)

def evaluateOne (ledger : Ledger) (parameters : Dictionary Json) (c : AcceptanceCriterion) :
    Evaluation :=
  let t := c.threshold
  match valueOf? ledger parameters t.parameter with
  | none =>
      ⟨c.id, t.parameter, c.severity, none, none,
        some ("no measurement recorded for parameter '" ++ t.parameter ++ "'")⟩
  | some actual =>
      let verdict := judge t actual
      ⟨c.id, t.parameter, c.severity, some verdict.1, some actual, verdict.2⟩

/-- The verdicts on all criteria, in their order. -/
def evaluate (criteria : List AcceptanceCriterion) (ledger : Ledger)
    (parameters : Dictionary Json) : List Evaluation :=
  criteria.map (evaluateOne ledger parameters)

def aggregate (evaluations : List Evaluation) : TestResult :=
  if evaluations.isEmpty then .notEvaluated
  else if evaluations.any fun e => e.isFailure && e.severity.isBlocking then .fail
  else if evaluations.any fun e => e.isUndetermined || e.isFailure then .conditional
  else .pass

end Acceptance

end Qualification
