import Qualification.Protocol.Basic
import Qualification.Protocol.Error
import Qualification.Text.Character
import Qualification.Text.Parts

/-! # Valid protocols

The rules that a decoded protocol must keep before it is used. They are checked in a fixed
order, and the first one that is broken is reported.
-/

namespace Qualification

namespace Version

/-- A row of digits without a leading zero, unless it is zero alone. The first digit is an
    ASCII one; the others may be of any script. -/
def isNumber : List Char → Bool
  | ['0'] => true
  | c :: rest => '1' ≤ c && c ≤ '9' && rest.all Text.isDecimalDigit
  | [] => false

/-- Is the text a version of three numbers with points between them? -/
def isValid (s : String) : Bool :=
  match Text.parts '.' s.toList with
  | [major, minor, patch] => isNumber major && isNumber minor && isNumber patch
  | _ => false

end Version

namespace Validation

abbrev Check := Except ProtocolError Unit

/-- A rule about a part of the protocol. -/
def require (holds : Bool) (part message : String) : Check :=
  if holds then .ok () else .error (.schema (.part part) message)

def requireText (part value : String) : Check :=
  require (!Text.isBlank value) part "must not be empty"

def requireNew (kind : Identified) (id scope : String) (seen : List String) : Check :=
  if seen.contains id then .error (.duplicate kind id scope) else .ok ()

/-- Check the entries of a list in order. Each check is told the position of the entry and
    the identities before it. -/
def checkEach {α : Type} (idOf : α → String) (check : Nat → List String → α → Check) :
    Nat → List String → List α → Check
  | _, _, [] => .ok ()
  | index, seen, a :: rest => do
      check index seen a
      checkEach idOf check (index + 1) (idOf a :: seen) rest

/-- The path of an entry of a list. -/
def entry (list : String) (index : Nat) : String :=
  list ++ "[" ++ index.repr ++ "]"

/-- A parameter has a new name, ordered bounds, and a default that it admits itself. -/
def checkParameter (scope : String) (index : Nat) (seen : List String) (d : ParameterDef) :
    Check := do
  let part := entry "parameters" index
  requireNew .parameter d.name scope seen
  requireText (part ++ ".name") d.name
  match d.min, d.max with
  | some low, some high =>
      require (!(high < low)) part
        ("min " ++ Decimal.plain low ++ " is greater than max " ++ Decimal.plain high)
  | _, _ => .ok ()
  match d.default with
  | none => .ok ()
  | some value =>
      match d.check value with
      | .ok () => .ok ()
      | .error reason => .error (.schema (.part (part ++ ".default")) reason)

def isDuration (x : Float) : Bool :=
  x.isFinite && !(x < 0.0)

/-- A step has an identity that is new in the protocol, an action, a sequence number that
    is new in its phase, and a proper duration if any. -/
def checkStep (scope phaseScope part : String) (ids : List String) (sequences : List Nat)
    (s : StepDef) : Check := do
  requireText (part ++ ".id") s.id
  requireText (part ++ ".action") s.action
  requireNew .step s.id scope ids
  if sequences.contains s.sequence then
    .error (.duplicate .sequence s.sequence.repr phaseScope)
  require (s.durationHours.all isDuration) (part ++ ".duration_hours")
    "must be a non-negative number"

/-- Check the steps of a phase in order, given the identities and sequence numbers before
    them. -/
def checkSteps (scope phaseScope phasePart : String) :
    Nat → List String → List Nat → List StepDef → Check
  | _, _, _, [] => .ok ()
  | index, ids, sequences, s :: rest => do
      checkStep scope phaseScope (entry (phasePart ++ ".steps") index) ids sequences s
      checkSteps scope phaseScope phasePart (index + 1) (s.id :: ids) (s.sequence :: sequences)
        rest

def sortedSequences (steps : List StepDef) : List Nat :=
  (steps.map (·.sequence)).mergeSort fun m n => m ≤ n

def numbersText (ns : List Nat) : String :=
  "[" ++ ", ".intercalate (ns.map Nat.repr) ++ "]"

/-- A phase has a new identity and at least one step, and its steps are numbered from one
    without gaps. -/
def checkPhase (scope : String) (index : Nat) (phaseIds stepIds : List String)
    (p : PhaseDef) : Check := do
  let part := entry "phases" index
  requireText (part ++ ".id") p.id
  requireNew .phase p.id scope phaseIds
  require (!p.steps.isEmpty) (part ++ ".steps") "a phase needs at least one step"
  checkSteps scope ("phase '" ++ p.id ++ "'") part 0 stepIds [] p.steps
  let found := sortedSequences p.steps
  require (found == List.range' 1 p.steps.length) (part ++ ".steps")
    ("step sequence numbers must run 1..=" ++ p.steps.length.repr ++ " without gaps, found "
      ++ numbersText found)

/-- Check the phases in order, given the identities before them. -/
def checkPhases (scope : String) : Nat → List String → List String → List PhaseDef → Check
  | _, _, _, [] => .ok ()
  | index, phaseIds, stepIds, p :: rest => do
      checkPhase scope index phaseIds stepIds p
      checkPhases scope (index + 1) (p.id :: phaseIds) (p.steps.map (·.id) ++ stepIds) rest

/-- An expected measurement has a new identity and a parameter, and expects at least one
    reading. -/
def checkSpec (scope : String) (index : Nat) (seen : List String) (s : MeasurementSpec) :
    Check := do
  let part := entry "measurement_specs" index
  requireNew .measurementSpec s.id scope seen
  requireText (part ++ ".parameter") s.parameter
  require (s.expectedCount ≠ 0) (part ++ ".expected_count") "must be at least 1"

/-- A threshold has the shape that its comparison needs. -/
def checkThreshold (part : String) : Operator → ThresholdValue → Check
  | .between, .range [low, high] =>
      require (low ≤ high) part
        ("between range [" ++ Decimal.plain low ++ ", " ++ Decimal.plain high
          ++ "] is not ordered")
  | .between, .range bounds =>
      require false part ("between needs exactly 2 values, got " ++ bounds.length.repr)
  | .between, .scalar _ => require false part "between needs a [low, high] range"
  | op, .range _ => require false part ("operator " ++ op.text ++ " needs a single value")
  | op, .scalar v =>
      if op.isOrdering then
        let isFinite := match v with
          | .number x => x.isFinite
          | _ => false
        require isFinite part
          ("operator " ++ op.text ++ " needs a finite number, got " ++ v.display)
      else .ok ()

/-- A criterion has a new identity, a parameter, and a threshold of the right shape. -/
def checkCriterion (scope : String) (index : Nat) (seen : List String)
    (c : AcceptanceCriterion) : Check := do
  let part := entry "acceptance_criteria" index ++ ".threshold"
  requireNew .criterion c.id scope seen
  requireText (part ++ ".parameter") c.threshold.parameter
  checkThreshold (part ++ ".value") c.threshold.operator c.threshold.value

def checkLimits : Dictionary SafetyLimit → Check
  | [] => .ok ()
  | (name, limit) :: rest => do
      require limit.value.isFinite ("safety_limits." ++ name ++ ".value")
        "must be a finite number"
      checkLimits rest

def isPositive (x : Float) : Bool :=
  x.isFinite && 0.0 < x

/-- Is a number finite and not below zero? -/
def isNonNegative (x : Float) : Bool :=
  x.isFinite && 0.0 ≤ x

/-- The multiplier of outlier screening is positive, and given where there is no usual
    one. -/
def checkOutlier (part : String) (s : OutlierSettings) : Check :=
  match s.method, s.threshold with
  | .zScore, none =>
      require false (part ++ ".outlier.threshold")
        "zscore outlier screening needs an explicit threshold"
  | _, some k => require (isPositive k) (part ++ ".outlier.threshold") "must be positive"
  | _, none => .ok ()

def checkQc (part : String) (qc : QcSettings) : Check := do
  require (0.0 ≤ qc.minCompletionRate && qc.minCompletionRate ≤ 100.0)
    (part ++ ".min_completion_rate") "must be between 0 and 100"
  require (isPositive qc.maxCv) (part ++ ".max_cv") "must be positive"
  require (qc.irradiance.all fun t => isPositive t.nominal && isNonNegative t.tolerancePct)
    (part ++ ".irradiance") "nominal must be positive and tolerance_pct non-negative"
  require (qc.temperature.all fun t => t.nominal.isFinite && isNonNegative t.tolerance)
    (part ++ ".temperature") "nominal must be finite and tolerance non-negative"
  checkOutlier part qc.outlier

def check (p : ProtocolDefinition) : Check := do
  requireText "id" p.id
  requireText "name" p.name
  requireText "category" p.category
  require (Version.isValid p.version) "version"
    ("'" ++ p.version ++ "' is not a MAJOR.MINOR.PATCH version")
  let scope := "protocol '" ++ p.id ++ "'"
  checkEach ParameterDef.name (checkParameter scope) 0 [] p.parameters
  require (!p.phases.isEmpty) "phases" "at least one phase is required"
  checkPhases scope 0 [] [] p.phases
  checkEach MeasurementSpec.id (checkSpec scope) 0 [] p.measurementSpecs
  checkEach AcceptanceCriterion.id (checkCriterion scope) 0 [] p.acceptanceCriteria
  checkLimits p.safetyLimits
  match p.qc with
  | some qc => checkQc "qc" qc
  | none => .ok ()

end Validation

end Qualification
