import Qualification.Degradation.Analysis
import Qualification.Measurement.Basic

/-! # Requests

What the program can be asked to do, once its arguments are understood.
-/

namespace Qualification

/-- The layout of an answer. -/
inductive OutputFormat where
  | text
  | json
  deriving Repr, DecidableEq

/-- What a new run is made of. -/
structure RunOrder where
  protocol : String
  specimen : String
  operator : String
  session : String
  overrides : List String
  deriving Repr, DecidableEq

/-- What is asked of the program. -/
inductive Command where
  | validate (protocol : String) (format : OutputFormat)
  /-- Execute a session and store the run. -/
  | run (order : RunOrder) (format : OutputFormat)
  | inspect (runId : String) (format : OutputFormat)
  | list (format : OutputFormat)
  /-- Compute the findings on a stored run anew. -/
  | qc (runId : String) (protocol : Option String) (format : OutputFormat)
  /-- Analyse the degradation of a stored run. -/
  | degradation (runId parameter : String) (options : Degradation.Options)
      (format : OutputFormat)
  /-- Set the flag of a measurement of a stored run. -/
  | flag (runId measurementId : String) (flag : QualityFlag) (notes : Option String)
      (protocol : Option String)
  deriving Repr

namespace Command

/-- The file of a protocol that a command names. -/
def protocolFile? : Command → Option String
  | validate protocol _ => some protocol
  | run order _ => some order.protocol
  | qc _ protocol _ | flag _ _ _ _ protocol => protocol
  | inspect .. | list .. | degradation .. => none

def files (c : Command) : List String :=
  c.protocolFile?.toList ++ match c with
    | run order _ => [order.session]
    | _ => []

/-- Does a command look its protocol up if it names none? -/
def looksUp : Command → Bool
  | qc _ none _ | flag _ _ _ _ none => true
  | _ => false

end Command

/-- A request to the program. -/
structure Request where
  config : Option String
  database : Option String
  command : Command
  deriving Repr

end Qualification
