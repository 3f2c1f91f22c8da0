import Qualification.Protocol.Basic
import Qualification.Diagnostic

/-! # Findings about valid protocols -/

namespace Qualification

namespace ProtocolDefinition

/-- Is the name a parameter, or the parameter of an expected measurement? -/
def declares (p : ProtocolDefinition) (name : String) : Bool :=
  p.parameters.any (fun d => d.name == name)
    || p.measurementSpecs.any fun s => s.parameter == name

def noCriteria (p : ProtocolDefinition) : Diagnostic where
  code := "W_PROTO_NO_CRITERIA"
  severity := "warn"
  source := "protocol"
  message := "protocol '" ++ p.id
    ++ "' has no acceptance criteria; runs will end NOT_EVALUATED"
  context := .object []
  fixSteps := []

/-- A criterion on a parameter that nothing declares is likely misspelt. -/
def undeclared (c : AcceptanceCriterion) : Diagnostic where
  code := "W_PROTO_UNDECLARED_PARAMETER"
  severity := "warn"
  source := "protocol"
  message := "criterion '" ++ c.id ++ "' references '" ++ c.threshold.parameter
    ++ "', which is neither a parameter nor a measurement spec"
  context := .object [("criterion", .text c.id)]
  fixSteps := []

/-- Findings that do not keep a protocol from being used. -/
def lint (p : ProtocolDefinition) : List Diagnostic :=
  (if p.acceptanceCriteria.isEmpty then [noCriteria p] else [])
    ++ (p.acceptanceCriteria.filter fun c => !p.declares c.threshold.parameter).map undeclared

end ProtocolDefinition

end Qualification
