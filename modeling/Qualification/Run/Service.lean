import Qualification.Run.History
import Qualification.Run.Registry

/-! # Service of a registry

Callers share a registry and request something of it one after the other, in any order.
A run is only seen through the operations that name it.
-/

namespace Qualification.RunRegistry

/-- What can be requested of a registry. -/
inductive Request where
  | create (id : String) (now : Instant) (p : ProtocolDefinition) (specimen operator : String)
      (overrides : Dictionary Json)
  | insert (p : ProtocolDefinition) (run : TestRun)
  /-- Do an operation on a run, with its protocol where it takes one. -/
  | operate (env : Surroundings) (runId : String) (operation : Operation)

/-- The registry that a request leaves; a run that is refused is not registered. -/
def serve (r : RunRegistry) : Request → RunRegistry
  | .create id now p specimen operator overrides =>
      (r.create id now p specimen operator overrides).toOption.getD r
  | .insert p run => (r.insert p run).toOption.getD r
  | .operate env runId operation => (r.apply env runId operation).2

/-- The registry that requests leave, one after the other. -/
def serveAll (r : RunRegistry) : List Request → RunRegistry
  | [] => r
  | q :: rest => (r.serve q).serveAll rest

/-- The call that a request makes on a run of a protocol. -/
def Request.call? (p : ProtocolDefinition) (runId : String) : Request → Option Call
  | .operate env id operation => if id = runId then some ⟨env, p, operation⟩ else none
  | _ => none

/-- The calls that requests make on a run of a protocol, in their order. -/
def callsOn (p : ProtocolDefinition) (runId : String) (requests : List Request) : List Call :=
  requests.filterMap (Request.call? p runId)

/-- The run that a request asks to register, with its protocol. -/
def Request.newRun? : Request → Option RegisteredRun
  | .create id now p specimen operator overrides =>
      (TestRun.create id now p specimen operator overrides).toOption.map (⟨p, ·⟩)
  | .insert p run => some ⟨p, run⟩
  | .operate .. => none

/-- Does a request review a measurement of a run? -/
def Request.Reviews (runId measurementId : String) : Request → Prop
  | .operate _ id (.flag m _ _) => id = runId ∧ m = measurementId
  | _ => False

end Qualification.RunRegistry
