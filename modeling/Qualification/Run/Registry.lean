import Qualification.Run.Operation

/-! # The run registry

Runs by identity, each with the protocol that it was registered with. An operation names a
run and touches no other.
-/

namespace Qualification

/-- A registered run. -/
structure RegisteredRun where
  protocol : ProtocolDefinition
  run : TestRun

/-- Runs by identity. -/
structure RunRegistry where
  /-- The runs, in the order of their identities. -/
  runs : Dictionary RegisteredRun

namespace RunRegistry

def empty : RunRegistry :=
  ⟨[]⟩

/-- The run with an identity, which must be there. -/
def get (r : RunRegistry) (runId : String) : Except EngineError RegisteredRun :=
  match Dictionary.get? runId r.runs with
  | some slot => .ok slot
  | none => .error (.unknownRun runId)

/-- Register a run; it must be bound to the protocol and not be there. -/
def insert (r : RunRegistry) (p : ProtocolDefinition) (run : TestRun) :
    Except EngineError RunRegistry := do
  run.requireProtocol p
  match Dictionary.get? run.id r.runs with
  | some _ => .error (.duplicateRun run.id)
  | none => return ⟨Dictionary.insert run.id ⟨p, run⟩ r.runs⟩

def create (r : RunRegistry) (id : String) (now : Instant) (p : ProtocolDefinition)
    (specimen operator : String) (overrides : Dictionary Json) :
    Except EngineError RunRegistry := do
  let run ← TestRun.create id now p specimen operator overrides
  r.insert p run

def apply (r : RunRegistry) (env : Surroundings) (runId : String) (op : Operation) :
    Except EngineError Answer × RunRegistry :=
  match r.get runId with
  | .error e => (.error e, r)
  | .ok slot =>
      let (answer, next) := slot.run.apply env slot.protocol op
      (answer, ⟨Dictionary.insert runId { slot with run := next } r.runs⟩)

def runIds (r : RunRegistry) : List String :=
  r.runs.keys

end RunRegistry

end Qualification
