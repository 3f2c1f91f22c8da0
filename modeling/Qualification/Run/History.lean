import Qualification.Run.Operation

/-! # Histories of runs

A run is created from a protocol; then operations are done on it in any order, accepted or
refused, each with surroundings and a protocol of its own.
-/

namespace Qualification

/-- An operation and what it is given. -/
structure Call where
  env : Surroundings
  /-- The protocol, for an operation that takes one. -/
  protocol : ProtocolDefinition
  operation : Operation

namespace TestRun

def call (run : TestRun) (c : Call) : Outcome Answer :=
  run.apply c.env c.protocol c.operation

def accepted {α : Type} : Outcome α → Bool
  | (.ok _, _) => true
  | (.error _, _) => false

/-- The run that calls leave, one after the other. -/
def after (run : TestRun) : List Call → TestRun
  | [] => run
  | c :: rest => (run.call c).2.after rest

/-- The number of calls accepted, one after the other. -/
def acceptedIn (run : TestRun) : List Call → Nat
  | [] => 0
  | c :: rest => (accepted (run.call c)).toNat + (run.call c).2.acceptedIn rest

/-- The runs that can come of a protocol. -/
inductive Reachable (p : ProtocolDefinition) : TestRun → Prop where
  | created {id specimen operator : String} {now : Instant} {overrides : Dictionary Json}
      {run : TestRun} :
      create id now p specimen operator overrides = .ok run → Reachable p run
  | called {run : TestRun} (c : Call) : Reachable p run → Reachable p (run.call c).2

end TestRun

end Qualification
