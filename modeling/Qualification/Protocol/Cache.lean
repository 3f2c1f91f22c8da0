import Qualification.Path
import Qualification.Protocol.Basic

/-! # Loaded protocols

The protocols that have been loaded, by key. What is kept stays until it is invalidated or
replaced on purpose.
-/

namespace Qualification

/-- A loaded protocol. -/
structure LoadedProtocol where
  protocol : ProtocolDefinition
  digest : String
  /-- The file that it was read from. -/
  source : Option String

/-- Loaded protocols, in the order of their keys. -/
structure ProtocolCache where
  entries : List (ProtocolKey × LoadedProtocol)

namespace ProtocolCache

def empty : ProtocolCache :=
  ⟨[]⟩

def keys (c : ProtocolCache) : List ProtocolKey :=
  c.entries.map (·.1)

def entry? (c : ProtocolCache) (key : ProtocolKey) : Option LoadedProtocol :=
  (c.entries.find? fun e => e.1 = key).map (·.2)

def get? (c : ProtocolCache) (key : ProtocolKey) : Option ProtocolDefinition :=
  (c.entry? key).map (·.protocol)

/-- Insert an entry among others in order, in place of one under its key. -/
def insertEntry (key : ProtocolKey) (e : LoadedProtocol) :
    List (ProtocolKey × LoadedProtocol) → List (ProtocolKey × LoadedProtocol)
  | [] => [(key, e)]
  | (k, old) :: rest =>
      if key.lt k then (key, e) :: (k, old) :: rest
      else if k = key then (key, e) :: rest
      else (k, old) :: insertEntry key e rest

/-- Put an entry under the key of its protocol. -/
def put (c : ProtocolCache) (e : LoadedProtocol) : ProtocolCache :=
  ⟨insertEntry e.protocol.key e c.entries⟩

def invalidate (c : ProtocolCache) (key : ProtocolKey) : ProtocolCache :=
  ⟨c.entries.filter fun e => e.1 ≠ key⟩

/-- The first key whose entry was read from a file. -/
def sourceKey? (c : ProtocolCache) (path : String) : Option ProtocolKey :=
  (c.entries.find? fun e => e.2.source.any (Path.same path)).map (·.1)

/-- Drop the first entry that was read from a file. -/
def invalidateSource (c : ProtocolCache) (path : String) : ProtocolCache :=
  match c.sourceKey? path with
  | some key => c.invalidate key
  | none => c

end ProtocolCache

end Qualification
