import Qualification.Protocol.Loading

/-! # Service of a loader

Callers share the loaded protocols and request something of the loader one after the other.
A request that reads files brings along how it sees them, so that files may change from one
request to the next.
-/

namespace Qualification

/-- The same loading with another answer. -/
def Loading.map {α β : Type} (f : α → β) (l : Loading α) : Loading β :=
  (l.1.map f, l.2)

namespace ProtocolCache

/-- What can be requested of a loader. -/
inductive Request where
  | loadText (format : Format) (text : String)
  | loadFile (files : FileView) (path : String)
  | loadFolder (files : FileView) (folder : String)
  | reload (files : FileView) (path : String)
  | invalidate (key : ProtocolKey)

/-- What a request is answered. -/
inductive Answer where
  | protocol (p : ProtocolDefinition)
  | protocols (ps : List ProtocolDefinition)
  | reloaded (r : Reloaded)
  /-- Was there an entry to drop? -/
  | dropped (found : Bool)

/-- Does a request only load? The others drop or replace what is kept. -/
def Request.loads : Request → Bool
  | .loadText .. | .loadFile .. | .loadFolder .. => true
  | .reload .. | .invalidate .. => false

def serve (c : ProtocolCache) : Request → Loading Answer
  | .loadText format text => (c.loadText format text none).map .protocol
  | .loadFile files path => (c.loadFile files path).map .protocol
  | .loadFolder files folder => (c.loadFolder files folder).map .protocols
  | .reload files path => (c.reload files path).map .reloaded
  | .invalidate key => (.ok (.dropped (c.entry? key).isSome), c.invalidate key)

/-- The cache that requests leave, one after the other. -/
def after (c : ProtocolCache) : List Request → ProtocolCache
  | [] => c
  | q :: rest => (c.serve q).2.after rest

end ProtocolCache

end Qualification
