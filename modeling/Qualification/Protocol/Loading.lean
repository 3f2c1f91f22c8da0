import Qualification.Digest.Sha256
import Qualification.Files.View
import Qualification.Protocol.Cache
import Qualification.Protocol.Reading

/-! # Loading protocols

A protocol is handed out once it is read and found valid. The first definition under a key
stays in the cache; only a reload replaces it.
-/

namespace Qualification

def ProtocolDefinition.readFile (files : FileView) (path : String) :
    Except ProtocolError String :=
  (files.read path).mapError fun reason => .unreadable path reason.message

/-- The protocol in a file, not kept anywhere. -/
def ProtocolDefinition.load (files : FileView) (path : String) :
    Except ProtocolError ProtocolDefinition := do
  ProtocolDefinition.parse (Format.ofPath path) (← readFile files path)

/-- What a reload finds. -/
structure Reloaded where
  /-- The protocol that the file holds now. -/
  protocol : ProtocolDefinition
  /-- Does it differ from what was kept? -/
  changed : Bool

/-- What loading answers, and the cache after it. -/
abbrev Loading (α : Type) := Except ProtocolError α × ProtocolCache

namespace ProtocolCache

/-- Keep a protocol under its key, unless there is one already; the one that is kept then
    is the answer. -/
def keep (c : ProtocolCache) (e : LoadedProtocol) : ProtocolDefinition × ProtocolCache :=
  match c.get? e.protocol.key with
  | some kept => (kept, c)
  | none => (e.protocol, c.put e)

def loadText (c : ProtocolCache) (format : Format) (text : String) (source : Option String) :
    Loading ProtocolDefinition :=
  match ProtocolDefinition.parse format text with
  | .error e => (.error e, c)
  | .ok p =>
      let (kept, next) := c.keep ⟨p, Sha256.digest text, source⟩
      (.ok kept, next)

def loadFile (c : ProtocolCache) (files : FileView) (path : String) :
    Loading ProtocolDefinition :=
  match ProtocolDefinition.readFile files path with
  | .error e => (.error e, c)
  | .ok text => c.loadText (Format.ofPath path) text (some path)

/-- Load files in order, up to the first that does not load. -/
def loadFiles (files : FileView) :
    ProtocolCache → List String → Loading (List ProtocolDefinition)
  | c, [] => (.ok [], c)
  | c, path :: rest =>
      match c.loadFile files path with
      | (.error e, c) => (.error e, c)
      | (.ok p, c) =>
          let (others, c) := loadFiles files c rest
          (others.map (p :: ·), c)

/-- Does a file name have the extension of a protocol? -/
def isProtocolFile (name : String) : Bool :=
  (((Path.fileName? name).bind Path.extension?).map String.ofList).any fun extension =>
    extension == "json" || extension == "yaml" || extension == "yml"

/-- The protocol files of a folder in the order of their names. -/
def protocolFiles (files : FileView) (folder : String) : Except ProtocolError (List String) :=
  match files.list folder with
  | .error reason => .error (.unreadable folder reason.message)
  | .ok names =>
      .ok (((names.filter isProtocolFile).mergeSort fun a b => a ≤ b).map (Path.join folder))

def loadFolder (c : ProtocolCache) (files : FileView) (folder : String) :
    Loading (List ProtocolDefinition) :=
  match protocolFiles files folder with
  | .error e => (.error e, c)
  | .ok paths => loadFiles files c paths

/-- Drop what a new reading of a file replaces: the entry under its key or else one that
    was read from the file, and then another one that was read from it. The first of them
    is what the reading is compared with. -/
def evict (c : ProtocolCache) (key : ProtocolKey) (path : String) :
    Option LoadedProtocol × ProtocolCache :=
  match c.entry? key with
  | some e => (some e, (c.invalidate key).invalidateSource path)
  | none =>
      ((c.sourceKey? path).bind c.entry?,
        (c.invalidateSource path).invalidateSource path)

/-- Read a file again and keep what it holds now. A file that does not load leaves the
    cache as it was. -/
def reload (c : ProtocolCache) (files : FileView) (path : String) : Loading Reloaded :=
  match ProtocolDefinition.readFile files path with
  | .error e => (.error e, c)
  | .ok text =>
      match ProtocolDefinition.parse (Format.ofPath path) text with
      | .error e => (.error e, c)
      | .ok p =>
          let digest := Sha256.digest text
          let (previous, rest) := c.evict p.key path
          (.ok ⟨p, previous.all fun e => e.digest != digest⟩, rest.put ⟨p, digest, some path⟩)

end ProtocolCache

end Qualification
