import Std.Time.DateTime
import Qualification.Command.Execution

/-! # The program

Reads what a request needs, performs it, and writes down what it comes to. Nothing is
decided here.
-/

namespace Qualification.Main

def fileError : IO.Error → FileError
  | .noFileOrDirectory .. => .notFound
  | e => .failed (toString e)

/-- The names of the files in a folder. -/
def readFolder (path : String) : IO (Except FileError (List String)) := do
  let listing : IO (List String) := do
    let entries ← (← IO.FS.realPath path).readDir
    let files ← entries.toList.filterM fun entry => return !(← entry.path.isDir)
    return files.map (·.fileName)
  return (← listing.toBaseIO).mapError fileError

def readText (path : String) : IO (Except FileError String) := do
  match ← (IO.FS.readBinFile path).toBaseIO with
  | .ok octets =>
      match String.fromUTF8? octets with
      | some text => return .ok text
      | none => return .error .notText
  | .error e =>
      match ← readFolder path with
      | .ok _ => return .error .isFolder
      | .error _ => return .error (fileError e)

/-- What the system answers about some files and folders. -/
def view (files folders : List String) : IO FileView := do
  let texts ← files.mapM fun path => return (path, ← readText path)
  let listings ← folders.mapM fun path => return (path, ← readFolder path)
  return .ofAnswers texts listings

def now : IO Instant := do
  let nanos := (← Std.Time.Timestamp.now).toNanosecondsSinceUnixEpoch.val
  return ⟨nanos / 1000000000, (nanos % 1000000000).toNat⟩

def later (t : Instant) (nanos : Nat) : Instant :=
  ⟨t.seconds + ((t.nanos + nanos) / 1000000000 : Nat), (t.nanos + nanos) % 1000000000⟩

/-- A number with the given count of hexadecimal digits. -/
def hex (width n : Nat) : String :=
  let digits := Nat.toDigits 16 (n % Nat.pow 16 width)
  String.ofList (List.replicate (width - digits.length) '0' ++ digits)

/-- A random identity with a number added to its last group. -/
def identity (octets : ByteArray) (n : Nat) : String :=
  let value := octets.foldl (fun v octet => v * 256 + octet.toNat) 0
  let above (bits : Nat) := value / Word.count bits
  hex 8 (above 96) ++ "-" ++ hex 4 (above 80) ++ "-4" ++ hex 3 (above 64) ++ "-"
    ++ hex 4 (0x8000 + above 48 % 0x4000) ++ "-" ++ hex 12 (value + n)

/-- Perform a request and keep the store that it leaves. -/
def perform (r : Request) : IO Output := do
  let files ← view (r.config.getD Configuration.defaultFile :: []) []
  match Configuration.resolve files r.config with
  | .error d => return .rejected d
  | .ok c =>
      let database := r.databasePath c
      let folders := r.command.folders c
      let parent := (Path.parent? database).toList
      let listed ← view [] folders
      let found := folders.flatMap fun folder =>
        (ProtocolCache.protocolFiles listed folder).toOption.getD []
      let files ← view (database :: r.command.files ++ found) (folders ++ parent)
      let octets ← IO.getRandomBytes 16
      let start ← now
      let w : Workspace := {
        files
        configuration := c
        store := Store.openFile files database
        runId := identity octets 0
        surroundings := ⟨later start, fun n => identity octets (n + 1)⟩ }
      let (output, kept) := w.perform r.command
      match kept with
      | some store =>
          if !Store.isTransient database then IO.FS.writeFile database store.toText
      | none => pure ()
      return output

def run (arguments : List String) : IO Output := do
  match Arguments.parse arguments with
  | .error stop => return stop.output
  | .ok request =>
      let fallback ← IO.getEnv "QUALIFY_CONFIG"
      perform { request with config := request.config.or fallback }

end Qualification.Main

/-- The program: its output, and its exit code. -/
def main (arguments : List String) : IO UInt32 := do
  let output ← Qualification.Main.run arguments
  (← IO.getStdout).putStr output.stdout
  (← IO.getStderr).putStr output.stderr
  return output.code.number.toUInt32
