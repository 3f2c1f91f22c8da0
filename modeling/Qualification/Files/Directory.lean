import Qualification.Files.View

/-! # A directory in memory

Files and folders below one folder, each under its names from there. Paths are followed
name by name as a file system does; nothing above the directory can be seen.
-/

namespace Qualification

/-- The names that lead to a file or a folder. -/
abbrev Trail := List (List Char)

/-- What a trail leads to. -/
inductive FileEntry where
  /-- A file, with its text if it holds text. -/
  | file (text : Option String)
  | folder
  deriving Repr, DecidableEq

/-- Files and folders by their trails. -/
structure Directory where
  entries : List (Trail × FileEntry)
  deriving Repr

namespace Directory

def empty : Directory :=
  ⟨[]⟩

/-- What a trail leads to; the empty trail stays at the top. -/
def entry? (d : Directory) (trail : Trail) : Option FileEntry :=
  if trail.isEmpty then some .folder
  else (d.entries.find? fun e => e.1 = trail).map (·.2)

/-- Put an entry, in place of what its trail leads to. -/
def put (d : Directory) (trail : Trail) (entry : FileEntry) : Directory :=
  ⟨(d.entries.filter fun e => e.1 != trail) ++ [(trail, entry)]⟩

/-- Add folders along a trail where there is nothing yet. -/
def addFolders (d : Directory) : Trail → Trail → Directory
  | _, [] => d
  | above, name :: rest =>
      let trail := above ++ [name]
      let d := if (d.entry? trail).isSome then d else d.put trail .folder
      addFolders d trail rest

/-- Add a folder and all those above it. -/
def makeFolder (d : Directory) (path : String) : Directory :=
  d.addFolders [] (Path.names path)

/-- Put a file, and add all folders above it. -/
def write (d : Directory) (path : String) (text : Option String) : Directory :=
  let trail := Path.names path
  (d.addFolders [] trail.dropLast).put trail (.file text)

/-- Drop what a path names and everything below it. -/
def remove (d : Directory) (path : String) : Directory :=
  let trail := Path.names path
  ⟨d.entries.filter fun e => !trail.isPrefixOf e.1⟩

/-- Follow the parts of a path from a place; each is looked up in what must be a
    folder. -/
def follow (d : Directory) : Trail → List (List Char) → Except FileError Trail
  | trail, [] => .ok trail
  | trail, part :: rest =>
      match d.entry? trail with
      | none => .error .notFound
      | some (.file _) => .error .isFile
      | some .folder =>
          if Path.isIdle part then follow d trail rest
          else if part = ['.', '.'] then
            if trail.isEmpty then .error .notFound else follow d trail.dropLast rest
          else follow d (trail ++ [part]) rest

/-- The trail of a path and what it leads to. -/
def find (d : Directory) (path : String) : Except FileError (Trail × FileEntry) :=
  if path.isEmpty || Path.isAbsolute path then .error .notFound
  else do
    let trail ← d.follow [] (Path.parts path)
    match d.entry? trail with
    | some entry => return (trail, entry)
    | none => .error .notFound

def read (d : Directory) (path : String) : Except FileError String := do
  match (← d.find path).2 with
  | .folder => .error .isFolder
  | .file none => .error .notText
  | .file (some text) => return text

/-- The names of the files in a folder. -/
def list (d : Directory) (path : String) : Except FileError (List String) := do
  let (trail, entry) ← d.find path
  match entry with
  | .file _ => .error .isFile
  | .folder =>
      return d.entries.filterMap fun e =>
        match e.2, e.1.getLast? with
        | .file _, some name =>
            if e.1.dropLast = trail then some (String.ofList name) else none
        | _, _ => none

def view (d : Directory) : FileView :=
  ⟨d.read, d.list⟩

end Directory

end Qualification
