import Qualification.Path

/-! # What can be seen of a file system

The library never touches a file. It is given a view: what reading a file and listing a
folder would answer.
-/

namespace Qualification

/-- Why a file or a folder cannot be read. -/
inductive FileError where
  | notFound
  /-- A folder where a file is meant. -/
  | isFolder
  /-- A file where a folder is meant. -/
  | isFile
  | notText
  /-- Any other reason, in the words of the system. -/
  | failed (reason : String)
  deriving Repr, DecidableEq

def FileError.message : FileError → String
  | notFound => "No such file or directory (os error 2)"
  | isFolder => "Is a directory (os error 21)"
  | isFile => "Not a directory (os error 20)"
  | notText => "stream did not contain valid UTF-8"
  | failed reason => reason

/-- What reading files and listing folders answers. -/
structure FileView where
  read : String → Except FileError String
  /-- The names of the files in a folder, in any order. -/
  list : String → Except FileError (List String)

namespace FileView

/-- Is there a file under a path, readable or not? -/
def isFile (files : FileView) (path : String) : Bool :=
  match files.read path with
  | .ok _ | .error .notText | .error (.failed _) => true
  | .error .notFound | .error .isFolder | .error .isFile => false

/-- The view that is known only of some files and folders. -/
def ofAnswers (texts : List (String × Except FileError String))
    (folders : List (String × Except FileError (List String))) : FileView where
  read path := ((texts.find? fun a => a.1 = path).map (·.2)).getD (.error .notFound)
  list path := ((folders.find? fun a => a.1 = path).map (·.2)).getD (.error .notFound)

end FileView

end Qualification
