import Qualification.Text.Parts

/-! # Paths

A path is a text of names with slashes between them. Empty parts name nothing, and neither
does a point, except at the start of a relative path; two points lead one folder up.
-/

namespace Qualification.Path

/-- The parts of a path between its slashes. -/
def parts (path : String) : List (List Char) :=
  Text.parts '/' path.toList

def isAbsolute (path : String) : Bool :=
  path.toList.head? == some '/'

/-- Does a part after the first name nothing? -/
def isIdle (part : List Char) : Bool :=
  part.isEmpty || part == ['.']

def names (path : String) : List (List Char) :=
  match parts path with
  | [] => []
  | first :: rest => [first].filter (!·.isEmpty) ++ rest.filter (!isIdle ·)

/-- Do two paths read the same, name by name? -/
def same (a b : String) : Bool :=
  isAbsolute a == isAbsolute b && names a == names b

/-- The last name of a path, unless it leads upwards or nowhere. -/
def fileName? (path : String) : Option (List Char) :=
  (names path).getLast?.filter fun name => name != ['.'] && name != ['.', '.']

/-- The extension of a file name: what follows its last point, unless that is the first
    character. -/
def extension? (name : List Char) : Option (List Char) :=
  let back := name.reverse
  match back.dropWhile (· != '.') with
  | '.' :: _ :: _ => some (back.takeWhile (· != '.')).reverse
  | _ => none

/-- Drop the parts at the end that name nothing; the first part stays. -/
def trimmed (parts : List (List Char)) : List (List Char) :=
  match parts with
  | [] => []
  | first :: rest => first :: (rest.reverse.dropWhile isIdle).reverse

/-- The text of parts; a single empty one is the root. -/
def ofParts : List (List Char) → String
  | [[]] => "/"
  | parts => String.ofList (Text.unite '/' parts)

/-- The folder of a path, empty for a single name. The root and the empty path have
    none. -/
def parent? (path : String) : Option String :=
  match trimmed (parts path) with
  | [] | [[]] => none
  | [_] => some ""
  | many => some (ofParts (trimmed many.dropLast))

/-- A path seen from a folder; an absolute one stays as it is. -/
def join (folder path : String) : String :=
  if isAbsolute path || folder.isEmpty then path
  else if folder.toList.getLast? == some '/' then folder ++ path
  else folder ++ "/" ++ path

end Qualification.Path
