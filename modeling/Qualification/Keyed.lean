/-! # Records with identities

Lists of records that each carry an identity. A change concerns the first record of an
identity and leaves the others as they are.
-/

namespace Qualification.Keyed

variable {α : Type}

def changeFirst (idOf : α → String) (id : String) (change : α → α) : List α → List α
  | [] => []
  | a :: rest =>
      if idOf a = id then change a :: rest else a :: changeFirst idOf id change rest

end Qualification.Keyed
