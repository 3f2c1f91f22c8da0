import Qualification.Dictionary
import Qualification.Numeric.Binary64

/-! # JSON values

A value of unknown shape as a document, a parameter or a piece of metadata carries it.
Whole numbers and readings are told apart, as their text does: `2` is not `2.0`.
-/

namespace Qualification

/-- A JSON value. -/
inductive Json where
  | null
  | bool (b : Bool)
  /-- A number written without point or exponent. -/
  | integer (n : Int)
  | float (x : Float)
  | text (s : String)
  | array (items : List Json)
  /-- An object, its members in the order of writing. -/
  | object (members : List (String × Json))
  deriving Repr, Inhabited

namespace Json

/-- A reading as a value; one that is not finite has no number and becomes `null`. -/
def ofFloat (x : Float) : Json :=
  if x.isFinite then .float x else .null

def ofNat (n : Nat) : Json :=
  .integer n

def ofOption {α : Type} (f : α → Json) : Option α → Json
  | some a => f a
  | none => .null

def ofText? (s : Option String) : Json :=
  ofOption .text s

def ofFloat? (x : Option Float) : Json :=
  ofOption ofFloat x

def ofList {α : Type} (f : α → Json) (xs : List α) : Json :=
  .array (xs.map f)

def toFloat? : Json → Option Float
  | .integer n => some (Binary64.ofInt n)
  | .float x => some x
  | _ => none

def toText? : Json → Option String
  | .text s => some s
  | _ => none

def toBool? : Json → Option Bool
  | .bool b => some b
  | _ => none

/-- The member of an object under a name. -/
def get? (name : String) : Json → Option Json
  | .object members => Dictionary.get? name members
  | _ => none

mutual

/-- Every object in the byte order of its names, later members over earlier ones of the
    same name. -/
def canonical : Json → Json
  | .array items => .array (canonicalItems items)
  | .object members => .object (Dictionary.ofList (canonicalMembers members))
  | value => value

/-- The canonical forms of the items of an array. -/
def canonicalItems : List Json → List Json
  | [] => []
  | item :: rest => canonical item :: canonicalItems rest

/-- The canonical forms of the members of an object. -/
def canonicalMembers : List (String × Json) → List (String × Json)
  | [] => []
  | (name, value) :: rest => (name, canonical value) :: canonicalMembers rest

end

mutual

/-- Are two values equal, readings compared as numbers? -/
def same : Json → Json → Bool
  | .null, .null => true
  | .bool a, .bool b => a == b
  | .integer m, .integer n => m == n
  | .float x, .float y => x == y
  | .text s, .text t => s == t
  | .array xs, .array ys => sameItems xs ys
  | .object xs, .object ys => sameMembers xs ys
  | _, _ => false

/-- Are two lists of values equal, item by item? -/
def sameItems : List Json → List Json → Bool
  | [], [] => true
  | x :: xs, y :: ys => same x y && sameItems xs ys
  | _, _ => false

/-- Are two lists of members equal, one by one? -/
def sameMembers : List (String × Json) → List (String × Json) → Bool
  | [], [] => true
  | (m, x) :: xs, (n, y) :: ys => m == n && same x y && sameMembers xs ys
  | _, _ => false

end

instance : BEq Json := ⟨same⟩

end Json

end Qualification
