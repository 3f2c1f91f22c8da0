/-! # Words of bits

Which integers a word of a number of bits can hold, with a sign or without.
-/

namespace Qualification.Word

def count (bits : Nat) : Nat :=
  Nat.pow 2 bits

def holdsUnsigned (bits : Nat) (n : Int) : Bool :=
  0 ≤ n && n < (count bits : Int)

def holdsSigned (bits : Nat) (n : Int) : Bool :=
  -(count (bits - 1) : Int) ≤ n && n < (count (bits - 1) : Int)

/-- Does a word hold an integer, with a sign or without? -/
def holds (bits : Nat) (n : Int) : Bool :=
  holdsSigned bits n || holdsUnsigned bits n

end Qualification.Word
