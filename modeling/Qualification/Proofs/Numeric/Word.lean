import Mathlib.Algebra.GroupWithZero.Nat
import Mathlib.Algebra.Ring.Int.Defs
import Qualification.Numeric.Word

/-! # Words of 64 bits

The integers that a word of 64 bits holds, as bounds.
-/

namespace Qualification.Word

variable {n : Int}

theorem holdsUnsigned_iff : holdsUnsigned 64 n ↔ 0 ≤ n ∧ n < 2 ^ 64 := by
  have width : (count 64 : Int) = 2 ^ 64 := rfl
  simp only [holdsUnsigned, width, Bool.and_eq_true, decide_eq_true_eq]

theorem holdsSigned_iff : holdsSigned 64 n ↔ -2 ^ 63 ≤ n ∧ n < 2 ^ 63 := by
  have width : (count (64 - 1) : Int) = 2 ^ 63 := rfl
  simp only [holdsSigned, width, Bool.and_eq_true, decide_eq_true_eq]

theorem holds_iff : holds 64 n ↔ -2 ^ 63 ≤ n ∧ n < 2 ^ 64 := by
  rw [holds, Bool.or_eq_true, holdsSigned_iff, holdsUnsigned_iff]
  omega

end Qualification.Word
