import Mathlib.Algebra.GroupWithZero.Nat
import Qualification.Decimal.Basic

/-! # Rows of digits

The digits of a number, read back, are that number.
-/

namespace Qualification.Decimal

theorem isDigit_iff {c : Char} : isDigit c ↔ c.isDigit := by
  simp only [isDigit, Char.isDigit, Bool.and_eq_true, decide_eq_true_eq]
  rfl

theorem isDigit_of_mem_digits {n : Nat} {c : Char} (h : c ∈ digits n) : isDigit c :=
  isDigit_iff.mpr (Nat.isDigit_of_mem_toDigits (by decide) (by decide) h)

theorem digits_ne_nil (n : Nat) : digits n ≠ [] :=
  Nat.toDigits_ne_nil

theorem ofDigits_digits (n : Nat) : ofDigits (digits n) = n :=
  Nat.ofDigitChars_ten_toDigits

theorem ofDigits_append (cs ds : List Char) :
    ofDigits (cs ++ ds) = 10 ^ ds.length * ofDigits cs + ofDigits ds := by
  have split : ofDigits (cs ++ ds) = Nat.ofDigitChars 10 ds (ofDigits cs) :=
    Nat.ofDigitChars_append 0
  rw [split, Nat.ofDigitChars_eq_ofDigitChars_zero]
  rfl

theorem ofDigits_zeros (k : Nat) (ds : List Char) :
    ofDigits (List.replicate k '0' ++ ds) = ofDigits ds := by
  have zeros : ofDigits (List.replicate k '0') = 0 :=
    Nat.ofDigitChars_replicate_zero
  rw [ofDigits_append, zeros, Nat.mul_zero, Nat.zero_add]

theorem digitValue_lt {c : Char} (h : isDigit c) : digitValue c < 10 := by
  simp only [isDigit, Bool.and_eq_true, decide_eq_true_eq] at h
  have most : c.toNat ≤ '9'.toNat := h.2
  have nine : '9'.toNat = 57 := rfl
  have zero : '0'.toNat = 48 := rfl
  rw [digitValue]
  omega

theorem ofDigits_cons (c : Char) (cs : List Char) :
    ofDigits (c :: cs) = 10 ^ cs.length * digitValue c + ofDigits cs := by
  have first : ofDigits [c] = digitValue c := by simp [ofDigits]
  rw [← List.singleton_append, ofDigits_append, first]

theorem ofDigits_lt {cs : List Char} (digits : ∀ c ∈ cs, isDigit c) :
    ofDigits cs < 10 ^ cs.length := by
  induction cs with
  | nil => decide
  | cons c cs ih =>
      obtain ⟨first, rest⟩ := List.forall_mem_cons.mp digits
      have small := digitValue_lt first
      rw [ofDigits_cons, List.length_cons, Nat.pow_succ]
      calc 10 ^ cs.length * digitValue c + ofDigits cs
          < 10 ^ cs.length * digitValue c + 10 ^ cs.length := by
            exact Nat.add_lt_add_left (ih rest) _
        _ = 10 ^ cs.length * (digitValue c + 1) := by rw [Nat.mul_succ]
        _ ≤ 10 ^ cs.length * 10 := Nat.mul_le_mul_left _ small

end Qualification.Decimal
