import Qualification.Json.Printer
import Qualification.Json.Reader

/-! # Strings in JSON text

A string is read back from its quoted text: every character from the character that stands
for itself or from its escape.
-/

namespace Qualification.Json

open Document

variable {c : Char} {rest read : List Char} {fuel : Nat}

theorem escaped_verbatim (verbatim : isVerbatim c) : escaped c = [c] := by
  simp only [isVerbatim, Bool.and_eq_true, decide_eq_true_eq, bne_iff_ne, ne_eq] at verbatim
  obtain ⟨⟨printable, noQuote⟩, noBackslash⟩ := verbatim
  unfold escaped
  split
  all_goals first | contradiction | skip
  rw [if_neg (by omega)]

theorem quote_toList (s : String) :
    (quote s).toList = '"' :: (s.toList.flatMap escaped ++ ['"']) := by
  unfold quote
  split
  · rename_i verbatim
    have same : s.toList.flatMap escaped = s.toList := by
      rw [List.all_eq_true] at verbatim
      generalize s.toList = cs at verbatim
      induction cs with
      | nil => rfl
      | cons c cs ih =>
          rw [List.flatMap_cons, escaped_verbatim (verbatim c List.mem_cons_self),
            ih fun d member => verbatim d (List.mem_cons_of_mem c member)]
          rfl
    rw [same]
    simp
  · simp

theorem hexValue_digitChar : ∀ n < 16, hexValue? (Nat.digitChar n) = some n := by
  decide

/-- A control character is read back from its number. -/
theorem hexCharacter_hexPair (control : c.toNat < 0x20) :
    hexCharacter ('0' :: '0' :: (hexPair c.toNat ++ rest)) = .ok (c, rest) := by
  have zero : hexValue? '0' = some 0 := by decide
  have high := hexValue_digitChar (c.toNat / 16) (by omega)
  have low := hexValue_digitChar (c.toNat % 16) (by omega)
  have whole : ((0 * 16 + 0) * 16 + c.toNat / 16) * 16 + c.toNat % 16 = c.toNat := by omega
  have unit : hexUnit ('0' :: '0' :: (hexPair c.toNat ++ rest)) = .ok (c.toNat, rest) := by
    simp only [hexUnit, hexPair, List.cons_append, List.nil_append, zero, high, low, whole]
  have alone : isTrailing c.toNat = false ∧ isLeading c.toNat = false := by
    simp only [isTrailing, isLeading, Bool.and_eq_false_iff, decide_eq_false_iff_not]
    omega
  simp [hexCharacter, unit, alone, bind, Except.bind]

/-- One step of reading a string: a character, from itself or from its escape. -/
theorem readString_escaped :
    readString (fuel + 1) read (escaped c ++ rest) = readString fuel (c :: read) rest := by
  unfold escaped
  split
  all_goals first | rfl | skip
  rename_i quote backslash _ _ _ _ _
  split
  · rename_i control
    simp [readString, hexCharacter_hexPair control]
  · rename_i printable
    rw [List.singleton_append, readString, if_neg printable]
    · exact quote
    · exact fun h => absurd h backslash
    · exact fun _ _ h => absurd h backslash

/-- A string is read back from the text behind its opening quote. -/
theorem readString_append (s : List Char) (enough : s.length ≤ fuel) :
    readString fuel read (s.flatMap escaped ++ '"' :: rest) =
      .ok (String.ofList (read.reverse ++ s), rest) := by
  induction s generalizing fuel read with
  | nil =>
      cases fuel <;> simp [readString]
  | cons c s ih =>
      obtain ⟨fuel, rfl⟩ : ∃ more, fuel = more + 1 :=
        Nat.exists_eq_add_one_of_ne_zero (Nat.ne_of_gt (Nat.lt_of_lt_of_le (by simp) enough))
      rw [List.flatMap_cons, List.append_assoc, readString_escaped, ih (by simpa using enough)]
      simp

theorem length_escaped (c : Char) : 1 ≤ (escaped c).length := by
  unfold escaped
  split
  all_goals first | decide | skip
  split <;> simp

theorem length_flatMap_escaped (s : List Char) : s.length ≤ (s.flatMap escaped).length := by
  induction s with
  | nil => exact Nat.le_refl 0
  | cons c s ih =>
      have some := length_escaped c
      simp only [List.flatMap_cons, List.length_append, List.length_cons]
      omega

/-- The tree of a quoted string, behind its opening quote. -/
theorem stringNode_quote (s : String) :
    stringNode (s.toList.flatMap escaped ++ '"' :: rest) = (.ofText s, some rest) := by
  have written := length_flatMap_escaped s.toList
  have enough : s.toList.length ≤ (s.toList.flatMap escaped ++ '"' :: rest).length := by
    rw [List.length_append]
    omega
  rw [stringNode, readString_append s.toList enough]
  simp

end Qualification.Json
