import Qualification.Decimal.Layout
import Qualification.Proofs.Decimal.Shortest

/-! # Written numbers

A number is written as whole digits, perhaps a fraction, perhaps an exponent. A finite
reading in a document is written so that these parts read back as it.
-/

namespace Qualification.Decimal

/-- The parts of a written number. -/
structure Numeral where
  whole : List Char
  fraction : Option (List Char)
  exponent : Option Int

namespace Numeral

def fractionText : Option (List Char) → List Char
  | some ds => '.' :: ds
  | none => []

def exponentText : Option Int → List Char
  | some e => 'e' :: (if e < 0 then '-' else '+') :: digits e.natAbs
  | none => []

def text (n : Numeral) : List Char :=
  n.whole ++ (fractionText n.fraction ++ exponentText n.exponent)

def decimal (n : Numeral) : Decimal :=
  ofParts n.whole (n.fraction.getD []) (n.exponent.getD 0)

/-- Is the number written with a point or an exponent? -/
def isReal (n : Numeral) : Bool :=
  n.fraction.isSome || n.exponent.isSome

/-- Digits where digits belong, and no zero before another whole digit. -/
structure WellFormed (n : Numeral) : Prop where
  whole : ∀ c ∈ n.whole, isDigit c
  nonempty : n.whole ≠ []
  leading : ∀ rest, n.whole = '0' :: rest → rest = []
  fraction : ∀ ds, n.fraction = some ds → ds ≠ [] ∧ ∀ c ∈ ds, isDigit c

end Numeral

variable {c : Nat} {e : Int}

/-- A positive number is written without a zero in front. -/
theorem digits_head {n : Nat} (positive : 0 < n) :
    ∃ first rest, digits n = first :: rest ∧ first ≠ '0' := by
  induction n using Nat.strongRecOn with
  | ind n ih =>
    by_cases small : n < 10
    · refine ⟨_, [], Nat.toDigits_of_lt_base small, ?_⟩
      have apart : ∀ d < 10, 0 < d → Nat.digitChar d ≠ '0' := by decide
      exact apart n small positive
    · obtain ⟨first, rest, front, nonzero⟩ := ih (n / 10) (by omega) (by omega)
      refine ⟨first, rest ++ [Nat.digitChar (n % 10)], ?_, nonzero⟩
      have split := Nat.toDigits_of_base_le (b := 10) (by decide) (Nat.le_of_not_lt small)
      rw [digits] at front ⊢
      rw [split, front, List.cons_append]

theorem digits_leading {rest : List Char} (h : digits c = '0' :: rest) : rest = [] := by
  rcases Nat.eq_zero_or_pos c with rfl | positive
  · have zero : digits 0 = ['0'] := Nat.toDigits_zero 10
    rw [zero] at h
    exact (List.cons.inj h).2.symm
  · obtain ⟨first, others, front, nonzero⟩ := digits_head positive
    rw [front] at h
    exact absurd (List.cons.inj h).1 nonzero

theorem digits_wellFormed (c : Nat) (fraction : Option (List Char)) (exponent : Option Int)
    (h : ∀ ds, fraction = some ds → ds ≠ [] ∧ ∀ c ∈ ds, isDigit c) :
    (Numeral.mk (digits c) fraction exponent).WellFormed where
  whole _ := isDigit_of_mem_digits
  nonempty := digits_ne_nil c
  leading _ := digits_leading
  fraction := h

theorem scientific_numeral (d : Decimal) : ∃ n : Numeral,
    scientific d = n.text ∧ n.WellFormed ∧ n.isReal ∧ n.decimal = d := by
  have digit : ∀ c ∈ digits d.coefficient, isDigit c := fun _ => isDigit_of_mem_digits
  have value := ofDigits_digits d.coefficient
  have exponent : d.order = (digits d.coefficient).length - 1 + d.exponent := rfl
  have nonempty := digits_ne_nil d.coefficient
  rw [scientific]
  generalize digits d.coefficient = ds at *
  match ds with
  | [] => exact absurd rfl nonempty
  | [first] =>
      refine ⟨⟨[first], none, some d.order⟩, rfl, ⟨digit, nofun, ?_, nofun⟩, rfl, ?_⟩
      · intro rest single
        exact (List.cons.inj single).2.symm
      · have same : d.order = d.exponent := by simpa using exponent
        simp [Numeral.decimal, ofParts, value, same]
  | first :: second :: rest =>
      refine ⟨⟨[first], some (second :: rest), some d.order⟩, rfl, ⟨?_, nofun, ?_, ?_⟩, rfl, ?_⟩
      · exact fun c member => digit c (by simp [List.mem_singleton.mp member])
      · intro rest single
        exact (List.cons.inj single).2.symm
      · rintro ds ⟨⟩
        exact ⟨nofun, fun c member => digit c (List.mem_cons_of_mem first member)⟩
      · have same : d.order - (second :: rest).length = d.exponent := by
          simp only [List.length_cons] at exponent ⊢
          omega
        simp only [Numeral.decimal, ofParts, Option.getD_some, List.singleton_append, value, same]

/-- The digits of a number, with zeros in front so that one of them stands before the point. -/
def padded (c places : Nat) : List Char :=
  List.replicate (places + 1 - (digits c).length) '0' ++ digits c

variable {places : Nat}

theorem length_padded (c places : Nat) :
    (padded c places).length = max (places + 1) (digits c).length := by
  rw [padded, List.length_append, List.length_replicate]
  omega

theorem ofDigits_padded (c places : Nat) : ofDigits (padded c places) = c := by
  rw [padded, ofDigits_zeros, ofDigits_digits]

theorem isDigit_of_mem_padded {d : Char} (h : d ∈ padded c places) : isDigit d := by
  rcases List.mem_append.mp h with zero | digit
  · rw [List.eq_of_mem_replicate zero]
    rfl
  · exact isDigit_of_mem_digits digit

/-- A zero at the start of the digits before the point is the only one of them. -/
theorem padded_leading {rest : List Char}
    (h : (padded c places).take ((padded c places).length - places) = '0' :: rest) : rest = [] := by
  have long := length_padded c places
  by_cases few : (digits c).length ≤ places
  · have one := congrArg List.length h
    rw [List.length_take, List.length_cons] at one
    exact List.eq_nil_of_length_eq_zero (by omega)
  · have unpadded : padded c places = digits c := by
      rw [padded, Nat.sub_eq_zero_of_le (by omega)]
      rfl
    rw [unpadded] at h
    have whole : digits c = '0' :: (rest ++ (digits c).drop ((digits c).length - places)) := by
      rw [← List.cons_append, ← h, List.take_append_drop]
    exact (List.append_eq_nil_iff.mp (digits_leading whole)).1

theorem pointed_numeral (c : Nat) (positive : 0 < places) : ∃ n : Numeral,
    pointed c places = n.text ∧ n.WellFormed ∧ n.isReal ∧ n.decimal = ⟨c, -places⟩ := by
  have long := length_padded c places
  have fraction : ((padded c places).drop ((padded c places).length - places)).length = places := by
    rw [List.length_drop]
    omega
  have nonempty : (padded c places).drop ((padded c places).length - places) ≠ [] := by
    rw [← List.length_pos_iff, fraction]
    exact positive
  refine ⟨⟨(padded c places).take ((padded c places).length - places),
    some ((padded c places).drop ((padded c places).length - places)), none⟩, ?_, ?_, rfl, ?_⟩
  · have point : ¬ ((padded c places).drop ((padded c places).length - places)).isEmpty := by
      rwa [List.isEmpty_iff]
    rw [Numeral.text, Numeral.exponentText, List.append_nil]
    exact if_neg point
  · refine ⟨fun _ member => isDigit_of_mem_padded (List.mem_of_mem_take member), ?_,
      fun _ => padded_leading, ?_⟩
    · rw [← List.length_pos_iff, List.length_take]
      omega
    · rintro _ ⟨⟩
      exact ⟨nonempty, fun _ member => isDigit_of_mem_padded (List.mem_of_mem_drop member)⟩
  · simp only [Numeral.decimal, ofParts, Option.getD_some, Option.getD_none, List.take_append_drop,
      ofDigits_padded, fraction, Int.zero_sub]

theorem whole_numeral (c k : Nat) : ∃ n : Numeral,
    digits (c * Nat.pow 10 k) ++ ['.', '0'] = n.text ∧ n.WellFormed ∧ n.isReal ∧
      n.decimal.toFloat = toFloat ⟨c, k⟩ := by
  refine ⟨⟨digits (c * Nat.pow 10 k), some ['0'], none⟩, rfl, ?_, rfl, ?_⟩
  · refine digits_wellFormed _ _ _ ?_
    rintro ds ⟨⟩
    exact ⟨nofun, List.forall_mem_singleton.mpr rfl⟩
  · have value : Numeral.decimal ⟨digits (c * Nat.pow 10 k), some ['0'], none⟩ =
        ⟨c * 10 ^ (k + 1), -1⟩ := by
      have zero : ofDigits ['0'] = 0 := rfl
      have shifted : 10 ^ 1 * (c * Nat.pow 10 k) + 0 = c * 10 ^ (k + 1) := by
        rw [Nat.pow_one, Nat.mul_comm, Nat.mul_assoc, Nat.pow_eq, ← Nat.pow_succ, Nat.add_zero]
      simp only [Numeral.decimal, ofParts, Option.getD_some, Option.getD_none, ofDigits_append,
        ofDigits_digits, zero, List.length_singleton, shifted]
      rfl
    rw [value, toFloat_mul_pow]
    congr 2
    omega

/-- A finite reading in a document is a number whose parts read back as its magnitude. -/
theorem documentMagnitude_numeral {x : Float} (finite : x.isFinite) : ∃ n : Numeral,
    documentMagnitude x = n.text ∧ n.WellFormed ∧ n.isReal ∧ n.decimal.toFloat = x.abs := by
  have value := toFloat_shortest finite .toEven
  unfold documentMagnitude
  generalize shortest .toEven x = d at value
  dsimp only
  split
  · obtain ⟨n, text, wellFormed, real, same⟩ := scientific_numeral d
    exact ⟨n, text, wellFormed, real, same ▸ value⟩
  · split
    · rename_i whole
      obtain ⟨c, e⟩ := d
      obtain ⟨k, rfl⟩ := Int.eq_ofNat_of_zero_le whole
      obtain ⟨n, text, wellFormed, real, same⟩ := whole_numeral c k
      rw [positional, if_pos whole]
      exact ⟨n, text, wellFormed, real, same.trans value⟩
    · rename_i small
      obtain ⟨n, text, wellFormed, real, same⟩ :=
        pointed_numeral d.coefficient (by omega : 0 < d.exponent.natAbs)
      rw [positional, if_neg small]
      refine ⟨n, text, wellFormed, real, ?_⟩
      have exponent : -(d.exponent.natAbs : Int) = d.exponent := by omega
      rw [same, exponent]
      exact value

end Qualification.Decimal
