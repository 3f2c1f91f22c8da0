import Qualification.Json.Printer
import Qualification.Json.Reader
import Qualification.Proofs.Decimal.Numeral
import Qualification.Proofs.Numeric.Word

/-! # Numbers in JSON text

A number is read back from its text, whatever follows that cannot go on with it: an integer
of 64 bits as itself, and a finite reading as the same reading, its sign of zero included.
-/

namespace Qualification.Json

open Decimal Document

/-- A text that no number goes on with. -/
def Stops (rest : List Char) : Prop :=
  ∀ c cs, rest = c :: cs → ¬ isDigit c ∧ c ≠ '.' ∧ c ≠ 'e' ∧ c ≠ 'E'

variable {rest ds : List Char}

theorem takeWhile_digits (digits : ∀ c ∈ ds, isDigit c)
    (stop : ∀ c cs, rest = c :: cs → ¬ isDigit c) :
    (ds ++ rest).takeWhile isDigit = ds ∧ (ds ++ rest).dropWhile isDigit = rest := by
  have none : rest.takeWhile isDigit = [] ∧ rest.dropWhile isDigit = rest := by
    cases rest with
    | nil => exact ⟨rfl, rfl⟩
    | cons c cs => simp [stop c cs rfl]
  rw [List.takeWhile_append_of_pos digits, List.dropWhile_append_of_pos digits, none.1, none.2,
    List.append_nil]
  exact ⟨rfl, rfl⟩

theorem someDigits_append (digits : ∀ c ∈ ds, isDigit c) (nonempty : ds ≠ [])
    (stop : ∀ c cs, rest = c :: cs → ¬ isDigit c) : someDigits (ds ++ rest) = .ok (ds, rest) := by
  obtain ⟨taken, left⟩ := takeWhile_digits digits stop
  simp [someDigits, taken, left, nonempty]

theorem wholeDigits_append (digits : ∀ c ∈ ds, isDigit c) (nonempty : ds ≠ [])
    (leading : ∀ more, ds = '0' :: more → more = [])
    (stop : ∀ c cs, rest = c :: cs → ¬ isDigit c) : wholeDigits (ds ++ rest) = .ok (ds, rest) := by
  unfold wholeDigits
  split
  · rename_i c cs front
    obtain ⟨first, more, rfl⟩ := List.exists_cons_of_ne_nil nonempty
    obtain ⟨rfl, after⟩ := List.cons.inj front
    obtain rfl := leading more rfl
    change rest = c :: cs at after
    rw [if_neg (stop c cs after), after]
  · exact someDigits_append digits nonempty stop

theorem fractionDigits_append {fraction : Option (List Char)}
    (digits : ∀ ds, fraction = some ds → ds ≠ [] ∧ ∀ c ∈ ds, isDigit c)
    (stop : ∀ c cs, rest = c :: cs → ¬ isDigit c ∧ c ≠ '.') :
    fractionDigits (Numeral.fractionText fraction ++ rest) = .ok (fraction, rest) := by
  cases fraction with
  | some ds =>
      obtain ⟨nonempty, all⟩ := digits ds rfl
      have read := someDigits_append all nonempty fun c cs h => (stop c cs h).1
      simp [fractionDigits, Numeral.fractionText, read, Except.map]
  | none =>
      rw [Numeral.fractionText, List.nil_append]
      unfold fractionDigits
      split
      · exact absurd rfl (stop _ _ rfl).2
      · rfl

theorem exponentDigits_append (exponent : Option Int) (stop : Stops rest) :
    exponentDigits (Numeral.exponentText exponent ++ rest) = .ok (exponent, rest) := by
  cases exponent with
  | some e =>
      have read := someDigits_append (fun _ => isDigit_of_mem_digits) (digits_ne_nil e.natAbs)
        fun c cs h => (stop c cs h).1
      by_cases negative : e < 0
      · have value : -(e.natAbs : Int) = e := by omega
        simp only [exponentDigits, Numeral.exponentText, if_pos negative, List.cons_append,
          decide_true, Bool.true_or, if_true, splitSign, read, Except.map, ofDigits_digits, value]
      · have value : (e.natAbs : Int) = e := by omega
        simp only [exponentDigits, Numeral.exponentText, if_neg negative, List.cons_append,
          decide_true, Bool.true_or, if_true, splitSign, read, Except.map, ofDigits_digits, value,
          Bool.false_eq_true, if_false]
  | none =>
      rw [Numeral.exponentText, List.nil_append]
      unfold exponentDigits
      split
      · rename_i c cs
        obtain ⟨-, -, small, capital⟩ := stop c cs rfl
        rw [if_neg (by simp [small, capital])]
      · rfl

theorem exponentText_stop (exponent : Option Int) (stop : Stops rest) :
    ∀ c cs, Numeral.exponentText exponent ++ rest = c :: cs → ¬ isDigit c ∧ c ≠ '.' := by
  intro c cs front
  cases exponent with
  | some e =>
      obtain ⟨rfl, -⟩ := List.cons.inj front
      decide
  | none =>
      obtain ⟨digit, point, -⟩ := stop c cs front
      exact ⟨digit, point⟩

theorem fractionText_stop (fraction : Option (List Char))
    (stop : ∀ c cs, rest = c :: cs → ¬ isDigit c) :
    ∀ c cs, Numeral.fractionText fraction ++ rest = c :: cs → ¬ isDigit c := by
  intro c cs front
  cases fraction with
  | some ds =>
      obtain ⟨rfl, -⟩ := List.cons.inj front
      decide
  | none => exact stop c cs front

def minus (negative : Bool) : List Char :=
  if negative then ['-'] else []

/-- A written number begins with its sign or with a digit. -/
theorem minus_head {n : Numeral} (wellFormed : n.WellFormed) (negative : Bool) :
    ∃ c cs, minus negative ++ n.text = c :: cs ∧ (c = '-' ∨ isDigit c) := by
  obtain ⟨first, more, whole⟩ := List.exists_cons_of_ne_nil wellFormed.nonempty
  cases negative with
  | true => exact ⟨'-', n.text, rfl, .inl rfl⟩
  | false =>
      refine ⟨first, more ++ (Numeral.fractionText n.fraction ++ Numeral.exponentText n.exponent),
        ?_, .inr (wellFormed.whole first (by simp [whole]))⟩
      simp [minus, Numeral.text, whole]

def numberNode : Atom → Node
  | .float x => if x.isFinite then .value (.float x) else .damaged .numberOutOfRange none
  | atom => .value atom

/-- A number is read from its parts. -/
theorem readNumber_numeral {n : Numeral} (wellFormed : n.WellFormed) (negative : Bool)
    (stop : Stops rest) : readNumber (minus negative ++ (n.text ++ rest)) =
      .ok (numberNode (numberAtom negative n.whole n.fraction n.exponent), rest) := by
  have behindFraction := exponentText_stop n.exponent stop
  have behindWhole := fractionText_stop n.fraction fun c cs h =>
    (behindFraction c cs h).1
  have whole := wholeDigits_append wellFormed.whole wellFormed.nonempty wellFormed.leading
    behindWhole
  have fraction := fractionDigits_append wellFormed.fraction behindFraction
  have exponent := exponentDigits_append n.exponent stop
  have text : n.text ++ rest = n.whole ++ (Numeral.fractionText n.fraction ++
      (Numeral.exponentText n.exponent ++ rest)) := by
    simp [Numeral.text]
  -- A digit is no minus sign, so the first character tells whether there is one.
  have first : ∀ more, n.text ++ rest ≠ '-' :: more := by
    intro more front
    obtain ⟨c, others, split⟩ := List.exists_cons_of_ne_nil wellFormed.nonempty
    rw [text, split] at front
    obtain ⟨rfl, -⟩ := List.cons.inj front
    exact absurd (wellFormed.whole '-' (by simp [split])) (by decide)
  unfold readNumber
  split
  rename_i isNegative digits sign
  obtain ⟨rfl, rfl⟩ : isNegative = negative ∧ digits = n.text ++ rest := by
    split at sign
    · rename_i more front
      cases negative with
      | true =>
          obtain ⟨-, rfl⟩ := List.cons.inj front
          simpa using sign.symm
      | false => exact absurd front (first more)
    · rename_i other
      cases negative with
      | true => exact absurd rfl (other _)
      | false => simpa [minus] using sign.symm
  rw [text]
  simp only [whole, fraction, exponent, bind, Except.bind, pure, Except.pure]
  cases numberAtom isNegative n.whole n.fraction n.exponent with
  | float x =>
      simp only [numberNode]
      split <;> rfl
  | _ => rfl

theorem signed_abs {x : Float} (finite : x.isFinite) :
    signed (Binary64.isNegative x) x.abs = x := by
  have number := Binary64.isNumber_of_isFinite finite
  obtain ⟨absSign, absMagnitude⟩ := Binary64.abs_spec number
  unfold signed
  split
  · rename_i negative
    have absNumber : Binary64.IsNumber x.abs := by
      unfold Binary64.IsNumber
      rw [absMagnitude]
      exact number
    obtain ⟨sign, magnitude⟩ := Binary64.neg_spec absNumber
    refine Binary64.eq_of_magnitude ?_ (magnitude.trans absMagnitude)
    rw [sign, absSign, negative]
    rfl
  · rename_i positive
    refine Binary64.eq_of_magnitude ?_ absMagnitude
    rw [absSign, Bool.eq_false_iff.mpr positive]

/-- A finite reading is written in a document as a number that has its value. -/
theorem number_numeral {x : Float} (finite : x.isFinite) : ∃ n : Numeral, n.WellFormed ∧
    (number x).toList = minus (Binary64.isNegative x) ++ n.text ∧
      numberAtom (Binary64.isNegative x) n.whole n.fraction n.exponent = .float x := by
  obtain ⟨n, text, wellFormed, real, value⟩ := documentMagnitude_numeral finite
  have notNaN := Binary64.not_isNaN finite
  refine ⟨n, wellFormed, ?_, ?_⟩
  · simp only [number, document, write, if_pos finite, if_neg notNaN, String.toList_ofList, text,
      minus]
  · have same := signed_abs finite
    rw [← value] at same
    have point : n.fraction.isSome || n.exponent.isSome := real
    simp only [numberAtom, point, if_true]
    exact congrArg Atom.float same

theorem numberAtom_integer {n : Int} (held : Word.holds 64 n) :
    numberAtom (n < 0) (digits n.natAbs) none none = .integer n := by
  obtain ⟨low, high⟩ := Word.holds_iff.mp held
  simp only [numberAtom, ofDigits_digits, Option.isSome_none, Bool.or_self, Bool.false_eq_true,
    if_false, decide_eq_true_eq, Bool.and_eq_true, Word.holdsSigned_iff, Word.holdsUnsigned_iff]
  by_cases negative : n < 0
  · rw [if_pos negative, if_pos (by omega)]
    congr 1
    omega
  · rw [if_neg negative, if_pos (by omega)]
    congr 1
    omega

/-- An integer that 64 bits hold is written as a number that has its value. -/
theorem repr_numeral {n : Int} (held : Word.holds 64 n) : ∃ m : Numeral, m.WellFormed ∧
    n.repr.toList = minus (n < 0) ++ m.text ∧
      numberAtom (n < 0) m.whole m.fraction m.exponent = .integer n := by
  refine ⟨⟨digits n.natAbs, none, none⟩, digits_wellFormed n.natAbs none none nofun, ?_,
    numberAtom_integer held⟩
  cases n <;> simp [Int.repr, minus, Numeral.text, Numeral.fractionText, Numeral.exponentText,
    Nat.repr, digits, Int.negSucc_lt_zero]

end Qualification.Json
