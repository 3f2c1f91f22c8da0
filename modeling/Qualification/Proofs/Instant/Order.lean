import Qualification.Proofs.Instant.Column
import Qualification.Proofs.Text.Order

/-! # The order of columns

A column is made of rows of digits of fixed widths with the same marks between them. So
columns are in order, as texts, as the numbers in them are, from the year down to the
nanosecond; and that is the order of time.
-/

namespace Qualification.Instant

theorem digitValue_compare {c d : Char} (first : Decimal.isDigit c) (second : Decimal.isDigit d) :
    (Decimal.digitValue c < Decimal.digitValue d ↔ c < d) ∧
      (Decimal.digitValue c = Decimal.digitValue d ↔ c = d) := by
  simp only [Decimal.isDigit, Bool.and_eq_true, decide_eq_true_eq] at first second
  have least : '0'.toNat ≤ c.toNat ∧ '0'.toNat ≤ d.toNat := ⟨first.1, second.1⟩
  have order : c < d ↔ c.toNat < d.toNat := Iff.rfl
  have same : c = d ↔ c.toNat = d.toNat := Char.toNat_inj.symm
  rw [order, same, Decimal.digitValue, Decimal.digitValue]
  omega

/-- Rows of digits of one width are in the order of their numbers. -/
theorem Writes.compare {width m n : Nat} {cs ds : List Char} (first : Writes width cs m)
    (second : Writes width ds n) : (cs < ds ↔ m < n) ∧ (cs = ds ↔ m = n) := by
  obtain ⟨rfl, digits, rfl⟩ := first
  obtain ⟨length, digits', rfl⟩ := second
  induction cs generalizing ds with
  | nil =>
      obtain rfl := List.length_eq_zero_iff.mp length
      simp
  | cons c cs ih =>
      cases ds with
      | nil => cases length
      | cons d ds =>
          have length := Nat.succ.inj length
          obtain ⟨isDigit, digits⟩ := List.forall_mem_cons.mp digits
          obtain ⟨isDigit', digits'⟩ := List.forall_mem_cons.mp digits'
          obtain ⟨less, same⟩ := ih digits length digits'
          obtain ⟨firstLess, firstSame⟩ := digitValue_compare isDigit isDigit'
          have small := Decimal.ofDigits_lt digits
          have small' := Decimal.ofDigits_lt digits'
          rw [length] at small'
          obtain ⟨scaled, scaledSame⟩ := scaled_compare small small'
            (a := Decimal.digitValue c) (b := Decimal.digitValue d)
          rw [Decimal.ofDigits_cons, Decimal.ofDigits_cons, length, scaled, scaledSame,
            List.cons_lt_cons_iff, List.cons.injEq, firstLess, firstSame, less, same]
          exact ⟨Iff.rfl, Iff.rfl⟩

theorem append_lt_append {cs ds xs ys : List Char} (same : cs.length = ds.length) :
    cs ++ xs < ds ++ ys ↔ cs < ds ∨ cs = ds ∧ xs < ys := by
  induction cs generalizing ds with
  | nil =>
      obtain rfl := List.length_eq_zero_iff.mp same.symm
      simp
  | cons c cs ih =>
      cases ds with
      | nil => cases same
      | cons d ds =>
          have rest := ih (Nat.succ.inj same)
          simp only [List.cons_append, List.cons_lt_cons_iff, rest, List.cons.injEq]
          constructor
          · rintro (less | ⟨rfl, less | ⟨rfl, less⟩⟩)
            · exact .inl (.inl less)
            · exact .inl (.inr ⟨rfl, less⟩)
            · exact .inr ⟨⟨rfl, rfl⟩, less⟩
          · rintro ((less | ⟨rfl, less⟩) | ⟨⟨rfl, rfl⟩, less⟩)
            · exact .inl less
            · exact .inr ⟨rfl, .inl less⟩
            · exact .inr ⟨rfl, .inr ⟨rfl, less⟩⟩

/-- Numbers of one width are compared first, and what follows them next. -/
theorem row_lt {width m n : Nat} (positive : 0 < width) (fits : m < 10 ^ width)
    (fits' : n < 10 ^ width) (mark : Char) (xs ys : List Char) :
    (padded width m).toList ++ mark :: xs < (padded width n).toList ++ mark :: ys ↔
      m < n ∨ m = n ∧ xs < ys := by
  have first := padded_writes positive fits
  have second := padded_writes positive fits'
  obtain ⟨less, same⟩ := first.compare second
  rw [append_lt_append (first.length.trans second.length.symm), less, same,
    List.cons_lt_cons_iff]
  simp

variable {s t : Instant}

theorem lt_iff : s.lt t ↔ s.seconds < t.seconds ∨ s.seconds = t.seconds ∧ s.nanos < t.nanos := by
  simp only [lt, le, Bool.not_eq_true', Bool.or_eq_false_iff, Bool.and_eq_false_imp, beq_iff_eq,
    decide_eq_false_iff_not]
  omega

/-- Seconds are in order as days are, and within a day as its seconds are. -/
theorem seconds_compare :
    (s.seconds < t.seconds ↔
      s.day.Earlier t.day ∨ s.day = t.day ∧ s.secondOfDay < t.secondOfDay) ∧
    (s.seconds = t.seconds ↔ s.day = t.day ∧ s.secondOfDay = t.secondOfDay) := by
  have first := s.secondOfDay_lt
  have second := t.secondOfDay_lt
  have days := CalendarDay.toDays_compare (d := s.day) (e := t.day)
    (CalendarDay.ofDays_valid _) (CalendarDay.ofDays_valid _)
  rw [← s.seconds_eq, ← t.seconds_eq, ← days.1, ← days.2]
  omega

/-- Leap seconds included, times of day are in order as their parts are. -/
theorem clock_lt_iff (first : s.Proper) (second : t.Proper) :
    (s.parts.hour < t.parts.hour ∨ s.parts.hour = t.parts.hour ∧
      (s.parts.minute < t.parts.minute ∨ s.parts.minute = t.parts.minute ∧
        (s.parts.second < t.parts.second ∨ s.parts.second = t.parts.second ∧
          s.parts.nanos < t.parts.nanos))) ↔
      s.secondOfDay < t.secondOfDay ∨ s.secondOfDay = t.secondOfDay ∧ s.nanos < t.nanos := by
  simp only [parts]
  have firstCases := first.second_cases
  have secondCases := second.second_cases
  unfold Instant.second at *
  omega

/-- For years of four digits the order of columns is the order of time. -/
theorem Plain.column_lt_iff (first : s.Plain) (second : t.Plain) :
    s.column < t.column ↔ s.lt t := by
  obtain ⟨⟨_, month⟩, ⟨_, day⟩, hour, minute, sixty, nanos⟩ := first.proper.parts_within
  obtain ⟨⟨_, month'⟩, ⟨_, day'⟩, hour', minute', sixty', nanos'⟩ := second.proper.parts_within
  have year := first.year
  have year' := second.year
  simp only [hasPlainYear, Bool.and_eq_true, decide_eq_true_eq] at year year'
  have texts : s.column < t.column ↔ s.column.toList < t.column.toList := Iff.rfl
  rw [texts, column_toList first.year, column_toList second.year,
    row_lt (by decide) (by omega) (by omega), row_lt (by decide) (by omega) (by omega),
    row_lt (by decide) (by omega) (by omega), row_lt (by decide) (by omega) (by omega),
    row_lt (by decide) (by omega) (by omega), row_lt (by decide) (by omega) (by omega),
    row_lt (by decide) nanos nanos']
  simp only [Std.lt_irrefl, and_false, or_false]
  rw [clock_lt_iff first.proper second.proper, lt_iff, seconds_compare.1, seconds_compare.2,
    CalendarDay.Earlier, CalendarDay.eq_iff]
  omega

end Qualification.Instant
