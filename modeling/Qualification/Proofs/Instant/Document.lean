import Qualification.Instant.Codec
import Qualification.Proofs.Instant.Column

/-! # Instants in documents

Every instant that a clock or a text can give is read back from the text that documents have
of it, whatever its year. The fraction has as many digits as it needs, and a year that does
not fit four digits has a sign, which the reader of documents takes.
-/

namespace Qualification.Instant

theorem not_blank_of_digit {c : Char} (digit : Decimal.isDigit c) : ¬ Text.isBlankChar c := by
  simp only [Decimal.isDigit, Bool.and_eq_true, decide_eq_true_eq] at digit
  have least : '0'.toNat ≤ c.toNat := digit.1
  have most : c.toNat ≤ '9'.toNat := digit.2
  have zero : '0'.toNat = 48 := rfl
  have nine : '9'.toNat = 57 := rfl
  simp only [Text.isBlankChar, Text.blankCodePoints, List.contains_eq_mem, List.mem_cons,
    List.not_mem_nil, or_false, decide_eq_true_eq]
  omega

variable {width least most n : Nat} {cs rest : List Char}

theorem Writes.head_digit (h : Writes width cs n) (positive : 0 < width) {c : Char}
    {tail : List Char} (same : cs ++ rest = c :: tail) : Decimal.isDigit c := by
  cases cs with
  | nil => exact absurd h.length (by simp; omega)
  | cons d more =>
      cases same
      exact h.digits c List.mem_cons_self

theorem skipBlanks_writes (h : Writes width cs n) (positive : 0 < width) :
    skipBlanks (cs ++ rest) = cs ++ rest := by
  cases cs with
  | nil => exact absurd h.length (by simp; omega)
  | cons c more =>
      have digit := h.digits c List.mem_cons_self
      exact List.dropWhile_cons_of_neg (not_blank_of_digit digit)

/-- A number is scanned up to the first character that is no digit. -/
theorem scanNumber_stops (h : Writes width cs n) (enough : least ≤ width) (fits : width ≤ most)
    (small : n < 10 ^ 18) (stops : ∀ c ∈ rest.head?, ¬ Decimal.isDigit c) :
    scanNumber least most (cs ++ rest) = .ok (n, rest) := by
  have ends : (rest.take (most - width)).takeWhile Decimal.isDigit = [] := by
    cases rest with
    | nil => simp
    | cons c more =>
        cases room : most - width with
        | zero => rfl
        | succ k =>
            have stop := stops c rfl
            simp [stop]
  have taken : ((cs ++ rest).take most).takeWhile Decimal.isDigit = cs := by
    rw [List.take_append, List.take_of_length_le (by rw [h.length]; exact fits), h.length,
      List.takeWhile_append_of_pos h.digits, ends, List.append_nil]
  have long : ¬ cs.length < least := by
    rw [h.length]
    omega
  have held : Word.holdsSigned 64 n := Word.holdsSigned_iff.mpr (by omega)
  simp only [scanNumber, taken, if_neg long, h.value, held, Bool.not_true, Bool.false_eq_true,
    if_false, List.drop_left]

theorem scanLenient_padded {low high : Nat} (fits : n < 100) (within : low ≤ n ∧ n ≤ high) :
    scanLenient low high ((padded 2 n).toList ++ rest) = .ok (n, rest) := by
  have writes : Writes 2 (padded 2 n).toList n := padded_writes (by decide) fits
  rw [scanLenient, skipBlanks_writes writes (by decide),
    scanNumber_writes writes (by decide) (by omega)]
  simp [Instant.within, within, bind, Except.bind, pure, Except.pure]

theorem isYear_iff {year : Int} : isYear year ↔ -262143 ≤ year ∧ year ≤ 262142 := by
  rw [isYear, Bool.and_eq_true, decide_eq_true_eq, decide_eq_true_eq]
  exact Iff.rfl

theorem held_year {year : Int} (h : isYear year) : Word.holdsSigned 32 year := by
  have bounds := isYear_iff.mp h
  have width : (Word.count (32 - 1) : Int) = 2 ^ 31 := rfl
  rw [Word.holdsSigned, width, Bool.and_eq_true, decide_eq_true_eq, decide_eq_true_eq]
  omega

/-- A year is read up to the mark behind it, with a sign or without. -/
theorem scanYear_yearText {year : Int} (h : isYear year) (rest : List Char) :
    scanYear ((yearText year).toList ++ '-' :: rest) = .ok (year, '-' :: rest) := by
  have held := held_year h
  have bounds := isYear_iff.mp h
  have stops : ∀ c ∈ ('-' :: rest).head?, ¬ Decimal.isDigit c := by
    simp
    decide
  by_cases plain : 0 ≤ year ∧ year ≤ 9999
  · have writes : Writes 4 (padded 4 year.toNat).toList year.toNat :=
      padded_writes (by decide) (by omega)
    have read := scanNumber_stops writes (by decide : 1 ≤ 4) (Nat.le_refl 4) (by omega) stops
    have same : (year.toNat : Int) = year := by omega
    rw [yearText_plain plain.1 plain.2, scanYear, skipBlanks_writes writes (by decide)]
    split
    · rename_i signed
      exact absurd (writes.head_digit (by decide) signed) (by decide)
    · rename_i signed
      exact absurd (writes.head_digit (by decide) signed) (by decide)
    · simp [-Int.ofNat_toNat, read, same, held, bind, Except.bind]
  · obtain ⟨width, _, positive, writes⟩ := padded_row 4 year.natAbs
    have long : width ≤ ((padded 4 year.natAbs).toList ++ '-' :: rest).length.succ := by
      rw [List.length_append, writes.length]
      omega
    have small : year.natAbs < 10 ^ 18 := by omega
    have read := scanNumber_stops writes positive long small stops
    rw [yearText_far plain, scanYear]
    by_cases negative : year < 0
    · have same : -(year.natAbs : Int) = year := by omega
      have unskipped cs : skipBlanks ('-' :: cs) = '-' :: cs := rfl
      simp only [negative, if_true, List.cons_append, unskipped, read, same, held, bind,
        Except.bind]
    · have same : (year.natAbs : Int) = year := by omega
      have unskipped cs : skipBlanks ('+' :: cs) = '+' :: cs := rfl
      simp only [negative, if_false, List.cons_append, unskipped, read, same, held, bind,
        Except.bind]
      rfl

/-- A fraction in a group of digits, scaled to nanoseconds. -/
theorem scanFraction_group {width n : Nat} (positive : 0 < width) (narrow : width ≤ 9)
    (fits : n < 10 ^ width) :
    scanFraction ('.' :: ((padded width n).toList ++ ['Z'])) =
      .ok (n * 10 ^ (9 - width), ['Z']) := by
  have stops : ∀ c ∈ ['Z'].head?, ¬ Decimal.isDigit c := by
    simp
    decide
  have small : n < 10 ^ 18 :=
    Nat.lt_of_lt_of_le fits (Nat.pow_le_pow_right (by decide) (by omega))
  have writes := padded_writes positive fits
  have unread : ['Z'].dropWhile Decimal.isDigit = ['Z'] := rfl
  simp [scanFraction, scanNumber_stops writes positive narrow small stops, writes.length, unread,
    bind, Except.bind, pure, Except.pure]

theorem scanFraction_text {n : Nat} (fits : n < 10 ^ 9) :
    scanFraction ((fractionText n).toList ++ ['Z']) = .ok (n, ['Z']) := by
  unfold fractionText
  split
  · rename_i zero
    rw [zero]
    rfl
  split
  · rename_i millis
    have whole : n / 1000000 * 10 ^ (9 - 3) = n := by omega
    have read := scanFraction_group (by decide : 0 < 3) (by decide)
      (by omega : n / 1000000 < 10 ^ 3)
    rw [whole] at read
    simpa using read
  split
  · rename_i micros
    have whole : n / 1000 * 10 ^ (9 - 6) = n := by omega
    have read := scanFraction_group (by decide : 0 < 6) (by decide) (by omega : n / 1000 < 10 ^ 6)
    rw [whole] at read
    simpa using read
  · have read := scanFraction_group (by decide : 0 < 9) (Nat.le_refl 9) fits
    simpa using read

theorem toText_toList (t : Instant) :
    t.toText.toList = (yearText t.day.year).toList ++ '-' :: ((padded 2 t.day.month).toList ++
      '-' :: ((padded 2 t.day.day).toList ++ 'T' :: ((padded 2 t.parts.hour).toList ++
        ':' :: ((padded 2 t.parts.minute).toList ++ ':' :: ((padded 2 t.parts.second).toList ++
          ((fractionText t.parts.nanos).toList ++ ['Z'])))))) := by
  simp [toText, dayText, timeText, clockText, parts]

/-- An instant is read back from the text that documents have of it. -/
theorem read_toText {t : Instant} (proper : t.Proper) (year : isYear t.day.year) :
    read t.toText = .ok t := by
  obtain ⟨month, day, hour, minute, sixty, nanos⟩ := proper.parts_within
  have readYear := scanYear_yearText year
  have readMonth rest : scanLenient 1 12 ((padded 2 t.day.month).toList ++ rest) = _ :=
    scanLenient_padded (by omega) month
  have readDay rest : scanLenient 1 31 ((padded 2 t.day.day).toList ++ rest) = _ :=
    scanLenient_padded (by omega) day
  have readHour rest : scanLenient 0 23 ((padded 2 t.parts.hour).toList ++ rest) = _ :=
    scanLenient_padded (by omega) ⟨Nat.zero_le _, hour⟩
  have readMinute rest : scanLenient 0 59 ((padded 2 t.parts.minute).toList ++ rest) = _ :=
    scanLenient_padded (by omega) ⟨Nat.zero_le _, minute⟩
  have readSecond rest : scanLenient 0 60 ((padded 2 t.parts.second).toList ++ rest) = _ :=
    scanLenient_padded (by omega) ⟨Nat.zero_le _, sixty⟩
  have dash cs : skipBlanks ('-' :: cs) = '-' :: cs := rfl
  have colon cs : skipBlanks (':' :: cs) = ':' :: cs := rfl
  have zone : scanLenientOffset (skipBlanks ['Z']) = .ok (0, []) := rfl
  have ended : skipBlanks [] = [] := rfl
  rw [read, toText_toList]
  simp [bind, Except.bind, scanMark, scanDivider, readYear, readMonth, readDay, readHour,
    readMinute, readSecond, dash, colon, scanFraction_text nanos, zone, ended]
  exact ofParts_parts proper year

end Qualification.Instant
