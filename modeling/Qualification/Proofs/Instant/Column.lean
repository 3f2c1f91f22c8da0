import Mathlib.Data.List.TakeWhile
import Qualification.Proofs.Decimal.Digits
import Qualification.Proofs.Instant.Calendar
import Qualification.Proofs.Numeric.Word
import Qualification.Proofs.Refusal
import Qualification.Store.Column

/-! # Instants in columns

An instant of a year of four digits is read back from its column to the nanosecond.
-/

namespace Qualification.Instant

/-- An instant that a clock or a text can give: a leap second ends a minute. -/
structure Proper (t : Instant) : Prop where
  nanos : t.nanos < 2 * second
  leap : second ≤ t.nanos → t.seconds % 60 = 59

theorem Proper.of_below {t : Instant} (below : t.nanos < second) : t.Proper :=
  ⟨by omega, fun leap => absurd below (Nat.not_lt.mpr leap)⟩

/-- A row of digits that writes a number. -/
structure Writes (width : Nat) (cs : List Char) (n : Nat) : Prop where
  length : cs.length = width
  digits : ∀ c ∈ cs, Decimal.isDigit c
  value : Decimal.ofDigits cs = n

/-- A number has at least one digit, and as many as it is given. -/
theorem padded_row (width n : Nat) :
    ∃ more, width ≤ more ∧ 0 < more ∧ Writes more (padded width n).toList n := by
  have digits : (Nat.toDigits 10 n).length ≠ 0 :=
    mt List.length_eq_zero_iff.mp Nat.toDigits_ne_nil
  rw [padded, String.toList_ofList]
  refine ⟨_, ?_, ?_, rfl, ?_, ?_⟩
  · rw [List.length_append, List.length_replicate]
    omega
  · rw [List.length_append]
    omega
  · intro c member
    rcases List.mem_append.mp member with zero | digit
    · rw [List.eq_of_mem_replicate zero]
      decide
    · exact Decimal.isDigit_of_mem_digits digit
  · rw [Decimal.ofDigits_zeros]
    exact Decimal.ofDigits_digits n

theorem padded_writes {width n : Nat} (positive : 0 < width) (fits : n < 10 ^ width) :
    Writes width (padded width n).toList n := by
  obtain ⟨_, _, _, _, digits, value⟩ := padded_row width n
  have short : (Nat.toDigits 10 n).length ≤ width :=
    (Nat.length_toDigits_le_iff (by decide) positive).mpr fits
  refine ⟨?_, digits, value⟩
  rw [padded, String.toList_ofList, List.length_append, List.length_replicate]
  omega

theorem scanNumber_writes {least most n : Nat} {cs rest : List Char} (h : Writes most cs n)
    (enough : least ≤ most) (small : n < 10 ^ 18) :
    scanNumber least most (cs ++ rest) = .ok (n, rest) := by
  have taken : ((cs ++ rest).take most).takeWhile Decimal.isDigit = cs := by
    rw [← h.length, List.take_left, List.takeWhile_eq_self_iff.mpr h.digits]
  have long : ¬ cs.length < least := by
    rw [h.length]
    omega
  have held : Word.holdsSigned 64 n := Word.holdsSigned_iff.mpr (by omega)
  simp only [scanNumber, taken, if_neg long, h.value, held, Bool.not_true, Bool.false_eq_true,
    if_false, List.drop_left]

theorem scanStrict_padded {low high n : Nat} {rest : List Char} (fits : n < 100)
    (least : low ≤ n) (most : n ≤ high) :
    scanStrict low high ((padded 2 n).toList ++ rest) = .ok (n, rest) := by
  rw [scanStrict, scanNumber_writes (padded_writes (by decide) fits) (Nat.le_refl 2) (by omega)]
  simp [within, least, most, bind, Except.bind, pure, Except.pure]

/-- The parts of an instant as they are written in UTC. -/
def parts (t : Instant) : Parts where
  day := t.day
  hour := t.secondOfDay / 3600
  minute := t.secondOfDay / 60 % 60
  second := t.secondOfDay % 60 + t.nanos / second
  nanos := t.nanos % second
  offset := 0

theorem secondOfDay_lt (t : Instant) : t.secondOfDay < 86400 := by
  rw [secondOfDay, Int.fmod_eq_emod_of_nonneg _ (by decide)]
  omega

theorem seconds_eq (t : Instant) : t.day.toDays * 86400 + t.secondOfDay = t.seconds := by
  rw [day, CalendarDay.toDays_ofDays, secondOfDay, Int.fdiv_eq_ediv_of_nonneg _ (by decide),
    Int.fmod_eq_emod_of_nonneg _ (by decide)]
  omega

/-- A leap second is second sixty, and no other second is. -/
theorem Proper.second_cases {t : Instant} (h : t.Proper) :
    t.nanos < second ∧ t.nanos / second = 0 ∨
      second ≤ t.nanos ∧ t.nanos / second = 1 ∧ t.secondOfDay % 60 = 59 := by
  have below := h.nanos
  have whole := t.seconds_eq
  by_cases leap : second ≤ t.nanos
  · have ends := h.leap leap
    refine .inr ⟨leap, ?_, by omega⟩
    unfold second at *
    omega
  · refine .inl ⟨Nat.lt_of_not_le leap, ?_⟩
    exact Nat.div_eq_of_lt (Nat.lt_of_not_le leap)

theorem ofParts_ok {p : Parts} {t : Instant} : ofParts p = .ok t ↔
    isYear p.day.year ∧ p.day.isValid ∧ p.offset.natAbs < 86400 ∧ t = p.instant ∧
      isYear t.day.year := by
  unfold ofParts
  split
  · rename_i bad
    refine iff_of_false nofun fun ⟨year, valid, small, _⟩ => ?_
    simp [year, valid, small] at bad
  · rename_i sound
    simp only [Bool.not_eq_true', Bool.not_eq_false, Bool.and_eq_true, decide_eq_true_eq] at sound
    obtain ⟨⟨year, valid⟩, small⟩ := sound
    split
    · rename_i utcYear
      refine ⟨fun same => ?_, fun ⟨_, _, _, same, _⟩ => congrArg Except.ok same.symm⟩
      cases same
      exact ⟨year, valid, small, rfl, utcYear⟩
    · rename_i far
      refine iff_of_false nofun fun ⟨_, _, _, same, utcYear⟩ => ?_
      exact far (same ▸ utcYear)

theorem isYear_of_plain {t : Instant} (plain : t.hasPlainYear) : isYear t.day.year := by
  simp only [hasPlainYear, Bool.and_eq_true, decide_eq_true_eq] at plain
  have low : firstYear ≤ t.day.year := Int.le_trans (by decide) plain.1
  have high : t.day.year ≤ lastYear := Int.le_trans plain.2 (by decide)
  simp [isYear, low, high]

theorem ofParts_parts {t : Instant} (proper : t.Proper) (year : isYear t.day.year) :
    ofParts t.parts = .ok t := by
  have valid : t.day.isValid := CalendarDay.ofDays_valid _
  have whole := t.seconds_eq
  have clock : t.secondOfDay / 3600 * 3600 + t.secondOfDay / 60 % 60 * 60 + t.secondOfDay % 60 =
      t.secondOfDay := by omega
  refine ofParts_ok.mpr ⟨year, valid, (by decide : (0 : Int).natAbs < 86400), ?_, year⟩
  rcases proper.second_cases with ⟨below, none⟩ | ⟨above, one, last⟩
  · have plainSecond : (t.secondOfDay % 60) / 60 = 0 := by omega
    have sameNanos : t.nanos % second = t.nanos := Nat.mod_eq_of_lt below
    simp [Parts.instant, parts, none, plainSecond, sameNanos, clock, whole]
  · have leapSecond : (t.secondOfDay % 60 + 1) / 60 = 1 := by omega
    have sameNanos : t.nanos % second + second = t.nanos := by
      have parted := Nat.mod_add_div t.nanos second
      rwa [one, Nat.mul_one] at parted
    simp [Parts.instant, parts, one, leapSecond, sameNanos, clock, whole]

/-- The written parts lie within the bounds that a reader asks for. -/
theorem Proper.parts_within {t : Instant} (h : t.Proper) :
    (1 ≤ t.day.month ∧ t.day.month ≤ 12) ∧ (1 ≤ t.day.day ∧ t.day.day ≤ 31) ∧
      t.parts.hour ≤ 23 ∧ t.parts.minute ≤ 59 ∧ t.parts.second ≤ 60 ∧ t.parts.nanos < 10 ^ 9 := by
  have valid : t.day.isValid := CalendarDay.ofDays_valid _
  have clock := t.secondOfDay_lt
  simp only [CalendarDay.isValid, Bool.and_eq_true, decide_eq_true_eq] at valid
  obtain ⟨⟨⟨month, month'⟩, day⟩, day'⟩ := valid
  have longest : CalendarDay.daysInMonth t.day.year t.day.month ≤ 31 := by
    unfold CalendarDay.daysInMonth
    split
    · split <;> decide
    · split <;> decide
  simp only [parts]
  refine ⟨⟨month, month'⟩, ⟨day, Nat.le_trans day' longest⟩, by omega, by omega, ?_,
    Nat.mod_lt _ (by decide)⟩
  rcases h.second_cases with ⟨_, _⟩ | ⟨_, _, _⟩ <;> omega

theorem yearText_plain {year : Int} (low : 0 ≤ year) (high : year ≤ 9999) :
    yearText year = padded 4 year.toNat := by
  simp [yearText, low, high]

/-- A fraction of nine digits, as a column has it. -/
theorem scanFraction_padded {n : Nat} (fits : n < 10 ^ 9) :
    scanFraction ('.' :: ((padded 9 n).toList ++ ['Z'])) = .ok (n, ['Z']) := by
  have writes := padded_writes (by decide) fits
  have unread : ['Z'].dropWhile Decimal.isDigit = ['Z'] := rfl
  simp [scanFraction, scanNumber_writes writes (Nat.le_add_left 1 8) (by omega), writes.length,
    unread, bind, Except.bind, pure, Except.pure]

theorem column_toList {t : Instant} (plain : t.hasPlainYear) :
    t.column.toList = (padded 4 t.day.year.toNat).toList ++ '-' :: ((padded 2 t.day.month).toList ++
      '-' :: ((padded 2 t.day.day).toList ++ 'T' :: ((padded 2 t.parts.hour).toList ++
        ':' :: ((padded 2 t.parts.minute).toList ++ ':' :: ((padded 2 t.parts.second).toList ++
          '.' :: ((padded 9 t.parts.nanos).toList ++ ['Z'])))))) := by
  simp only [hasPlainYear, Bool.and_eq_true, decide_eq_true_eq] at plain
  simp [column, dayText, clockText, parts, yearText_plain plain.1 plain.2]

theorem readStrict_column {t : Instant} (proper : t.Proper) (plain : t.hasPlainYear) :
    readStrict t.column = .ok t := by
  obtain ⟨month, day, hour, minute, sixty, nanos⟩ := proper.parts_within
  have year : (t.day.year.toNat : Int) = t.day.year ∧ t.day.year.toNat < 10 ^ 4 := by
    simp only [hasPlainYear, Bool.and_eq_true, decide_eq_true_eq] at plain
    omega
  have readYear rest : scanNumber 4 4 ((padded 4 t.day.year.toNat).toList ++ rest) = _ :=
    scanNumber_writes (padded_writes (by decide) year.2) (Nat.le_refl 4) (by omega)
  have readMonth rest : scanStrict 1 12 ((padded 2 t.day.month).toList ++ rest) = _ :=
    scanStrict_padded (by omega) month.1 month.2
  have readDay rest : scanStrict 1 31 ((padded 2 t.day.day).toList ++ rest) = _ :=
    scanStrict_padded (by omega) day.1 day.2
  have readHour rest : scanStrict 0 23 ((padded 2 t.parts.hour).toList ++ rest) = _ :=
    scanStrict_padded (by omega) (Nat.zero_le _) hour
  have readMinute rest : scanStrict 0 59 ((padded 2 t.parts.minute).toList ++ rest) = _ :=
    scanStrict_padded (by omega) (Nat.zero_le _) minute
  have readSecond rest : scanStrict 0 60 ((padded 2 t.parts.second).toList ++ rest) = _ :=
    scanStrict_padded (by omega) (Nat.zero_le _) sixty
  rw [readStrict, column_toList plain]
  simp [-Int.ofNat_toNat, bind, Except.bind, scanMark, scanDivider, scanOffset, readYear,
    readMonth, readDay, readHour, readMinute, readSecond, scanFraction_padded nanos, year.1]
  exact ofParts_parts proper (isYear_of_plain plain)

/-- An instant that a column gives back. -/
structure Plain (t : Instant) : Prop where
  proper : t.Proper
  year : t.hasPlainYear

theorem Plain.ofColumn {t : Instant} (h : t.Plain) : ofColumn? t.column = some t := by
  rw [ofColumn?, readStrict_column h.proper h.year]
  rfl

theorem ofColumnOrNull_column {t : Option Instant} (h : ∀ s, t = some s → s.Plain) :
    ofColumnOrNull? (t.map column) = some t := by
  cases t with
  | none => rfl
  | some s =>
      rw [Option.map_some, ofColumnOrNull?, (h s rfl).ofColumn]
      rfl

theorem yearText_far {year : Int} (far : ¬ (0 ≤ year ∧ year ≤ 9999)) :
    (yearText year).toList = (if year < 0 then '-' else '+') :: (padded 4 year.natAbs).toList := by
  rw [yearText, if_neg (by simpa using far)]
  split <;> simp

/-- A year of another number of digits is written with a sign, which cannot be read back. -/
theorem ofColumn_far {t : Instant} (far : ¬ t.hasPlainYear) : ofColumn? t.column = none := by
  have year : ¬ (0 ≤ t.day.year ∧ t.day.year ≤ 9999) := by simpa [hasPlainYear] using far
  have notDigit : ¬ Decimal.isDigit (if t.day.year < 0 then '-' else '+') := by
    split <;> decide
  have unread : ∃ fault, scanNumber 4 4 t.column.toList = .error fault := by
    simp [column, dayText, yearText_far year, scanNumber, notDigit]
  obtain ⟨fault, unread⟩ := unread
  simp [ofColumn?, readStrict, unread, bind, Except.bind, Except.toOption]

end Qualification.Instant
