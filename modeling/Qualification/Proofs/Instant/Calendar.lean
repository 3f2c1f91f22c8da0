import Qualification.Instant.Basic

/-! # Days of the calendar

The day at a number of days is a day of the calendar, and counts as that number again. Days
are in the order of their numbers.
-/

namespace Qualification.CalendarDay

/-- A day of an era by its century, its four years in the century, its year in these and
    its place in the year. The leap day ends the last of four years; but the last four
    years of a century have none, unless the era ends with them. -/
structure EraDay (n century four year place : Int) : Prop where
  sum : n = 36524 * century + 1461 * four + 365 * year + place
  centuries : 0 ≤ century ∧ century ≤ 3
  fours : 0 ≤ four ∧ four ≤ 24
  years : 0 ≤ year ∧ year ≤ 3
  places : 0 ≤ place ∧ place ≤ 365
  leap : place = 365 → year = 3 ∧ (four ≤ 23 ∨ century = 3)

theorem exists_eraDay {n : Int} (low : 0 ≤ n) (high : n < 146097) :
    ∃ century four year place, EraDay n century four year place := by
  have century : ∃ century rest : Int, n = 36524 * century + rest ∧ 0 ≤ century ∧ century ≤ 3 ∧
      0 ≤ rest ∧ (rest ≤ 36523 ∨ century = 3 ∧ rest = 36524) :=
    ⟨min (n / 36524) 3, n - 36524 * min (n / 36524) 3, by omega⟩
  obtain ⟨century, rest, day, _, _, _, _⟩ := century
  have four : ∃ four more : Int, rest = 1461 * four + more ∧ 0 ≤ four ∧ four ≤ 24 ∧
      0 ≤ more ∧ more ≤ 1460 ∧ (more = 1460 → four ≤ 23 ∨ century = 3) :=
    ⟨rest / 1461, rest - 1461 * (rest / 1461), by omega⟩
  obtain ⟨four, more, _, _, _, _, _, _⟩ := four
  have year : ∃ year place : Int, more = 365 * year + place ∧ 0 ≤ year ∧ year ≤ 3 ∧
      0 ≤ place ∧ place ≤ 365 ∧ (place = 365 → year = 3 ∧ more = 1460) :=
    ⟨min (more / 365) 3, more - 365 * min (more / 365) 3, by omega⟩
  obtain ⟨year, place, _, _, _, _, _, _⟩ := year
  exact ⟨century, four, year, place, by omega, by omega, by omega, by omega, by omega, by omega⟩

namespace EraDay

variable {n century four year place : Int}

theorem yearOfEra (h : EraDay n century four year place) :
    (n - n / 1460 + n / 36524 - n / 146096) / 365 = 100 * century + 4 * four + year := by
  obtain ⟨sum, ⟨_, _⟩, ⟨_, _⟩, ⟨_, _⟩, ⟨_, _⟩, leap⟩ := h
  have inCentury : ∃ day, day = 1461 * four + 365 * year + place ∧ 0 ≤ day ∧
      (day ≤ 36523 ∨ century = 3 ∧ day = 36524) := ⟨_, rfl, by omega, by omega⟩
  obtain ⟨day, isDay, _, within⟩ := inCentury
  have cycles : n / 36524 - n / 146096 = century := by
    rcases within with _ | ⟨rfl, rfl⟩
    · have first : n / 36524 = century := by omega
      have second : n / 146096 = 0 := by omega
      omega
    · have whole : n = 146096 := by omega
      subst whole
      rfl
  have inBlocks : ∃ more, more = 24 * century + four + 365 * year + place ∧ 0 ≤ more :=
    ⟨_, rfl, by omega⟩
  obtain ⟨more, isMore, _⟩ := inBlocks
  have blocks : n / 1460 = 25 * century + four + more / 1460 := by omega
  have atMost : more / 1460 ≤ 1 := by omega
  have oneOf : year = 3 ∨ year = 2 ∨ year = 1 ∨ year = 0 := by omega
  rcases oneOf with rfl | rfl | rfl | rfl <;> omega

theorem firstOfYear (h : EraDay n century four year place) :
    365 * (100 * century + 4 * four + year) + (100 * century + 4 * four + year) / 4 -
      (100 * century + 4 * four + year) / 100 = n - place := by
  obtain ⟨sum, ⟨_, _⟩, ⟨_, _⟩, ⟨_, _⟩, ⟨_, _⟩, _⟩ := h
  have fourth : (100 * century + 4 * four + year) / 4 = 25 * century + four := by omega
  have hundredth : (100 * century + 4 * four + year) / 100 = century := by omega
  omega

end EraDay

/-- The month of a place in a year that starts with March, counted from zero. -/
def shiftedMonth (place : Int) : Int :=
  (5 * place + 2) / 153

theorem ofDays_eq {n era century four year place : Int}
    (h : EraDay (n + 719468 - era * 146097) century four year place) :
    ofDays n =
      let month :=
        if shiftedMonth place < 10 then shiftedMonth place + 3 else shiftedMonth place - 9
      ⟨100 * century + 4 * four + year + era * 400 + (if month ≤ 2 then 1 else 0), month.toNat,
        (place - (153 * shiftedMonth place + 2) / 5 + 1).toNat⟩ := by
  have isEra : (n + 719468).fdiv 146097 = era := by
    obtain ⟨sum, ⟨_, _⟩, ⟨_, _⟩, ⟨_, _⟩, ⟨_, _⟩, leap⟩ := h
    rw [Int.fdiv_eq_ediv_of_nonneg _ (by decide)]
    omega
  simp only [ofDays, isEra, h.yearOfEra, h.firstOfYear, Int.sub_sub_self, shiftedMonth]
  rfl

theorem exists_era (n : Int) : ∃ era century four year place,
    EraDay (n + 719468 - era * 146097) century four year place :=
  ⟨(n + 719468) / 146097, exists_eraDay (by omega) (by omega)⟩

theorem toDays_ofDays (n : Int) : (ofDays n).toDays = n := by
  obtain ⟨era, century, four, year, place, h⟩ := exists_era n
  rw [ofDays_eq h]
  obtain ⟨sum, ⟨_, _⟩, ⟨_, _⟩, ⟨_, _⟩, ⟨_, _⟩, leap⟩ := h
  have months : 0 ≤ shiftedMonth place ∧ shiftedMonth place ≤ 11 ∧
      (153 * shiftedMonth place + 2) / 5 ≤ place := by
    unfold shiftedMonth
    omega
  generalize shiftedMonth place = month at months ⊢
  have isEra : (100 * century + 4 * four + year + era * 400).fdiv 400 = era := by
    rw [Int.fdiv_eq_ediv_of_nonneg _ (by decide)]
    omega
  have fourth : (100 * century + 4 * four + year) / 4 = 25 * century + four := by omega
  have hundredth : (100 * century + 4 * four + year) / 100 = century := by omega
  by_cases early : month < 10
  · have notEarly : ¬ (month + 3).toNat ≤ 2 := by omega
    have later : ¬ month + 3 ≤ 2 := by omega
    simp only [toDays, if_pos early, if_neg notEarly, if_neg later, Int.add_zero, isEra,
      Int.add_sub_cancel, fourth, hundredth]
    omega
  · have late : (month - 9).toNat ≤ 2 := by omega
    have later : month - 9 ≤ 2 := by omega
    simp only [toDays, if_neg early, if_pos late, if_pos later, Int.add_sub_cancel, isEra,
      fourth, hundredth]
    omega

/-- The leap day lies in a leap year. -/
theorem EraDay.isLeapYear {n era century four year : Int} (h : EraDay n century four year 365) :
    CalendarDay.isLeapYear (100 * century + 4 * four + year + era * 400 + 1) := by
  obtain ⟨rfl, late⟩ := h.leap rfl
  have ⟨_, _⟩ := h.fours
  have ⟨_, _⟩ := h.centuries
  simp only [CalendarDay.isLeapYear, Bool.and_eq_true, Bool.or_eq_true, beq_iff_eq, bne_iff_ne]
  omega

theorem ofDays_valid (n : Int) : (ofDays n).isValid := by
  obtain ⟨era, century, four, year, place, h⟩ := exists_era n
  rw [ofDays_eq h]
  have ⟨_, _⟩ := h.places
  have months : 0 ≤ shiftedMonth place ∧ shiftedMonth place ≤ 11 ∧
      153 * shiftedMonth place ≤ 5 * place + 2 ∧
        5 * place + 2 ≤ 153 * shiftedMonth place + 152 := by
    unfold shiftedMonth
    omega
  generalize shiftedMonth place = month at months ⊢
  by_cases february : month = 11
  · subst february
    by_cases leapDay : place = 365
    · subst leapDay
      simp [isValid, daysInMonth, h.isLeapYear]
    · simp [isValid, daysInMonth]
      split <;> omega
  · have others : month = 0 ∨ month = 1 ∨ month = 2 ∨ month = 3 ∨ month = 4 ∨ month = 5 ∨
        month = 6 ∨ month = 7 ∨ month = 8 ∨ month = 9 ∨ month = 10 := by omega
    rcases others with rfl | rfl | rfl | rfl | rfl | rfl | rfl | rfl | rfl | rfl | rfl <;>
      simp [isValid, daysInMonth] <;> omega

/-- The order of days by year, month and day. -/
def Earlier (d e : CalendarDay) : Prop :=
  d.year < e.year ∨ d.year = e.year ∧ (d.month < e.month ∨ d.month = e.month ∧ d.day < e.day)

/-- The days before the year that starts with March of a calendar year, counted from the
    first of them in year zero. -/
def beforeMarch (year : Int) : Int :=
  365 * year + year / 4 - year / 100 + year / 400

/-- The calendar year of the March before a day. -/
def marchYear (d : CalendarDay) : Int :=
  if d.month ≤ 2 then d.year - 1 else d.year

/-- The months from March to that of a day. -/
def sinceMarch (d : CalendarDay) : Int :=
  if d.month ≤ 2 then d.month + 9 else d.month - 3

theorem toDays_eq (d : CalendarDay) : d.toDays =
    beforeMarch d.marchYear + (153 * d.sinceMarch + 2) / 5 + d.day - 719469 := by
  have era : d.marchYear.fdiv 400 = d.marchYear / 400 := Int.fdiv_eq_ediv_of_nonneg _ (by decide)
  change d.marchYear.fdiv 400 * 146097 +
    ((d.marchYear - d.marchYear.fdiv 400 * 400) * 365 +
      (d.marchYear - d.marchYear.fdiv 400 * 400) / 4 -
        (d.marchYear - d.marchYear.fdiv 400 * 400) / 100 +
          ((153 * d.sinceMarch + 2) / 5 + d.day - 1)) - 719468 = _
  rw [era, beforeMarch]
  generalize d.marchYear = year
  generalize d.sinceMarch = month
  omega

theorem beforeMarch_next (year : Int) : beforeMarch (year + 1) =
    beforeMarch year + 365 + (if isLeapYear (year + 1) then 1 else 0) := by
  unfold beforeMarch
  split
  · rename_i leap
    simp only [isLeapYear, Bool.and_eq_true, Bool.or_eq_true, beq_iff_eq, bne_iff_ne] at leap
    omega
  · rename_i common
    simp only [isLeapYear, Bool.and_eq_true, Bool.or_eq_true, beq_iff_eq, bne_iff_ne] at common
    omega

theorem beforeMarch_mono {year later : Int} (h : year ≤ later) :
    beforeMarch year ≤ beforeMarch later := by
  unfold beforeMarch
  omega

/-- A day lies before the next month, or is one of the days of February. -/
theorem day_within {d : CalendarDay} (valid : d.isValid) :
    0 ≤ d.sinceMarch ∧ d.sinceMarch ≤ 11 ∧ 1 ≤ d.day ∧
      (d.sinceMarch ≤ 10 → (153 * d.sinceMarch + 2) / 5 + d.day ≤
        (153 * (d.sinceMarch + 1) + 2) / 5) ∧
      (d.sinceMarch = 11 → d.day ≤ 28 + if isLeapYear (d.marchYear + 1) then 1 else 0) := by
  obtain ⟨year, month, day⟩ := d
  simp only [isValid, Bool.and_eq_true, decide_eq_true_eq] at valid
  obtain ⟨⟨⟨low, high⟩, first⟩, last⟩ := valid
  have months : month = 1 ∨ month = 2 ∨ month = 3 ∨ month = 4 ∨ month = 5 ∨ month = 6 ∨
      month = 7 ∨ month = 8 ∨ month = 9 ∨ month = 10 ∨ month = 11 ∨ month = 12 := by omega
  rcases months with rfl | rfl | rfl | rfl | rfl | rfl | rfl | rfl | rfl | rfl | rfl | rfl
  case inr.inl =>
    have february : day ≤ 28 + if isLeapYear year then 1 else 0 := by
      rw [daysInMonth, if_pos rfl] at last
      split at last <;> simp_all
    simpa [sinceMarch, marchYear] using ⟨first, february⟩
  all_goals
    simp [daysInMonth] at last
    simp [sinceMarch]
    omega

/-- In its March year a day comes before the days of later months, and before the next
    year. -/
theorem toDays_lt {d e : CalendarDay} (validD : d.isValid) (validE : e.isValid)
    (earlier : d.Earlier e) : d.toDays < e.toDays := by
  obtain ⟨low, high, firstD, inMonth, inFebruary⟩ := day_within validD
  obtain ⟨low', high', firstE, _, _⟩ := day_within validE
  rw [toDays_eq, toDays_eq]
  have order : d.marchYear < e.marchYear ∨ d.marchYear = e.marchYear ∧
      (d.sinceMarch < e.sinceMarch ∨ d.sinceMarch = e.sinceMarch ∧ d.day < e.day) := by
    simp only [isValid, Bool.and_eq_true, decide_eq_true_eq] at validD validE
    simp only [Earlier] at earlier
    simp only [marchYear, sinceMarch]
    split <;> split <;> omega
  rcases order with year | ⟨year, month | ⟨month, day⟩⟩
  · have next := beforeMarch_next d.marchYear
    have later := beforeMarch_mono (show d.marchYear + 1 ≤ e.marchYear from year)
    have within : (153 * d.sinceMarch + 2) / 5 + d.day ≤
        365 + if isLeapYear (d.marchYear + 1) then 1 else 0 := by
      by_cases february : d.sinceMarch = 11
      · have days := inFebruary february
        rw [february]
        split at days <;> simp_all <;> omega
      · have days := inMonth (by omega)
        split <;> omega
    omega
  · rw [year]
    have february : d.sinceMarch ≤ 10 := by omega
    have within := inMonth february
    omega
  · rw [year, month]
    omega

theorem eq_iff {d e : CalendarDay} :
    d = e ↔ d.year = e.year ∧ d.month = e.month ∧ d.day = e.day := by
  cases d
  cases e
  simp

theorem earlier_trichotomy (d e : CalendarDay) : d.Earlier e ∨ e.Earlier d ∨ d = e := by
  obtain ⟨year, month, day⟩ := d
  obtain ⟨year', month', day'⟩ := e
  simp only [Earlier, CalendarDay.mk.injEq]
  omega

/-- Days of the calendar are in the order of their numbers. -/
theorem toDays_compare {d e : CalendarDay} (validD : d.isValid) (validE : e.isValid) :
    (d.toDays < e.toDays ↔ d.Earlier e) ∧ (d.toDays = e.toDays ↔ d = e) := by
  refine ⟨⟨fun less => ?_, toDays_lt validD validE⟩, fun same => ?_, congrArg toDays⟩
  · rcases earlier_trichotomy d e with earlier | later | rfl
    · exact earlier
    · exact absurd (toDays_lt validE validD later) (Int.lt_asymm less)
    · exact absurd less (Int.lt_irrefl _)
  · rcases earlier_trichotomy d e with earlier | later | equal
    · exact absurd same (Int.ne_of_lt (toDays_lt validD validE earlier))
    · exact absurd same.symm (Int.ne_of_lt (toDays_lt validE validD later))
    · exact equal

end Qualification.CalendarDay
