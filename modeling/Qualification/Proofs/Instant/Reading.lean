import Qualification.Instant.Codec
import Qualification.Proofs.Instant.Column

/-! # Instants that texts give

Whatever text the lenient reader takes, the instant that it gives is a proper one: second
sixty becomes a leap second at the end of a minute, and an offset is a number of whole
minutes. Its year in UTC need not be the one in the text, and need not have four digits.
-/

namespace Qualification.Instant

open Document

theorem Writes.lt {width n : Nat} {cs : List Char} (h : Writes width cs n) : n < 10 ^ width := by
  rw [← h.value, ← h.length]
  exact Decimal.ofDigits_lt h.digits

/-- A number that is scanned is written by the digits that are left out of the rest. -/
theorem scanNumber_ok {least most n : Nat} {cs rest : List Char}
    (h : scanNumber least most cs = .ok (n, rest)) :
    ∃ ds, ds.length ≤ most ∧ Writes ds.length ds n ∧ cs = ds ++ rest := by
  simp only [scanNumber] at h
  split at h
  · cases h
  · split at h
    · cases h
    · cases h
      have front : (cs.take most).takeWhile Decimal.isDigit <+: cs.take most :=
        List.takeWhile_prefix _
      refine ⟨(cs.take most).takeWhile Decimal.isDigit, ?_, ⟨rfl, ?_, rfl⟩, ?_⟩
      · exact Nat.le_trans front.length_le (List.length_take_le ..)
      · exact fun c member => List.mem_takeWhile_imp member
      · exact (List.prefix_iff_eq_append.mp (front.trans (List.take_prefix most cs))).symm

theorem scanFraction_ok {n : Nat} {cs rest : List Char}
    (h : scanFraction cs = .ok (n, rest)) : n < second := by
  unfold scanFraction at h
  split at h
  · obtain ⟨⟨m, more⟩, scanned, h⟩ := bind_ok h
    obtain ⟨ds, short, writes, rfl⟩ := scanNumber_ok scanned
    cases h
    have used : (ds ++ more).length - more.length = ds.length := by simp
    rw [used]
    calc m * Nat.pow 10 (9 - ds.length)
        < 10 ^ ds.length * 10 ^ (9 - ds.length) :=
          Nat.mul_lt_mul_of_pos_right writes.lt (Nat.pow_pos (by decide))
      _ = second := by
          rw [← Nat.pow_add, Nat.add_sub_cancel' short]
          rfl
  · cases h
    decide

theorem scanLenient_ok {low high n : Nat} {cs rest : List Char}
    (h : scanLenient low high cs = .ok (n, rest)) : low ≤ n ∧ n ≤ high := by
  obtain ⟨⟨m, more⟩, _, h⟩ := bind_ok h
  obtain ⟨_, bounds, h⟩ := bind_ok h
  cases h
  unfold within at bounds
  split at bounds
  · rename_i inside
    simpa using inside
  · cases bounds

theorem scanOffset_minutes {divider : Scan Unit} {offset : Int} {cs rest : List Char}
    (h : scanOffset divider cs = .ok (offset, rest)) : offset % 60 = 0 := by
  unfold scanOffset at h
  split at h
  · cases h
    rfl
  · cases h
    rfl
  · obtain ⟨⟨negative, _⟩, _, h⟩ := bind_ok h
    obtain ⟨⟨⟨a, b⟩, _⟩, _, h⟩ := bind_ok h
    dsimp only at h
    split at h
    · cases h
    obtain ⟨_, _, h⟩ := bind_ok h
    obtain ⟨⟨⟨c, d⟩, _⟩, _, h⟩ := bind_ok h
    dsimp only at h
    split at h
    · cases h
    split at h
    · cases h
    cases h
    split <;> omega

theorem scanLenientOffset_minutes {offset : Int} {cs rest : List Char}
    (h : scanLenientOffset cs = .ok (offset, rest)) : offset % 60 = 0 := by
  unfold scanLenientOffset at h
  split at h
  · split at h
    · cases h
      rfl
    · exact scanOffset_minutes h
  · exact scanOffset_minutes h

theorem ofParts_proper {p : Parts} {t : Instant} (h : ofParts p = .ok t) (sixty : p.second ≤ 60)
    (nanos : p.nanos < second) (minutes : p.offset % 60 = 0) : t.Proper := by
  obtain ⟨_, _, _, rfl, _⟩ := ofParts_ok.mp h
  by_cases leap : p.second = 60
  · refine ⟨?_, fun _ => ?_⟩
    · simp only [Parts.instant, leap]
      omega
    · simp only [Parts.instant, leap]
      omega
  · have none : p.second / 60 = 0 := by omega
    refine .of_below ?_
    simpa [Parts.instant, none] using nanos

/-- A text gives a proper instant. -/
theorem read_proper {text : String} {t : Instant} (h : read text = .ok t) : t.Proper := by
  obtain ⟨⟨year, _⟩, _, h⟩ := bind_ok h
  obtain ⟨_, _, h⟩ := bind_ok h
  obtain ⟨⟨month, _⟩, _, h⟩ := bind_ok h
  obtain ⟨_, _, h⟩ := bind_ok h
  obtain ⟨⟨day, _⟩, _, h⟩ := bind_ok h
  obtain ⟨_, _, h⟩ := bind_ok h
  obtain ⟨⟨hour, _⟩, _, h⟩ := bind_ok h
  obtain ⟨_, _, h⟩ := bind_ok h
  obtain ⟨⟨minute, _⟩, _, h⟩ := bind_ok h
  obtain ⟨_, _, h⟩ := bind_ok h
  obtain ⟨⟨second, _⟩, readSecond, h⟩ := bind_ok h
  obtain ⟨⟨nanos, _⟩, readNanos, h⟩ := bind_ok h
  obtain ⟨⟨offset, _⟩, readOffset, h⟩ := bind_ok h
  dsimp only at h
  split at h
  · cases h
  exact ofParts_proper h (scanLenient_ok readSecond).2 (scanFraction_ok readNanos)
    (scanLenientOffset_minutes readOffset)

/-- A decoder that a tree does not suit gives nothing. -/
theorem mismatch_refused {α : Type} {place : Place} {node : Node} {expected : String} {a : α} :
    mismatch place node expected ≠ .ok a := by
  cases node with
  | written scalar =>
      rw [mismatch]
      split <;> nofun
  | _ => nofun

/-- A time that is handed in is read from some text. -/
theorem decode_ok {place : Place} {node : Node} {t : Instant} (h : decode place node = .ok t) :
    ∃ text, read text = .ok t := by
  unfold decode at h
  split at h
  case h_3 => exact absurd h mismatch_refused
  all_goals
    dsimp only at h
    split at h
    · rename_i scanned
      cases h
      exact ⟨_, scanned⟩
    · cases h

/-- A proper instant comes back from its column just if its year has four digits. -/
theorem Proper.ofColumn_column {t : Instant} (h : t.Proper) :
    ofColumn? t.column = if t.hasPlainYear then some t else none := by
  by_cases plain : t.hasPlainYear
  · rw [if_pos plain]
    exact Plain.ofColumn ⟨h, plain⟩
  · rw [if_neg plain]
    exact ofColumn_far plain

end Qualification.Instant
