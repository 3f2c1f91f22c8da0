import Qualification.Degradation.Point
import Qualification.Proofs.Numeric.Quotient
import Qualification.Proofs.QualityControl.Findings
import Qualification.Proofs.Sorting
import Qualification.Proofs.Trust

/-! # The points of a series

Each reading of a parameter that counts makes one point, and points are arranged by their hours.
Hours by the clock run with the times of the entries, if none of them is a leap second. In which
order entries of different hours were recorded does not matter.
-/

namespace Qualification

variable {s t u start : Instant} {times : List Instant} {entries : List Measurement}
  {parameter : String}

namespace Instant

theorem le_total (s t : Instant) : s.le t ∨ t.le s := by
  simp only [le, Bool.or_eq_true, Bool.and_eq_true, beq_iff_eq, decide_eq_true_eq]
  omega

theorem le_antisymm (first : s.le t) (back : t.le s) : s = t := by
  simp only [le, Bool.or_eq_true, Bool.and_eq_true, beq_iff_eq, decide_eq_true_eq] at first back
  cases s
  cases t
  simp only [mk.injEq]
  dsimp only at first back
  omega

theorem since_of_plain (hs : s.isLeap = false) (ht : t.isLeap = false) :
    t.since s = (t.seconds - s.seconds) * 1000000000 + ((t.nanos : Int) - s.nanos) := by
  simp [since, hs, ht]

theorem nanos_lt (plain : t.isLeap = false) : t.nanos < 1000000000 :=
  Nat.lt_of_not_le (of_decide_eq_false plain)

/-- Without leap seconds the clock runs as times do. -/
theorem since_le (hs : s.isLeap = false) (ht : t.isLeap = false) (hu : u.isLeap = false)
    (later : t.le u) : t.since s ≤ u.since s := by
  have small := nanos_lt ht
  have small' := nanos_lt hu
  rw [since_of_plain hs ht, since_of_plain hs hu]
  simp only [le, Bool.or_eq_true, Bool.and_eq_true, beq_iff_eq, decide_eq_true_eq] at later
  omega

theorem since_self (t : Instant) : t.since t = 0 := by
  simp [since]

end Instant

namespace DegradationPoint

open Binary64

theorem divides_hour : Divides 3600000.0 ⟨false, 7730941132800000, -31⟩ where
  value := by decide +kernel
  nonneg := by decide +kernel
  notZero := by decide

theorem hoursBetween_eq {n : Nat} (elapsed : t.since start = n) :
    hoursBetween start t = Float.ofNat (n / 1000000) / 3600000.0 := by
  rw [hoursBetween, elapsed]
  rfl

theorem hoursBetween_self (t : Instant) : hoursBetween t t = 0.0 := by
  rw [hoursBetween, Instant.since_self]
  decide +kernel

theorem hoursBetween_mono (passed : 0 ≤ t.since start) (later : t.since start ≤ u.since start) :
    hoursBetween start t ≤ hoursBetween start u := by
  obtain ⟨m, hm⟩ := Int.eq_ofNat_of_zero_le passed
  obtain ⟨n, hn⟩ := Int.eq_ofNat_of_zero_le (Int.le_trans passed later)
  rw [hoursBetween_eq hm, hoursBetween_eq hn]
  exact divides_hour.ofNat_mono (Nat.div_le_div_right (by omega))

theorem earlier_spec (earlier : (if u.lt t then u else t) = s) :
    (s = t ∨ s = u) ∧ s.le t ∧ s.le u := by
  cases order : t.le u with
  | true =>
      have later : ¬ u.lt t := by simp [Instant.lt, order]
      rw [if_neg later] at earlier
      subst earlier
      exact ⟨.inl rfl, (Instant.le_total t t).elim id id, order⟩
  | false =>
      have before : u.lt t := by simp [Instant.lt, order]
      rw [if_pos before] at earlier
      subst earlier
      refine ⟨.inr rfl, (Instant.le_total u t).resolve_right ?_, (Instant.le_total u u).elim id id⟩
      rw [order]
      decide

theorem foldl_earliest (t : Instant) (times : List Instant) :
    times.foldl (fun first u => if u.lt first then u else first) t ∈ t :: times ∧
      ∀ u ∈ t :: times, (times.foldl (fun first u => if u.lt first then u else first) t).le u := by
  induction times generalizing t with
  | nil => exact ⟨List.mem_singleton_self t, by simp [Instant.le]⟩
  | cons u rest ih =>
      rw [List.foldl_cons]
      generalize earlier : (if u.lt t then u else t) = p
      obtain ⟨one, first, second⟩ := earlier_spec earlier
      obtain ⟨member, least⟩ := ih p
      have before := least p (List.mem_cons_self ..)
      generalize rest.foldl (fun first u => if u.lt first then u else first) p = q at *
      constructor
      · rcases List.mem_cons.mp member with rfl | member
        · rcases one with rfl | rfl <;> simp
        · exact List.mem_cons_of_mem _ (List.mem_cons_of_mem _ member)
      · intro v member
        rcases List.mem_cons.mp member with rfl | member
        · exact Instant.le_trans before first
        · rcases List.mem_cons.mp member with rfl | member
          · exact Instant.le_trans before second
          · exact least v (List.mem_cons_of_mem _ member)

theorem earliest?_eq_some : earliest? times = some start ↔
    start ∈ times ∧ ∀ t ∈ times, start.le t := by
  cases times with
  | nil => simp [earliest?]
  | cons t rest =>
      obtain ⟨member, least⟩ := foldl_earliest t rest
      rw [earliest?, Option.some_inj]
      constructor
      · rintro rfl
        exact ⟨member, least⟩
      · rintro ⟨member', least'⟩
        exact Instant.le_antisymm (least start member') (least' _ member)

theorem earliest?_perm {times' : List Instant} (h : times.Perm times') :
    earliest? times = earliest? times' := by
  cases first : earliest? times with
  | none =>
      cases times with
      | nil => rw [List.nil_perm.mp h, first]
      | cons => cases first
  | some start =>
      obtain ⟨member, least⟩ := earliest?_eq_some.mp first
      exact (earliest?_eq_some.mpr
        ⟨h.mem_iff.mp member, fun t member => least t (h.mem_iff.mpr member)⟩).symm

/-- The readings of a parameter that count, with their entries. -/
def counted (parameter : String) (entries : List Measurement) : List (Measurement × Float) :=
  entries.filterMap fun m =>
    match m.value with
    | .numeric x => if m.parameter = parameter ∧ m.flag ≠ .bad then some (m, x) else none
    | _ => none

theorem readingsOf_eq_counted (parameter : String) (entries : List Measurement) :
    readingsOf parameter entries = counted parameter entries := by
  rw [readingsOf, counted, List.filterMap_filter]
  refine congrArg (List.filterMap · entries) (funext fun m => ?_)
  have counts : (m.parameter == parameter && m.isUsable) = true ↔
      m.parameter = parameter ∧ m.flag ≠ .bad := by
    rw [Bool.and_eq_true, beq_iff_eq, Measurement.isUsable_iff]
  simp only [counts, Measurement.reading?]
  cases m.value with
  | numeric x => rfl
  | _ => split <;> rfl

/-- The hours that the instrument of an entry says. -/
def saidHours (m : Measurement) : Option Float :=
  (Dictionary.get? "elapsed_hours" m.metadata).bind Json.toFloat?

/-- Points in the order of their hours, which keeps the order of those of the same hours. -/
structure Arranges (made points : List DegradationPoint) : Prop where
  perm : points.Perm made
  sorted : points.Pairwise fun p q => Binary64.totalLe p.elapsedHours q.elapsedHours
  stable : ∀ h, points.filter (·.elapsedHours = h) = made.filter (·.elapsedHours = h)

/-- The hours of readings: as their instruments say, else by a clock that starts at the first of
    them. -/
structure Timed (readings : List (Measurement × Float)) (hours : Measurement → Float) : Prop where
  said : ∀ r ∈ readings, ∀ h, saidHours r.1 = some h → hours r.1 = h
  started : ∀ r ∈ readings, saidHours r.1 = none →
    (∀ q ∈ readings, r.1.timestamp.le q.1.timestamp) → hours r.1 = 0.0
  nonneg : (∀ r ∈ readings, r.1.timestamp.isLeap = false) →
    ∀ r ∈ readings, saidHours r.1 = none → 0.0 ≤ hours r.1
  run : (∀ r ∈ readings, r.1.timestamp.isLeap = false) →
    ∀ r ∈ readings, ∀ q ∈ readings, saidHours r.1 = none → saidHours q.1 = none →
      r.1.timestamp.le q.1.timestamp → hours r.1 ≤ hours q.1

/-- The series of a parameter in a ledger. -/
structure Charts (parameter : String) (entries : List Measurement)
    (points : List DegradationPoint) : Prop where
  /-- Each reading that counts makes one point. -/
  made : ∃ hours, Timed (counted parameter entries) hours ∧
    Arranges ((counted parameter entries).map fun r => ⟨hours r.1, r.2, r.1.type⟩) points
  /-- The order of recording tells only points of the same hours apart. -/
  permuted : (points.map (·.elapsedHours)).Nodup → ∀ others, others.Perm entries →
    series others parameter = points

theorem hours_trans (p q r : DegradationPoint) : totalLe p.elapsedHours q.elapsedHours →
    totalLe q.elapsedHours r.elapsedHours → totalLe p.elapsedHours r.elapsedHours :=
  totalLe_trans

theorem hours_total (p q : DegradationPoint) : totalLe p.elapsedHours q.elapsedHours ||
    totalLe q.elapsedHours p.elapsedHours :=
  totalLe_total _ _

theorem filter_mergeSort_hours (made : List DegradationPoint) (h : Float) :
    (made.mergeSort fun p q => totalLe p.elapsedHours q.elapsedHours).filter
      (·.elapsedHours = h) = made.filter (·.elapsedHours = h) := by
  rw [mergeSort_filter hours_trans hours_total]
  -- Points of the same hours are in order as they are.
  apply List.mergeSort_of_pairwise
  apply List.pairwise_of_forall_mem_list
  intro p first q second
  simp only [List.mem_filter, decide_eq_true_eq] at first second
  rw [first.2, second.2]
  exact totalLe_refl h

theorem mergeSort_arranges (made : List DegradationPoint) :
    Arranges made (made.mergeSort fun p q => totalLe p.elapsedHours q.elapsedHours) where
  perm := List.mergeSort_perm ..
  sorted := List.pairwise_mergeSort hours_trans hours_total made
  stable := filter_mergeSort_hours made

/-- Points of different hours can be in one order only. -/
theorem Arranges.eq_of_nodup {made others points arranged : List DegradationPoint}
    (h : Arranges made points) (h' : Arranges others arranged) (same : others.Perm made)
    (distinct : (points.map (·.elapsedHours)).Nodup) : arranged = points := by
  have perm := h'.perm.trans (same.trans h.perm.symm)
  refine List.Perm.eq_of_pairwise ?_ h'.sorted h.sorted perm
  intro p q first second before after
  exact List.inj_on_of_nodup_map distinct (perm.mem_iff.mp first) second
    (totalLe_antisymm before after)

theorem hoursOf_timed {readings : List (Measurement × Float)}
    (first : earliest? (readings.map (·.1.timestamp)) = some start) :
    Timed readings (hoursOf start) := by
  obtain ⟨member, least⟩ := earliest?_eq_some.mp first
  obtain ⟨origin, origin_member, rfl⟩ := List.mem_map.mp member
  have least : ∀ r ∈ readings, origin.1.timestamp.le r.1.timestamp := fun r recorded =>
    least _ (List.mem_map_of_mem recorded)
  have clocked {m : Measurement} (unsaid : saidHours m = none) :
      hoursOf origin.1.timestamp m = hoursBetween origin.1.timestamp m.timestamp := by
    rw [hoursOf, ← saidHours, unsaid, Option.getD_none]
  -- Without leap seconds no reading comes before the first.
  have passed (plain : ∀ r ∈ readings, r.1.timestamp.isLeap = false)
      {r : Measurement × Float} (recorded : r ∈ readings) :
      0 ≤ r.1.timestamp.since origin.1.timestamp := by
    have start := plain origin origin_member
    rw [← Instant.since_self origin.1.timestamp]
    exact Instant.since_le start start (plain r recorded) (least r recorded)
  constructor
  · intro r _ h said
    rw [hoursOf, ← saidHours, said, Option.getD_some]
  · intro r recorded unsaid earliest
    have same := Instant.le_antisymm (least r recorded) (earliest origin origin_member)
    rw [clocked unsaid, same]
    exact hoursBetween_self _
  · intro plain r recorded unsaid
    rw [clocked unsaid, ← hoursBetween_self origin.1.timestamp]
    refine hoursBetween_mono (Int.le_of_eq (Instant.since_self _).symm) ?_
    rw [Instant.since_self]
    exact passed plain recorded
  · intro plain r recorded q recorded' unsaid unsaid' later
    rw [clocked unsaid, clocked unsaid']
    exact hoursBetween_mono (passed plain recorded) (Instant.since_le (plain origin origin_member)
      (plain r recorded) (plain q recorded') later)

theorem series_cases (parameter : String) (entries : List Measurement) :
    counted parameter entries = [] ∧ series entries parameter = [] ∨
      ∃ start, earliest? ((counted parameter entries).map (·.1.timestamp)) = some start ∧
        Arranges ((counted parameter entries).map (ofReading start))
          (series entries parameter) := by
  rw [series, readingsOf_eq_counted]
  cases first : earliest? ((counted parameter entries).map (·.1.timestamp)) with
  | none =>
      left
      cases readings : counted parameter entries with
      | nil => exact ⟨rfl, rfl⟩
      | cons =>
          rw [readings] at first
          cases first
  | some start => exact .inr ⟨start, rfl, mergeSort_arranges _⟩

theorem series_charts (parameter : String) (entries : List Measurement) :
    Charts parameter entries (series entries parameter) := by
  constructor
  · rcases series_cases parameter entries with ⟨none, empty⟩ | ⟨start, first, arranges⟩
    · rw [none, empty]
      exact ⟨fun _ => 0.0, by constructor <;> simp, by constructor <;> simp⟩
    · exact ⟨hoursOf start, hoursOf_timed first, arranges⟩
  · intro distinct others same
    have readings : (counted parameter others).Perm (counted parameter entries) :=
      same.filterMap _
    have starts := earliest?_perm (readings.map (·.1.timestamp))
    rcases series_cases parameter entries with ⟨none, empty⟩ | ⟨start, first, arranges⟩
    · rcases series_cases parameter others with ⟨_, empty'⟩ | ⟨_, first', _⟩
      · exact empty'.trans empty.symm
      · rw [starts, none] at first'
        cases first'
    · rcases series_cases parameter others with ⟨none', _⟩ | ⟨start', first', arranges'⟩
      · rw [← starts, none'] at first
        cases first
      · rw [starts, first] at first'
        obtain rfl := Option.some.inj first'
        exact arranges.eq_of_nodup arranges' (readings.map _) distinct

end DegradationPoint

end Qualification
