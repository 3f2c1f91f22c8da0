import Qualification.Degradation.Analysis
import Qualification.Proofs.Numeric.Largest
import Qualification.Proofs.Numeric.Rounding

/-! # The onset of a stable stretch

A series that is stable at its end is looked at backwards in windows of one size. The stable
stretch is said to begin behind the last window, but one, in which a value and its neighbour
are too far apart, and at the first point if there is none. All that the search reads lies in the
series. A greater threshold never gives a later onset.
-/

namespace Qualification.Degradation

open Binary64

variable {size start stop i j k e : Nat} {threshold : Float} {hours values : List Float}
  {o : StabilizationOptions}

/-- The change from a position of a series to the next one reaches a threshold. -/
def JumpsAt (threshold : Float) (values : List Float) (i : Nat) : Prop :=
  ∃ x y, values[i]? = some x ∧ values[i + 1]? = some y ∧ threshold ≤ (y - x).abs

theorem JumpsAt.mono {lower : Float} (less : lower ≤ threshold)
    (h : JumpsAt threshold values i) : JumpsAt lower values i := by
  obtain ⟨x, y, first, next, reached⟩ := h
  exact ⟨x, y, first, next, Binary64.le_trans less reached⟩

theorem jumpsAt_succ {x : Float} : JumpsAt threshold (x :: values) (i + 1) ↔
    JumpsAt threshold values i :=
  Iff.rfl

theorem exists_mem_steps :
    (∃ change ∈ steps values, threshold ≤ change) ↔ ∃ i, JumpsAt threshold values i := by
  induction values with
  | nil => simp [steps, JumpsAt]
  | cons x rest ih =>
      rw [← Nat.or_exists_add_one]
      simp only [jumpsAt_succ]
      rw [← ih]
      cases rest with
      | nil => simp [steps, JumpsAt]
      | cons y rest => simp [steps, JumpsAt]

theorem isNumber_maxStep (values : List Float) : IsNumber (maxStep values) :=
  isNumber_foldl_max isNumber_zero _

theorem zero_le_maxStep (values : List Float) : 0.0 ≤ maxStep values :=
  (le_foldl_max_iff isNumber_zero _).mpr (.inl (by decide +kernel))

/-- The largest change reaches a threshold above zero if some change does. -/
theorem le_maxStep_iff (positive : 0.0 < threshold) :
    threshold ≤ maxStep values ↔ ∃ i, JumpsAt threshold values i := by
  have above : ¬ threshold ≤ 0.0 := fun h => not_lt_of_le h positive
  rw [maxStep, le_foldl_max_iff isNumber_zero, or_iff_right above, exists_mem_steps]

theorem maxStep_lt_iff : maxStep values < threshold ↔
    0.0 < threshold ∧ ∀ i, ¬ JumpsAt threshold values i := by
  rw [← not_exists]
  constructor
  · intro less
    have positive := lt_of_le_of_lt (zero_le_maxStep values) less
    refine ⟨positive, fun jump => ?_⟩
    exact not_lt_of_le ((le_maxStep_iff positive).mpr jump) less
  · rintro ⟨positive, calm⟩
    have number := (isNumber_of_le (le_of_lt positive)).2
    rw [lt_iff_not_le (isNumber_maxStep values) number, le_maxStep_iff positive]
    exact calm

theorem jumpsAt_window : JumpsAt threshold ((values.take stop).drop start) i ↔
    start + i + 1 < stop ∧ JumpsAt threshold values (start + i) := by
  unfold JumpsAt
  simp only [List.getElem?_drop, List.getElem?_take]
  by_cases inside : start + i + 1 < stop
  · have first : start + i < stop := by omega
    have next : start + (i + 1) < stop := by omega
    simp only [Nat.add_assoc] at inside ⊢
    simp only [first, inside, if_true, true_and]
  · have outside : ¬ start + (i + 1) < stop := by omega
    simp [outside, inside]

theorem jumpsAt_drop : JumpsAt threshold (values.drop start) i ↔
    JumpsAt threshold values (start + i) := by
  simp only [JumpsAt, List.getElem?_drop, Nat.add_assoc]

/-- There is a jump in the window of a size that ends before a position; at the start of a
    series it is shorter. -/
def JumpsBefore (size : Nat) (threshold : Float) (values : List Float) (e : Nat) : Prop :=
  ∃ i, e - size ≤ i ∧ i + 1 < e ∧ JumpsAt threshold values i

theorem le_maxStep_window (positive : 0.0 < threshold) :
    threshold ≤ maxStep ((values.take stop).drop (stop - size)) ↔
      JumpsBefore size threshold values stop := by
  rw [le_maxStep_iff positive]
  simp only [jumpsAt_window]
  constructor
  · rintro ⟨i, inside, jump⟩
    exact ⟨stop - size + i, by omega, inside, jump⟩
  · rintro ⟨i, least, inside, jump⟩
    obtain ⟨i, rfl⟩ := Nat.exists_eq_add_of_le least
    exact ⟨i, inside, jump⟩

theorem JumpsBefore.positive (h : JumpsBefore size threshold values e) : 0 < e := by
  obtain ⟨i, _, inside, _⟩ := h
  omega

theorem onset_cases (positive : 0.0 < threshold) (stop : Nat) :
    onset size threshold values stop = 0 ∨
      (∃ k, onset size threshold values stop + k * size = stop) ∧
        JumpsBefore size threshold values (onset size threshold values stop) := by
  fun_induction onset size threshold values stop with
  | case1 => exact .inl rfl
  | case2 stop _ _ reached => exact .inr ⟨⟨0, by omega⟩, (le_maxStep_window positive).mp reached⟩
  | case3 stop _ start _ ih =>
      refine ih.imp_right ?_
      rintro ⟨⟨k, aligned⟩, jump⟩
      have behind := jump.positive
      refine ⟨⟨k + 1, ?_⟩, jump⟩
      rw [Nat.succ_mul]
      omega

theorem le_onset (positive : 0.0 < threshold) (sized : 0 < size)
    (jump : JumpsBefore size threshold values e) (stop : Nat) :
    ∀ k, e + k * size = stop → e ≤ onset size threshold values stop := by
  have behind := jump.positive
  fun_induction onset size threshold values stop with
  | case1 stop none =>
      intro k aligned
      omega
  | case2 stop _ _ reached =>
      intro k aligned
      omega
  | case3 stop some start calm ih =>
      intro k aligned
      cases k with
      | zero =>
          obtain rfl : e = stop := by omega
          exact absurd ((le_maxStep_window positive).mpr jump) calm
      | succ k =>
          rw [Nat.succ_mul] at aligned
          exact ih k (by omega)

/-- A place behind a window that holds a jump, in whole windows before the end. -/
structure Boundary (size : Nat) (threshold : Float) (values : List Float) (e : Nat) : Prop where
  positive : 0 < e
  aligned : ∃ k, 1 ≤ k ∧ e + k * size = values.length
  jump : JumpsBefore size threshold values e

/-- The last boundary, and the first point if there is none. -/
structure IsOnset (size : Nat) (threshold : Float) (values : List Float) (j : Nat) : Prop where
  boundary : j = 0 ∨ Boundary size threshold values j
  last : ∀ e, Boundary size threshold values e → e ≤ j

/-- No jump is within the last window, and it is whole. -/
structure Calm (size : Nat) (threshold : Float) (values : List Float) : Prop where
  enough : size ≤ values.length
  positive : 0.0 < threshold
  calm : ∀ i, values.length - size ≤ i → ¬ JumpsAt threshold values i

theorem Boundary.mono {lower : Float} (less : lower ≤ threshold)
    (h : Boundary size threshold values e) : Boundary size lower values e := by
  obtain ⟨i, least, inside, jump⟩ := h.jump
  exact ⟨h.positive, h.aligned, i, least, inside, jump.mono less⟩

theorem IsOnset.le_of_boundary {lower : Float} (hi : IsOnset size lower values i)
    (hj : IsOnset size threshold values j)
    (kept : Boundary size threshold values j → Boundary size lower values j) : j ≤ i := by
  rcases hj.boundary with rfl | boundary
  · exact Nat.zero_le _
  · exact hi.last j (kept boundary)

/-- A greater threshold has its onset no later. -/
theorem IsOnset.le_of_le {lower : Float} (less : lower ≤ threshold)
    (hi : IsOnset size lower values i) (hj : IsOnset size threshold values j) : j ≤ i :=
  hi.le_of_boundary hj (Boundary.mono less)

theorem Calm.mono {lower : Float} (less : lower ≤ threshold) (h : Calm size lower values) :
    Calm size threshold values where
  enough := h.enough
  positive := by
    refine (lt_iff_not_le isNumber_zero (isNumber_of_le less).2).mpr fun back => ?_
    exact not_lt_of_le (le_trans less back) h.positive
  calm := fun i last jump => h.calm i last (jump.mono less)

theorem calm_iff (enough : size ≤ values.length) :
    maxStep (values.drop (values.length - size)) < threshold ↔ Calm size threshold values := by
  rw [maxStep_lt_iff]
  constructor
  · rintro ⟨positive, calm⟩
    refine ⟨enough, positive, fun i last jump => ?_⟩
    obtain ⟨n, rfl⟩ := Nat.exists_eq_add_of_le last
    exact calm n (jumpsAt_drop.mpr jump)
  · intro h
    exact ⟨h.positive, fun i jump => h.calm _ (Nat.le_add_right _ _) (jumpsAt_drop.mp jump)⟩

theorem IsOnset.lt_length (sized : 0 < size) (h : Calm size threshold values)
    (hj : IsOnset size threshold values j) : j < values.length := by
  have enough := h.enough
  rcases hj.boundary with rfl | ⟨_, ⟨k, more, aligned⟩, _⟩
  · omega
  · have window : 1 * size ≤ k * size := Nat.mul_le_mul_right size more
    omega

/-- Where the walk back from the end of a calm series stops. -/
theorem onset_isOnset (sized : 0 < size) (h : Calm size threshold values) :
    IsOnset size threshold values (onset size threshold values values.length) := by
  have last : ¬ JumpsBefore size threshold values values.length := by
    rintro ⟨i, least, _, jump⟩
    exact h.calm i least jump
  constructor
  · refine (onset_cases h.positive values.length).imp_right ?_
    rintro ⟨⟨k, aligned⟩, jump⟩
    refine ⟨jump.positive, ⟨k, Nat.one_le_iff_ne_zero.mpr ?_, aligned⟩, jump⟩
    rintro rfl
    rw [Nat.zero_mul, Nat.add_zero] at aligned
    exact last (aligned ▸ jump)
  · rintro e ⟨_, ⟨k, _, aligned⟩, jump⟩
    exact le_onset h.positive sized jump values.length k aligned

theorem exists_hour_of_calm (sameLength : hours.length = values.length) (sized : 0 < size)
    (h : Calm size threshold values) :
    ∃ hour, hours[onset size threshold values values.length]? = some hour := by
  have inside := (onset_isOnset sized h).lt_length sized h
  exact ⟨_, List.getElem?_eq_getElem (Nat.lt_of_lt_of_eq inside sameLength.symm)⟩

/-- A stretch of a series, if it lies within. -/
def between? (values : List Float) (start stop : Nat) : Option (List Float) :=
  if start ≤ stop ∧ stop ≤ values.length then some ((values.take stop).drop start) else none

/-- The hour at the onset, if the walk back reads only what is there. -/
def onsetHour? (size : Nat) (threshold : Float) (hours values : List Float) (stop : Nat) :
    Option Float :=
  if _h : stop = 0 ∨ size = 0 then hours[0]?
  else do
    let window ← between? values (stop - size) stop
    if threshold ≤ maxStep window then hours[stop]?
    else onsetHour? size threshold hours values (stop - size)
termination_by stop
decreasing_by omega

/-- Whether and since when a series is stable, if that takes only what is there. -/
def stabilization? (hours values : List Float) (o : StabilizationOptions) :
    Option Stabilization :=
  let size := max o.window 2
  if values.length < size then some ⟨false, none, none⟩
  else do
    let last ← between? values (values.length - size) values.length
    if maxStep last < o.threshold then
      let hour ← onsetHour? size o.threshold hours values values.length
      some ⟨true, some (maxStep last), some hour⟩
    else some ⟨false, some (maxStep last), none⟩

theorem between?_eq (before : start ≤ stop) (inside : stop ≤ values.length) :
    between? values start stop = some ((values.take stop).drop start) :=
  if_pos ⟨before, inside⟩

theorem onsetHour?_eq (inside : stop ≤ values.length) :
    onsetHour? size threshold hours values stop =
      hours[onset size threshold values stop]? := by
  fun_induction onset size threshold values stop with
  | case1 stop none => rw [onsetHour?, dif_pos none]
  | case2 stop some start reached =>
      rw [onsetHour?, dif_neg some, between?_eq (Nat.sub_le _ _) inside]
      exact if_pos reached
  | case3 stop some start calm ih =>
      rw [onsetHour?, dif_neg some, between?_eq (Nat.sub_le _ _) inside]
      exact (if_neg calm).trans (ih (Nat.le_trans (Nat.sub_le _ _) inside))

/-- What is said of a series, from which a stable one has its onset. -/
theorem stabilization_cases (hours values : List Float) (o : StabilizationOptions) :
    ¬ Calm (max o.window 2) o.threshold values ∧
      (stabilization hours values o).isStabilized = false ∧
      (stabilization hours values o).onsetHours = none ∨
    Calm (max o.window 2) o.threshold values ∧
      (stabilization hours values o).isStabilized = true ∧
      (stabilization hours values o).onsetHours =
        hours[onset (max o.window 2) o.threshold values values.length]? := by
  unfold stabilization
  dsimp only
  split
  · rename_i short
    exact .inl ⟨fun h => Nat.not_lt_of_le h.enough short, rfl, rfl⟩
  · rename_i enough
    have calm : maxStep (values.drop (values.length - max o.window 2)) < o.threshold ↔
        Calm (max o.window 2) o.threshold values := calm_iff (Nat.not_lt.mp enough)
    by_cases stable : maxStep (values.drop (values.length - max o.window 2)) < o.threshold
    · refine .inr ⟨calm.mp stable, decide_eq_true stable, ?_⟩
      exact if_pos (decide_eq_true stable)
    · refine .inl ⟨fun h => stable (calm.mpr h), decide_eq_false stable, ?_⟩
      exact if_neg fun h => stable (of_decide_eq_true h)

theorem windows_sized (o : StabilizationOptions) : 0 < max o.window 2 :=
  Nat.lt_of_lt_of_le (by decide) (Nat.le_max_right _ _)

theorem isStabilized_iff : (stabilization hours values o).isStabilized ↔
    Calm (max o.window 2) o.threshold values := by
  rcases stabilization_cases hours values o with ⟨unrest, told, _⟩ | ⟨calm, told, _⟩
  · rw [told]
    exact iff_of_false nofun unrest
  · exact iff_of_true told calm

theorem stabilization?_eq (sameLength : hours.length = values.length) :
    stabilization? hours values o = some (stabilization hours values o) := by
  unfold stabilization? stabilization
  dsimp only
  split
  · rfl
  · rename_i enough
    have window : values.take values.length = values := List.take_length
    have told := between?_eq (Nat.sub_le values.length (max o.window 2)) (Nat.le_refl _)
    rw [window] at told
    rw [told, Option.bind_eq_bind, Option.bind_some, onsetHour?_eq (Nat.le_refl _)]
    by_cases stable : maxStep (values.drop (values.length - max o.window 2)) < o.threshold
    · have calm := (calm_iff (Nat.not_lt.mp enough)).mp stable
      obtain ⟨hour, there⟩ := exists_hour_of_calm sameLength (windows_sized o) calm
      simp only [stable, decide_true, if_true, there]
      rfl
    · simp only [stable, decide_false, if_false, Bool.false_eq_true]

/-- What is said of a series with as many hours as values. -/
structure Settled (hours values : List Float) (o : StabilizationOptions) : Prop where
  /-- Nothing is read beyond the end. -/
  within : stabilization? hours values o = some (stabilization hours values o)
  stable : (stabilization hours values o).isStabilized ↔ Calm (max o.window 2) o.threshold values
  reported : (stabilization hours values o).onsetHours.isSome ↔
    (stabilization hours values o).isStabilized
  onset : (stabilization hours values o).isStabilized →
    ∃ j, IsOnset (max o.window 2) o.threshold values j ∧
      (stabilization hours values o).onsetHours = hours[j]?
  /-- A greater threshold leaves the series stable, since no later a point. -/
  raised : (stabilization hours values o).isStabilized → ∀ threshold, o.threshold ≤ threshold →
    (stabilization hours values ⟨o.window, threshold⟩).isStabilized ∧
      ∀ i j, IsOnset (max o.window 2) o.threshold values i →
        IsOnset (max o.window 2) threshold values j → j ≤ i

/-- Whether a series is stable is told by its last window, since when by its last boundary. -/
theorem stabilization_settled (sameLength : hours.length = values.length) :
    Settled hours values o where
  within := stabilization?_eq sameLength
  stable := isStabilized_iff
  reported := by
    rcases stabilization_cases hours values o with ⟨_, told, none⟩ | ⟨calm, told, some⟩
    · rw [told, none]
      exact iff_of_false nofun nofun
    · obtain ⟨hour, there⟩ := exists_hour_of_calm sameLength (windows_sized o) calm
      rw [told, some, there]
      exact iff_of_true rfl rfl
  onset := by
    rcases stabilization_cases hours values o with ⟨_, told, _⟩ | ⟨calm, _, some⟩
    · rw [told]
      nofun
    · exact fun _ => ⟨_, onset_isOnset (windows_sized o) calm, some⟩
  raised := fun stable threshold less =>
    ⟨isStabilized_iff.mpr ((isStabilized_iff.mp stable).mono less),
      fun _ _ hi hj => hi.le_of_le less hj⟩

/-- Six hours, one after the other. -/
def sixHours : List Float :=
  [0.0, 1.0, 2.0, 3.0, 4.0, 5.0]

/-- A series with its jump inside of the first window of three. -/
def jumpInside : List Float :=
  [0.0, 0.0, 5.0, 5.1, 5.2, 5.25]

theorem settled_jumpInside : sixHours.length = jumpInside.length ∧
    Settled sixHours jumpInside ⟨3, 0.5⟩ ∧
      (stabilization sixHours jumpInside ⟨3, 0.5⟩).onsetHours = some 3.0 :=
  ⟨by decide, stabilization_settled (by decide), by decide +kernel⟩

/-- Since the onset no change within a window reaches the threshold. -/
theorem IsOnset.calm_inside (sized : 0 < size) (h : Calm size threshold values)
    (hj : IsOnset size threshold values j) (since : j ≤ i)
    (inside : ¬ size ∣ values.length - (i + 1)) : ¬ JumpsAt threshold values i := by
  intro jump
  obtain ⟨x, y, first, next, reached⟩ := id jump
  have within := (List.getElem?_eq_some_iff.mp next).1
  -- The window of the change ends before the last full windows.
  have parts := Nat.div_add_mod (values.length - (i + 1)) size
  have more := Nat.mod_lt (values.length - (i + 1)) sized
  rw [Nat.dvd_iff_mod_eq_zero] at inside
  rw [Nat.mul_comm] at parts
  generalize (values.length - (i + 1)) / size = k at parts
  generalize (values.length - (i + 1)) % size = rest at parts more inside
  have before : JumpsBefore size threshold values (i + 1 + rest) :=
    ⟨i, by omega, by omega, jump⟩
  cases k with
  | zero => exact h.calm i (by omega) jump
  | succ k =>
      have late := hj.last _ ⟨before.positive, ⟨k + 1, by omega, by omega⟩, before⟩
      omega

theorem lt_of_calm {x y : Float} (h : Calm size threshold values) (hx : x.isFinite)
    (hy : y.isFinite) (first : values[i]? = some x) (next : values[i + 1]? = some y)
    (calm : ¬ JumpsAt threshold values i) : (y - x).abs < threshold := by
  have change := isNumber_sub hy hx
  have number : IsNumber (y - x).abs := by
    rw [IsNumber, (abs_spec change).2]
    exact change
  rw [lt_iff_not_le number (isNumber_of_le (le_of_lt h.positive)).2]
  exact fun reached => calm ⟨x, y, first, next, reached⟩

theorem nodup_of_ascending (ascending : hours.Pairwise (· < ·)) : hours.Nodup := by
  refine ascending.imp ?_
  rintro x _ less rfl
  exact not_lt_of_le (le_of_lt less) less

/-- What holds of the changes since a point. -/
structure Quiet (values : List Float) (o : StabilizationOptions) (j : Nat) : Prop where
  start : j = 0 ∨ Boundary (max o.window 2) o.threshold values j
  /-- A change from one window to the next is not looked at. -/
  below : ∀ i x y, j ≤ i → values[i]? = some x → values[i + 1]? = some y →
    ¬ max o.window 2 ∣ values.length - (i + 1) → (y - x).abs < o.threshold

/-- Since a reported onset all changes are below the threshold, but for those from one window
    to the next. -/
theorem quiet_since_onset {hour : Float} (sameLength : hours.length = values.length)
    (ascending : hours.Pairwise (· < ·)) (finite : ∀ x ∈ values, x.isFinite)
    (reported : (stabilization hours values o).onsetHours = some hour)
    (there : hours[j]? = some hour) : Quiet values o j := by
  rcases stabilization_cases hours values o with ⟨_, _, none⟩ | ⟨calm, _, told⟩
  · rw [none] at reported
    cases reported
  · have onset := onset_isOnset (windows_sized o) calm
    have inside := Nat.lt_of_lt_of_eq (onset.lt_length (windows_sized o) calm) sameLength.symm
    have same := (List.getElem?_inj inside (nodup_of_ascending ascending)).mp
      (told.symm.trans (reported.trans there.symm))
    rw [same] at onset
    refine ⟨onset.boundary, ?_⟩
    intro i x y since first next within
    have hx := finite x (List.mem_of_getElem? first)
    have hy := finite y (List.mem_of_getElem? next)
    exact lt_of_calm calm hx hy first next
      (onset.calm_inside (windows_sized o) calm since within)

theorem quiet_jumpInside : sixHours.length = jumpInside.length ∧
    sixHours.Pairwise (· < ·) ∧ (∀ x ∈ jumpInside, x.isFinite) ∧
      (stabilization sixHours jumpInside ⟨3, 0.5⟩).onsetHours = some 3.0 ∧
        sixHours[3]? = some 3.0 ∧ Quiet jumpInside ⟨3, 0.5⟩ 3 := by
  have sameLength : sixHours.length = jumpInside.length := by decide
  have ascending : sixHours.Pairwise (· < ·) := by decide +kernel
  have finite : ∀ x ∈ jumpInside, x.isFinite := by decide +kernel
  have reported : (stabilization sixHours jumpInside ⟨3, 0.5⟩).onsetHours = some 3.0 := by
    decide +kernel
  exact ⟨sameLength, ascending, finite, reported, rfl,
    quiet_since_onset sameLength ascending finite reported rfl⟩

/-- A series with its jump from the first window of three to the last. -/
def jumpBetween : List Float :=
  [0.0, 0.0, 0.0, 5.0, 5.0, 5.0]

/-- The onset of a series can lie before a change that reaches the threshold. -/
theorem onset_before_jump : sixHours.length = jumpBetween.length ∧
    sixHours.Pairwise (· < ·) ∧ (∀ x ∈ jumpBetween, x.isFinite) ∧
      (stabilization sixHours jumpBetween ⟨3, 0.5⟩).onsetHours = some 0.0 ∧
        sixHours[0]? = some 0.0 ∧ jumpBetween[2]? = some 0.0 ∧ jumpBetween[3]? = some 5.0 ∧
          ¬ (5.0 - 0.0 : Float).abs < 0.5 := by
  decide +kernel

end Qualification.Degradation
