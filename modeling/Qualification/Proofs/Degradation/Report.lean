import Qualification.Degradation.Analysis
import Qualification.Proofs.Numeric.Largest
import Qualification.Proofs.Numeric.Scaling

/-! # What an analysis reports

A series is analysed if all its points are finite and it has a baseline, given or averaged over
its initial points. The report has a loss for each point. As long as the baseline is finite, and
it is unless the sum of the initial points overflows, all losses are numbers and the report names
the largest of them.
-/

namespace Qualification.Degradation

open Binary64 Statistics

variable {points : List DegradationPoint} {o : Options} {report : Report} {baseline pmax : Float}
  {source : BaselineSource} {losses : List PointLoss} {e : AnalysisError}

/-- The powers that a baseline is averaged over. -/
def initialPowers (points : List DegradationPoint) : List Float :=
  (points.filter fun p => p.type == .initial).map (·.pmax)

/-- Where a baseline comes from, given or averaged; it is never zero. -/
structure Based (points : List DegradationPoint) (o : Options) (baseline : Float)
    (source : BaselineSource) : Prop where
  origin : o.baseline = some baseline ∧ source = .provided ∨
    o.baseline = none ∧ source = .initial ∧ mean (initialPowers points) = some baseline
  notZero : ¬ baseline == 0.0
  /-- It is finite unless it is averaged over powers whose sum overflows. -/
  isFinite_iff : baseline.isFinite ↔
    o.baseline.isSome ∨ (Scalar.sum (initialPowers points)).isFinite

/-- Why a series has no analysis. -/
inductive Lacks (points : List DegradationPoint) (o : Options) : AnalysisError → Prop where
  | points {reason : String} : points = [] → Lacks points o (.insufficientData reason)
  | soundness {reason : String} {p : DegradationPoint} : p ∈ points → ¬ isFinitePoint p →
      Lacks points o (.insufficientData reason)
  | usable {reason : String} {b : Float} : o.baseline = some b → b == 0.0 ∨ ¬ b.isFinite →
      Lacks points o (.noBaseline reason)
  | initial {reason : String} : o.baseline = none → initialPowers points = [] →
      Lacks points o (.noBaseline reason)
  | average {reason : String} {b : Float} : o.baseline = none →
      mean (initialPowers points) = some b → b == 0.0 → Lacks points o (.noBaseline reason)

/-- A mean is finite if the sum is. -/
theorem isFinite_mean {xs : List Float} {m : Float} (h : mean xs = some m) :
    m.isFinite ↔ (Scalar.sum xs).isFinite := by
  rw [mean] at h
  split at h
  · cases h
  · rename_i notEmpty
    cases h
    have some : 0 < xs.length := List.length_pos_iff.mpr (by simpa using notEmpty)
    constructor
    · exact fun finite => by_contra fun overflow => not_isFinite_div overflow _ finite
    · exact fun finite => isFinite_div_ofNat finite some

theorem eq_nil_of_mean {xs : List Float} (h : mean xs = none) : xs = [] := by
  rw [mean] at h
  split at h
  · rename_i empty
    exact List.isEmpty_iff.mp empty
  · cases h

theorem baselineOf_ok (h : baselineOf points o.baseline = .ok (baseline, source)) :
    Based points o baseline source := by
  unfold baselineOf at h
  split at h
  · rename_i given
    split at h
    · cases h
    · rename_i usable
      cases h
      obtain ⟨notZero, finite⟩ : (baseline == 0.0) = false ∧ baseline.isFinite := by
        simpa using usable
      exact ⟨.inl ⟨given, rfl⟩, Bool.eq_false_iff.mp notZero,
        iff_of_true finite (.inl (by rw [given]; rfl))⟩
  · rename_i given
    split at h
    · cases h
    · rename_i b averaged
      split at h
      · cases h
      · rename_i notZero
        cases h
        refine ⟨.inr ⟨given, rfl, averaged⟩, notZero, ?_⟩
        rw [isFinite_mean averaged, given]
        exact (or_iff_right nofun).symm

theorem baselineOf_error (h : baselineOf points o.baseline = .error e) : Lacks points o e := by
  unfold baselineOf at h
  split at h
  · rename_i b given
    split at h
    · rename_i unusable
      cases h
      exact .usable given (by simpa using unusable)
    · cases h
  · rename_i given
    split at h
    · rename_i absent
      cases h
      exact .initial given (eq_nil_of_mean absent)
    · rename_i b averaged
      split at h
      · rename_i zero
        cases h
        exact .average given averaged zero
      · cases h

/-- The loss of a finite power against a finite baseline other than zero is a number. -/
theorem isNumber_lossPct (finite : baseline.isFinite) (notZero : ¬ baseline == 0.0)
    (power : pmax.isFinite) : IsNumber (lossPct baseline pmax) := by
  have hundred : (100.0 : Float).isFinite ∧ ¬ (100.0 : Float) == 0.0 := by decide +kernel
  have difference : IsNumber (baseline - pmax) := isNumber_sub finite power
  exact isNumber_div (isNumber_mul hundred.1 hundred.2 difference) finite notZero

theorem isFinitePoint_iff {p : DegradationPoint} :
    isFinitePoint p ↔ p.pmax.isFinite ∧ p.elapsedHours.isFinite := by
  rw [isFinitePoint, Bool.and_eq_true]

/-- The losses of a series against a baseline. -/
def lossesAgainst (baseline : Float) (points : List DegradationPoint) : List PointLoss :=
  points.map fun p => ⟨p, lossPct baseline p.pmax⟩

theorem mem_lossesAgainst {l : PointLoss} : l ∈ lossesAgainst baseline points ↔
    l.point ∈ points ∧ l.lossPct = lossPct baseline l.point.pmax := by
  rw [lossesAgainst, List.mem_map]
  constructor
  · rintro ⟨p, member, rfl⟩
    exact ⟨member, rfl⟩
  · rintro ⟨member, same⟩
    exact ⟨l.point, member, by rw [← same]⟩

/-- Against a finite baseline the largest loss is that of a point, and no point loses more. -/
theorem largest_loss (some : points ≠ []) (sound : ∀ p ∈ points, isFinitePoint p)
    (finite : baseline.isFinite) (notZero : ¬ baseline == 0.0) :
    (∀ l ∈ lossesAgainst baseline points, l.lossPct ≤
      ((lossesAgainst baseline points).map (·.lossPct)).foldl Binary64.max (-infinity)) ∧
    ∃ l ∈ lossesAgainst baseline points,
      ((lossesAgainst baseline points).map (·.lossPct)).foldl Binary64.max (-infinity) =
        l.lossPct := by
  have numbers : ∀ x ∈ (lossesAgainst baseline points).map (·.lossPct), IsNumber x := by
    intro x member
    obtain ⟨l, here, rfl⟩ := List.mem_map.mp member
    obtain ⟨isPoint, same⟩ := mem_lossesAgainst.mp here
    rw [same]
    exact isNumber_lossPct finite notZero (isFinitePoint_iff.mp (sound l.point isPoint)).1
  have losses : (lossesAgainst baseline points).map (·.lossPct) ≠ [] := by
    simpa [lossesAgainst] using some
  obtain ⟨member, above⟩ := foldl_max_of_numbers losses numbers
  obtain ⟨l, here, same⟩ := List.mem_map.mp member
  exact ⟨fun l here => above _ (List.mem_map_of_mem here), l, here, same.symm⟩

/-- The loss that a series ends with: that of its last point which is not initial, if any. -/
inductive EndsWith : List PointLoss → Float → Prop where
  | last {earlier later : List PointLoss} {l : PointLoss} : l.point.type ≠ .initial →
      (∀ k ∈ later, k.point.type = .initial) → EndsWith (earlier ++ l :: later) l.lossPct
  | none {losses : List PointLoss} : (∀ k ∈ losses, k.point.type = .initial) → EndsWith losses 0.0

theorem endsWith_getLast? (losses : List PointLoss) : EndsWith losses
    (((losses.filter fun l => l.point.type != .initial).getLast?.map (·.lossPct)).getD 0.0) := by
  -- The last such point is the first one from behind.
  rw [List.getLast?_filter]
  cases found : losses.reverse.find? fun l => l.point.type != .initial with
  | none => exact .none (by simpa using found)
  | some l =>
      obtain ⟨notInitial, later, earlier, cut, initial⟩ := List.find?_eq_some_iff_append.mp found
      have whole : losses = earlier.reverse ++ l :: later.reverse := by
        rw [← List.reverse_reverse losses, cut]
        simp
      rw [whole]
      exact .last (by simpa using notInitial) (by simpa using initial)

/-- What an analysis reports of a series. -/
structure Analysed (points : List DegradationPoint) (o : Options) (report : Report) : Prop where
  sound : points ≠ [] ∧ ∀ p ∈ points, isFinitePoint p
  based : Based points o report.baseline report.baselineSource
  listed : report.points.map (·.point) = points
  compared : ∀ l ∈ report.points, l.lossPct = lossPct report.baseline l.point.pmax
  largest : report.baseline.isFinite → (∀ l ∈ report.points, l.lossPct ≤ report.maxLossPct) ∧
    ∃ l ∈ report.points, report.maxLossPct = l.lossPct
  final : EndsWith report.points report.finalLossPct

/-- A series is analysed with a report of its losses, or something that it needs is lacking. -/
theorem analyze_analysed (points : List DegradationPoint) (o : Options) :
    (∃ report, analyze points o = .ok report ∧ Analysed points o report) ∨
      ∃ e, analyze points o = .error e ∧ Lacks points o e := by
  unfold analyze
  split
  · rename_i empty
    exact .inr ⟨_, rfl, .points (List.isEmpty_iff.mp empty)⟩
  · rename_i entries
    split
    · rename_i p found
      have unsound : ¬ isFinitePoint p := by simpa using List.find?_some found
      exact .inr ⟨_, rfl, .soundness (List.mem_of_find?_eq_some found) unsound⟩
    · rename_i finite
      split
      · rename_i e refused
        exact .inr ⟨e, rfl, baselineOf_error refused⟩
      · rename_i baseline source chosen
        have some : points ≠ [] := fun none => entries (List.isEmpty_iff.mpr none)
        have sound : ∀ p ∈ points, isFinitePoint p := by simpa using finite
        have based := baselineOf_ok chosen
        refine .inl ⟨_, rfl, ⟨some, sound⟩, based, ?_, ?_, ?_, endsWith_getLast? _⟩
        · exact (List.map_map ..).trans (List.map_id _)
        · exact fun l member => (mem_lossesAgainst.mp member).2
        · exact fun finite => largest_loss some sound finite based.notZero

/-- An illustration: a series that loses power and regains some of it. -/
def fading : List DegradationPoint :=
  [⟨0, 200, .initial⟩, ⟨24, 190, .duringExposure⟩, ⟨48, 180, .duringExposure⟩,
    ⟨50, 195, .postExposure⟩]

theorem fading_analysed : ∃ report, analyze fading (.ofBaseline none) = .ok report ∧
    report.baseline.isFinite ∧ Analysed fading (.ofBaseline none) report := by
  have sound : ∀ p ∈ fading, isFinitePoint p := by decide +kernel
  have finite : (Scalar.sum (initialPowers fading)).isFinite := by decide +kernel
  have average : ¬ (mean (initialPowers fading)).any (· == 0.0) := by decide +kernel
  rcases analyze_analysed fading (.ofBaseline none) with ⟨report, done, analysed⟩ | ⟨e, _, lacks⟩
  · exact ⟨report, done, analysed.based.isFinite_iff.mpr (.inr finite), analysed⟩
  · cases lacks with
    | points none => cases none
    | soundness member unsound => exact absurd (sound _ member) unsound
    | usable given => cases given
    | initial _ none => cases none
    | average _ averaged zero =>
        rw [averaged] at average
        exact absurd zero average

/-- An illustration: two initial powers that are too large to be added. -/
def blinding : List DegradationPoint :=
  [⟨0, 1e308, .initial⟩, ⟨1, 1e308, .initial⟩]

/-- Their baseline is infinite, and no loss is at most the largest one. -/
theorem blinding_overflows : ∃ report, analyze blinding (.ofBaseline none) = .ok report ∧
    ¬ report.baseline.isFinite ∧ ∀ l ∈ report.points, ¬ l.lossPct ≤ report.maxLossPct := by
  have told : (analyze blinding (.ofBaseline none)).toOption.any fun report =>
      !report.baseline.isFinite && report.points.all fun l => !(l.lossPct ≤ report.maxLossPct) := by
    decide +kernel
  cases result : analyze blinding (.ofBaseline none) with
  | error e =>
      rw [result] at told
      cases told
  | ok report =>
      rw [result] at told
      exact ⟨report, rfl, by simpa [Except.toOption] using told⟩

end Qualification.Degradation
