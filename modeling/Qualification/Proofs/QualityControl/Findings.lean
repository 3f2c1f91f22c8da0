import Mathlib.Data.List.Chain
import Qualification.QualityControl.Assessment

/-! # Findings by category

What an assessment reports is told apart by category, each category from one kind of check.
Times are in order if none of them is earlier than one before it.
-/

namespace Qualification

variable {times : List Instant} {l : Ledger} {specs : List MeasurementSpec}
  {settings : QcSettings} {found : List QcFinding} {category : QcCategory}

theorem Instant.le_trans {s t u : Instant} (first : s.le t) (next : t.le u) : s.le u := by
  simp only [le, Bool.or_eq_true, Bool.and_eq_true, beq_iff_eq, decide_eq_true_eq] at *
  omega

/-- Is no time earlier than one before it? -/
def InOrder (times : List Instant) : Prop :=
  times.Pairwise fun s t => s.le t

/-- It is enough to look at neighbours. -/
theorem inOrder_cons_cons {s t : Instant} :
    InOrder (s :: t :: times) ↔ s.le t ∧ InOrder (t :: times) := by
  have transitive : Trans (fun s t : Instant => (s.le t : Prop)) (fun s t => s.le t)
      fun s t => s.le t := ⟨Instant.le_trans⟩
  simp only [InOrder, ← List.isChain_iff_pairwise, List.isChain_cons_cons]

namespace QcCheck

theorem firstBreak?_eq_none (index : Nat) :
    firstBreak? index times = none ↔ InOrder times := by
  induction times generalizing index with
  | nil => simp [firstBreak?, InOrder]
  | cons s rest ih =>
      cases rest with
      | nil => simp [firstBreak?, InOrder]
      | cons t rest =>
          rw [firstBreak?, inOrder_cons_cons, ← ih (index + 1)]
          cases later : s.le t <;> simp [Instant.lt, later]

theorem chronology_passed : (chronology times).passed ↔ InOrder times := by
  rw [← firstBreak?_eq_none 0, chronology]
  cases firstBreak? 0 times <;> simp

theorem repeatability_category (name : String) (values : List Float) (maxCv : Float) :
    (repeatability name values maxCv).category = .repeatability := by
  unfold repeatability
  split
  · rfl
  · split <;> rfl

theorem chronology_category (times : List Instant) :
    (chronology times).category = .chronology := by
  unfold chronology
  split <;> rfl

theorem band_category (parameter : String) (readings : List Float) (nominal low high : Float) :
    (band parameter readings nominal low high).category = .environment := by
  unfold band
  split <;> rfl

end QcCheck

namespace QcAssessment

/-- The findings of a category. -/
def ofCategory (category : QcCategory) (found : List QcFinding) : List QcFinding :=
  found.filter fun f => f.category = category

theorem ofCategory_append (found more : List QcFinding) : ofCategory category (found ++ more) =
    ofCategory category found ++ ofCategory category more :=
  List.filter_append ..

theorem ofCategory_of_all {other : QcCategory} (all : ∀ f ∈ found, f.category = other) :
    ofCategory category found = if other = category then found else [] := by
  split
  · rename_i same
    exact List.filter_eq_self.mpr fun f member => by simp [all f member, same]
  · rename_i different
    exact List.filter_eq_nil_iff.mpr fun f member => by simp [all f member, different]

theorem repeatability_category :
    ∀ f ∈ repeatability l specs settings, f.category = .repeatability := by
  intro f member
  obtain ⟨s, _, rfl⟩ := List.mem_map.mp member
  exact QcCheck.repeatability_category ..

theorem environment_category : ∀ f ∈ environment l settings, f.category = .environment := by
  intro f member
  cases List.mem_append.mp member with
  | inl light =>
      obtain ⟨t, _, rfl⟩ := Option.map_eq_some_iff.mp (Option.mem_toList.mp light)
      exact QcCheck.band_category ..
  | inr warmth =>
      obtain ⟨t, _, rfl⟩ := Option.map_eq_some_iff.mp (Option.mem_toList.mp warmth)
      exact QcCheck.band_category ..

theorem screening_category : ∀ f ∈ screening l settings, f.category = .outlier := by
  intro f member
  rw [screening] at member
  split at member
  · cases member
  · obtain ⟨parameter, _, rfl⟩ := List.mem_map.mp member
    rfl

/-- The findings of each category are those of its checks. -/
theorem ofCategory_findings : ofCategory category (findings l specs settings) =
    match category with
    | .completeness => [completeness l specs settings]
    | .repeatability => repeatability l specs settings
    | .chronology => [QcCheck.chronology l.timestamps]
    | .environment => environment l settings
    | .outlier => screening l settings := by
  have counted : ∀ f ∈ [completeness l specs settings], f.category = .completeness := by
    intro f member
    rw [List.mem_singleton.mp member]
    rfl
  have timed : ∀ f ∈ [QcCheck.chronology l.timestamps], f.category = .chronology := by
    intro f member
    rw [List.mem_singleton.mp member]
    exact QcCheck.chronology_category _
  have parts : findings l specs settings = [completeness l specs settings]
      ++ repeatability l specs settings ++ [QcCheck.chronology l.timestamps]
      ++ environment l settings ++ screening l settings := rfl
  simp only [parts, ofCategory_append, ofCategory_of_all counted,
    ofCategory_of_all repeatability_category, ofCategory_of_all timed,
    ofCategory_of_all environment_category, ofCategory_of_all screening_category]
  cases category <;> simp

end QcAssessment

end Qualification
