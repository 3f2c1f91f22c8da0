import Qualification.Proofs.QualityControl.Findings
import Qualification.Proofs.Statistics.Sorted
import Qualification.Proofs.Store.Row

/-! # Findings in columns

The details of a finding are objects of numbers, and of lists of numbers at most, so that
their columns give them back, and so does the document of a finding, as long as what was
counted fits a word.
-/

namespace Qualification

open Document Json

namespace Statistics

theorem lt_of_mem_flagged {α : Type} {test : Option (α → Bool)} {xs : List α} {i : Nat}
    (h : i ∈ flagged test xs) : i < xs.length := by
  obtain ⟨_, _, x, found, _⟩ := mem_flagged.mp h
  exact (List.getElem?_eq_some_iff.mp found).1

theorem lt_of_mem_detectOutliers {xs : List Float} {method : OutlierMethod Float} {i : Nat}
    (h : i ∈ detectOutliers xs method) : i < xs.length := by
  cases method <;> exact lt_of_mem_flagged h

end Statistics

namespace QcFinding

variable {f : QcFinding} {depth : Nat}

/-- A finding whose details have at most so many levels. -/
structure Shallow (depth : Nat) (f : QcFinding) : Prop where
  expected : f.expected.Storable depth
  actual : f.actual.Storable depth

theorem Shallow.mono {less : Nat} (h : f.Shallow less) (enough : less ≤ depth) :
    f.Shallow depth :=
  ⟨h.expected.mono enough, h.actual.mono enough⟩

theorem Shallow.storable (h : f.Shallow depth) (enough : depth ≤ levels) : f.Storable :=
  ⟨h.expected.mono enough, h.actual.mono enough⟩

/-- A finding is read back from its document, however documents are arranged. -/
theorem carries {g : Json → Json} (hg : Arranges g) (h : f.Shallow depth) :
    Carries (depth + 1) decode (g f.toJson) f :=
  Record.Fills.map QcFinding.mk (.field (.text f.name))
    |>.seq (.field (.word f.category.find_text))
    |>.seq (.field (.bool f.passed))
    |>.seq (.field (.word f.severity.find_text))
    |>.seq (.written h.expected.writable h.expected.gives)
    |>.seq (.written h.actual.writable h.actual.gives)
    |>.seq (.field (.text f.message))
    |>.arranged hg (by decide)
      (by simp [hg.text, hg.bool, hg.storable h.expected, hg.storable h.actual, Severity.toJson])
      "QcCheckResult"

end QcFinding

namespace QcCheck

theorem completeness_shallow {actual expected : Nat} (recorded : actual < Word.count 64)
    (planned : expected < Word.count 64) (minRate : Float) :
    (completeness actual expected minRate).Shallow 2 where
  expected := storable_fields ["count", "min_rate"] (by decide) rfl
    (by simp [storable_ofNat planned, storable_ofFloat])
  actual := storable_fields ["count", "rate"] (by decide) rfl
    (by simp [storable_ofNat recorded, storable_ofFloat])

theorem repeatability_shallow {values : List Float} (counted : values.length < Word.count 64)
    (name : String) (maxCv : Float) : (repeatability name values maxCv).Shallow 2 := by
  have zero : (0.0 : Float).isFinite := by decide +kernel
  have expected : Storable 2 (.object [("max_cv", .ofFloat maxCv)]) :=
    storable_fields ["max_cv"] (by decide) rfl (by simp [storable_ofFloat])
  unfold repeatability
  split
  · exact ⟨expected,
      storable_fields ["count"] (by decide) rfl (by simp [storable_ofNat counted])⟩
  · split
    · exact ⟨expected, storable_fields ["count", "mean"] (by decide) rfl
        (by simp [storable_ofNat counted, Storable.float zero])⟩
    · exact ⟨expected, storable_fields ["count", "cv", "mean", "stdev"] (by decide) rfl
        (by simp [storable_ofNat counted, storable_ofFloat, storable_ofFloat?])⟩

theorem firstBreak?_lt {times : List Instant} {start index : Nat} {s t : Instant}
    (h : firstBreak? start times = some (index, s, t)) : index < start + times.length := by
  induction times generalizing start with
  | nil => cases h
  | cons u rest ih =>
      cases rest with
      | nil => cases h
      | cons v rest =>
          rw [firstBreak?] at h
          split at h
          · cases h
            simp
          · have later := ih h
            simp only [List.length_cons] at later ⊢
            omega

theorem chronology_shallow {times : List Instant} (counted : times.length < Word.count 64) :
    (chronology times).Shallow 2 := by
  unfold chronology
  dsimp only
  split
  · exact ⟨.text _,
      storable_fields ["count"] (by decide) rfl (by simp [storable_ofNat counted])⟩
  · rename_i index before after found
    have bound := firstBreak?_lt found
    have position : index < Word.count 64 := by omega
    exact ⟨.text _,
      storable_fields ["index"] (by decide) rfl (by simp [storable_ofNat position])⟩

theorem band_shallow {readings : List Float} (counted : readings.length < Word.count 64)
    (parameter : String) (nominal low high : Float) :
    (band parameter readings nominal low high).Shallow 2 := by
  have expected : Storable 2
      (.object [("max", .ofFloat high), ("min", .ofFloat low), ("nominal", .ofFloat nominal)]) :=
    storable_fields ["max", "min", "nominal"] (by decide) rfl (by simp [storable_ofFloat])
  unfold band
  dsimp only
  split
  · have none : 0 < Word.count 64 := by decide
    exact ⟨expected, storable_fields ["count"] (by decide) rfl (by simp [storable_ofNat none])⟩
  · have violations := Nat.lt_of_le_of_lt (List.length_filter_le
      (fun x => decide (x < low) || decide (high < x)) readings) counted
    exact ⟨expected, storable_fields ["count", "violations", "worst"] (by decide) rfl
      (by simp [storable_ofNat counted, storable_ofNat violations, storable_ofFloat])⟩

theorem outliers_shallow {values : List Float} (counted : values.length < Word.count 64)
    (parameter : String) (method : Statistics.OutlierMethod Float) :
    (outliers parameter values method).Shallow 2 where
  expected := storable_fields ["k", "method"] (by decide) rfl
    (by simp [storable_ofFloat, Storable.text])
  actual := by
    have indices : Storable 1
        (.ofList .ofNat (Statistics.detectOutliers values method)) :=
      storable_ofList fun i member =>
        storable_ofNat (Nat.lt_trans (Statistics.lt_of_mem_detectOutliers member) counted)
    have readings : Storable 1 (.ofList .ofFloat
        ((Statistics.detectOutliers values method).filterMap fun i => values[i]?)) :=
      storable_ofList fun x _ => storable_ofFloat x
    exact storable_fields ["count", "indices", "values"] (by decide) rfl
      (List.forall_mem_cons.mpr ⟨storable_ofNat counted, List.forall_mem_cons.mpr
        ⟨indices, List.forall_mem_singleton.mpr readings⟩⟩)

end QcCheck

namespace QcAssessment

variable {l : Ledger} {specs : List MeasurementSpec}

theorem readings_length_le (l : Ledger) (parameter : String) :
    (l.readings parameter).length ≤ l.entries.length :=
  Nat.le_trans (List.length_filterMap_le ..) (List.length_filter_le ..)

theorem replicates_length_le (l : Ledger) (s : MeasurementSpec) :
    (replicates l s).length ≤ l.entries.length :=
  Nat.le_trans (List.length_filterMap_le ..)
    (Nat.le_trans (List.length_filter_le ..) (List.length_filter_le ..))

theorem actualCount_le (l : Ledger) (specs : List MeasurementSpec) :
    actualCount l specs ≤ expectedCount specs := by
  induction specs with
  | nil => exact Nat.le_refl 0
  | cons s rest ih => exact Nat.add_le_add (Nat.min_le_right ..) ih

/-- The details of a finding are numbers and texts, and lists of these. -/
theorem findings_shallow (counted : l.entries.length < Word.count 64)
    (planned : expectedCount specs < Word.count 64) (settings : QcSettings) :
    ∀ f ∈ findings l specs settings, f.Shallow 2 := by
  have recorded := Nat.lt_of_le_of_lt (actualCount_le l specs) planned
  have readings (parameter : String) : (l.readings parameter).length < Word.count 64 :=
    Nat.lt_of_le_of_lt (readings_length_le l parameter) counted
  have times : l.timestamps.length < Word.count 64 := by
    rw [Ledger.timestamps, List.length_map]
    exact counted
  intro f member
  simp only [findings, repeatability, environment, screening, List.cons_append, List.mem_cons,
    List.mem_append, List.mem_map, Option.mem_toList, Option.map_eq_some_iff, List.not_mem_nil,
    or_false] at member
  rcases member with rfl | (((⟨s, _, rfl⟩ | rfl) | (⟨t, _, rfl⟩ | ⟨t, _, rfl⟩)) | screened)
  · exact QcCheck.completeness_shallow recorded planned _
  · exact QcCheck.repeatability_shallow
      (Nat.lt_of_le_of_lt (replicates_length_le l s) counted) _ _
  · exact QcCheck.chronology_shallow times
  · exact QcCheck.band_shallow (readings _) ..
  · exact QcCheck.band_shallow (readings _) ..
  · split at screened
    · cases screened
    · obtain ⟨parameter, _, rfl⟩ := List.mem_map.mp screened
      exact QcCheck.outliers_shallow (readings parameter) ..

/-- All findings on a ledger come back from their columns. -/
theorem findings_storable (counted : l.entries.length < Word.count 64)
    (planned : expectedCount specs < Word.count 64) (settings : QcSettings) :
    ∀ f ∈ findings l specs settings, f.Storable :=
  fun f member => (findings_shallow counted planned settings f member).storable (by decide)

end QcAssessment

end Qualification
