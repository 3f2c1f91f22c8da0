import Mathlib.Data.List.Pairwise
import Qualification.Proofs.Protocol.Validity
import Qualification.Proofs.QualityControl.Trust

/-! # What an assessment reports

A run and its own protocol are told what all checks find, in a fixed order; any other protocol is
refused. With valid settings in force outliers are always screened.
-/

namespace Qualification

open Statistics

variable {l : Ledger} {parameter : String} {specs : List MeasurementSpec} {settings : QcSettings}

/-- An entry counts for a parameter and, if one is asked for, for a type. -/
@[mk_iff]
structure Measurement.Counts (parameter : String) (type : Option MeasurementType)
    (m : Measurement) : Prop where
  same : m.parameter = parameter
  trusted : m.flag ≠ .bad
  taken : ∀ t ∈ type, m.type = t

instance (parameter : String) (type : Option MeasurementType) :
    DecidablePred (Measurement.Counts parameter type) :=
  fun m => decidable_of_iff _ (Measurement.counts_iff parameter type m).symm

namespace Ledger

/-- The numbers among the entries that count, in the order of recording. -/
def counted (l : Ledger) (parameter : String) (type : Option MeasurementType) : List Float :=
  (l.entries.filter fun m => m.Counts parameter type).filterMap Measurement.reading?

theorem matching_eq (l : Ledger) (s : MeasurementSpec) :
    QcAssessment.matching l s = l.entries.filter fun m => m.Counts s.parameter s.type := by
  rw [QcAssessment.matching, usable, List.filter_filter]
  refine List.filter_congr fun m _ => ?_
  rw [Bool.eq_iff_iff, decide_eq_true_iff, Measurement.counts_iff]
  cases s.type with
  | none => simp [Measurement.isUsable_iff]
  | some t =>
      simp only [Bool.and_eq_true, Measurement.isUsable_iff, beq_iff_eq, Option.all_some,
        Option.mem_some_iff, forall_eq']
      tauto

theorem readings_eq_counted (l : Ledger) (parameter : String) :
    l.readings parameter = l.counted parameter none := by
  rw [readings, usable, counted]
  refine congrArg _ (List.filter_congr fun m _ => ?_)
  rw [Bool.eq_iff_iff, decide_eq_true_iff, Measurement.counts_iff]
  simp [Measurement.isUsable_iff]

theorem distinct_order (seen texts : List String) :
    (distinct seen texts).Pairwise fun p q => texts.idxOf p < texts.idxOf q := by
  induction texts generalizing seen with
  | nil => exact .nil
  | cons t rest ih =>
      -- What was not seen before the rest comes behind the head.
      have behind {seen : List String} (fresh : t ∈ seen) : (distinct seen rest).Pairwise
          fun p q => (t :: rest).idxOf p < (t :: rest).idxOf q := by
        refine (ih seen).imp_of_mem ?_
        intro p q hp hq less
        have first : t ≠ p := fun same => (mem_distinct.mp hp).2 (same ▸ fresh)
        have second : t ≠ q := fun same => (mem_distinct.mp hq).2 (same ▸ fresh)
        rw [List.idxOf_cons_ne _ first, List.idxOf_cons_ne _ second]
        exact Nat.succ_lt_succ less
      rw [distinct]
      split
      · rename_i old
        exact behind (by simpa using old)
      · refine List.pairwise_cons.mpr ⟨?_, behind (List.mem_cons_self ..)⟩
        intro q member
        have other : t ≠ q := fun same =>
          (mem_distinct.mp member).2 (same ▸ List.mem_cons_self ..)
        rw [List.idxOf_cons_self, List.idxOf_cons_ne _ other]
        exact Nat.succ_pos _

/-- All parameters of a ledger, those first that were recorded first. -/
structure Introduces (l : Ledger) (parameters : List String) : Prop where
  recorded : ∀ parameter, parameter ∈ parameters ↔ ∃ m ∈ l.entries, m.parameter = parameter
  order : parameters.Pairwise fun p q =>
    (l.entries.map (·.parameter)).idxOf p < (l.entries.map (·.parameter)).idxOf q

theorem introduces_parameters (l : Ledger) : l.Introduces l.parameters where
  recorded _ := mem_parameters
  order := distinct_order [] _

end Ledger

/-- The method that settings choose, with the multiplier that they give or the usual one. -/
inductive OutlierSettings.Chooses (s : OutlierSettings) : OutlierMethod Float → Prop where
  | iqr : s.method = .iqr → s.Chooses (.iqr (s.threshold.getD 1.5))
  | mad : s.method = .mad → s.Chooses (.mad (s.threshold.getD 3.5))
  | zScore {k : Float} : s.method = .zScore → s.threshold = some k → s.Chooses (.zScore k)

theorem OutlierSettings.chooses_of_method? {s : OutlierSettings} {method : OutlierMethod Float}
    (h : s.method? = some method) : s.Chooses method := by
  unfold method? at h
  split at h
  · obtain rfl := Option.some.inj h
    exact .iqr ‹_›
  · obtain rfl := Option.some.inj h
    exact .mad ‹_›
  · obtain rfl := Option.some.inj h
    exact .zScore ‹_› ‹_›
  · cases h

/-- Valid settings choose a method. -/
theorem OutlierSettings.Valid.exists_method {s : OutlierSettings} (h : s.Valid) :
    ∃ method, s.method? = some method := by
  unfold method?
  split
  · exact ⟨_, rfl⟩
  · exact ⟨_, rfl⟩
  · exact ⟨_, rfl⟩
  · rename_i noMultiplier
    exact absurd noMultiplier (h.given ‹_›)

namespace QcAssessment

theorem total_eq_sum (ns : List Nat) : total ns = ns.sum := by
  induction ns with
  | nil => rfl
  | cons n rest ih => rw [total, ih, List.sum_cons]

/-- The findings of all checks on a ledger, those on outliers by one method and in the order of
    some parameters. -/
def report (l : Ledger) (specs : List MeasurementSpec) (settings : QcSettings)
    (method : OutlierMethod Float) (parameters : List String) : List QcFinding :=
  [QcCheck.completeness
    (specs.map fun s => min (l.entries.countP fun m => m.Counts s.parameter s.type)
      s.expectedCount).sum
    (specs.map (·.expectedCount)).sum settings.minCompletionRate]
  ++ (specs.filter (2 ≤ ·.expectedCount)).map (fun s =>
    QcCheck.repeatability ("repeatability:" ++ s.id) (l.counted s.parameter s.type)
      settings.maxCv)
  ++ [QcCheck.chronology (l.entries.map (·.timestamp))]
  ++ settings.irradiance.toList.map (fun t => QcCheck.irradiance (l.counted t.parameter none) t)
  ++ settings.temperature.toList.map (fun t => QcCheck.temperature (l.counted t.parameter none) t)
  ++ (parameters.filter fun parameter =>
      settings.outlier.minPoints ≤ (l.counted parameter none).length).map fun parameter =>
    QcCheck.outliers parameter (l.counted parameter none) method

theorem findings_eq_report {method : OutlierMethod Float}
    (chosen : settings.outlier.method? = some method) :
    findings l specs settings = report l specs settings method l.parameters := by
  have actual : actualCount l specs =
      (specs.map fun s => min (l.entries.countP fun m => m.Counts s.parameter s.type)
        s.expectedCount).sum := by
    simp only [actualCount, total_eq_sum, Ledger.matching_eq, List.countP_eq_length_filter]
  have repeated : repeatability l specs settings =
      (specs.filter (2 ≤ ·.expectedCount)).map fun s =>
        QcCheck.repeatability ("repeatability:" ++ s.id) (l.counted s.parameter s.type)
          settings.maxCv := by
    simp only [repeatability, replicates, Ledger.matching_eq, Ledger.counted]
  have surroundings : environment l settings =
      settings.irradiance.toList.map (fun t => QcCheck.irradiance (l.counted t.parameter none) t)
        ++ settings.temperature.toList.map fun t =>
          QcCheck.temperature (l.counted t.parameter none) t := by
    simp only [environment, Ledger.readings_eq_counted, Option.toList_map]
  have screened : screening l settings =
      (l.parameters.filter fun parameter =>
          settings.outlier.minPoints ≤ (l.counted parameter none).length).map fun parameter =>
        QcCheck.outliers parameter (l.counted parameter none) method := by
    simp only [screening, chosen, Ledger.readings_eq_counted]
  rw [findings, completeness, actual, expectedCount, total_eq_sum, repeated, surroundings,
    screened, report, Ledger.timestamps]
  simp only [List.cons_append, List.nil_append, List.append_assoc]

/-- What an assessment of a run by a protocol answers. -/
structure Answers (run : TestRun) (p : ProtocolDefinition) (fallback : QcSettings) : Prop where
  /-- A protocol that the run is not bound to is refused. -/
  refused : assess run p fallback = .error (.protocolMismatch run.id run.key p.key) ↔
    p.id ≠ run.protocolId ∨ p.version ≠ run.protocolVersion
  /-- Valid settings in force have all checks made. -/
  reported : p.id = run.protocolId → p.version = run.protocolVersion →
    ∀ part, Validation.checkQc part (p.qc.getD fallback) = .ok () →
      ∃ method parameters, (p.qc.getD fallback).outlier.Chooses method ∧
        run.ledger.Introduces parameters ∧
          assess run p fallback = .ok
            (report run.ledger p.measurementSpecs (p.qc.getD fallback) method parameters)

theorem assess_answers (run : TestRun) (p : ProtocolDefinition) (fallback : QcSettings) :
    Answers run p fallback where
  refused := by
    rw [assess, TestRun.requireProtocol]
    split
    · rename_i bound
      refine iff_of_false ?_ fun differs => differs.elim (absurd bound.1) (absurd bound.2)
      intro refused
      cases refused
    · rename_i strange
      exact iff_of_true rfl (Decidable.not_and_iff_not_or_not.mp strange)
  reported := by
    intro sameId sameVersion part accepted
    have valid := Validation.checkQc_ok.mp accepted
    obtain ⟨method, chosen⟩ := valid.outlier.exists_method
    refine ⟨method, run.ledger.parameters, OutlierSettings.chooses_of_method? chosen,
      run.ledger.introduces_parameters, ?_⟩
    rw [← findings_eq_report chosen]
    exact assess_ok.mpr ⟨⟨sameId, sameVersion⟩, rfl⟩

end QcAssessment

/-- An illustration: a protocol that expects two readings of power and has settings of its own. -/
def ProtocolDefinition.replicated : ProtocolDefinition :=
  { monitored with
    measurementSpecs := [⟨"power", "power", none, none, none, 2, none⟩]
    qc := some ⟨95, 2, none, some ⟨"temperature", 25, 2⟩, ⟨.zScore, some 3, 1⟩⟩ }

namespace QcAssessment

open ProtocolDefinition

theorem backdated_answers :
    Validation.checkQc "qc" (replicated.qc.getD .default) = .ok () ∧
      ∃ method parameters, (replicated.qc.getD .default).outlier.Chooses method ∧
        TestRun.backdated.ledger.Introduces parameters ∧
          assess TestRun.backdated .replicated .default = .ok
            (report TestRun.backdated.ledger replicated.measurementSpecs
              (replicated.qc.getD .default) method parameters) := by
  have accepted : Validation.checkQc "qc" (replicated.qc.getD .default) = .ok () := by
    decide +kernel
  exact ⟨accepted, (assess_answers TestRun.backdated .replicated .default).reported
    TestRun.backdated_bound.1 TestRun.backdated_bound.2 "qc" accepted⟩

end QcAssessment

end Qualification
