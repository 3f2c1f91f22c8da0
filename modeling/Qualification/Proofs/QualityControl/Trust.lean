import Qualification.Proofs.QualityControl.Findings
import Qualification.Proofs.Refusal
import Qualification.Proofs.Run.Entries
import Qualification.Proofs.Statistics.Sorted
import Qualification.Proofs.Trust

/-! # Bad entries and evaluations

A bad entry counts in no verdict and in no degradation series. Quality control counts no bad
entry either, but two of its checks still see one. The order of times is that of all entries,
and outliers are screened parameter by parameter in the order of first recording, in which a
bad entry may come first.
-/

namespace Qualification

variable {l : Ledger} {specs : List MeasurementSpec} {settings : QcSettings}

theorem inOrder_trusted (ordered : InOrder l.timestamps) : InOrder l.trusted.timestamps := by
  have fewer : l.trusted.entries.Sublist l.entries := List.filter_sublist
  exact ordered.sublist (fewer.map _)

def TestRun.withLedger (run : TestRun) (ledger : Ledger) : TestRun :=
  { run with ledger := ledger }

namespace QcAssessment

theorem assess_ok {run : TestRun} {p : ProtocolDefinition} {fallback : QcSettings}
    {found : List QcFinding} : assess run p fallback = .ok found ↔
      run.BoundTo p ∧ found = findings run.ledger p.measurementSpecs (p.qc.getD fallback) := by
  rw [assess, ← TestRun.requireProtocol_ok]
  cases run.requireProtocol p <;> simp [Except.map, eq_comm]

@[simp]
theorem matching_trusted (l : Ledger) (s : MeasurementSpec) :
    matching l.trusted s = matching l s := by
  simp [matching]

@[simp]
theorem completeness_trusted :
    completeness l.trusted specs settings = completeness l specs settings := by
  simp [completeness, actualCount]

@[simp]
theorem repeatability_trusted :
    repeatability l.trusted specs settings = repeatability l specs settings := by
  simp [repeatability, replicates]

@[simp]
theorem environment_trusted : environment l.trusted settings = environment l settings := by
  simp [environment]

/-- The screenings of some kind, if each of that kind has a reading, are the same without the
    bad entries, but for their order. -/
theorem screening_trusted_perm {kind : QcFinding → Bool}
    (counts : ∀ parameter method, settings.outlier.minPoints ≤ (l.readings parameter).length →
      kind (QcCheck.outliers parameter (l.readings parameter) method) →
        l.readings parameter ≠ []) :
    ((screening l settings).filter kind).Perm ((screening l.trusted settings).filter kind) := by
  unfold screening
  split
  · exact .refl _
  · rename_i method _
    simp only [Ledger.readings_trusted, List.filter_map, List.filter_filter]
    -- Both lists come from their parameters by the same function.
    refine (Ledger.parameters_trusted_perm ?_).map _
    intro parameter screened unused
    obtain ⟨ofKind, enough⟩ : kind (QcCheck.outliers parameter (l.readings parameter) method) ∧
        settings.outlier.minPoints ≤ (l.readings parameter).length := by simpa using screened
    apply counts parameter method enough ofKind
    rw [Ledger.readings, unused, List.filterMap_nil]

theorem failures_trusted_perm (l : Ledger) (settings : QcSettings) :
    ((screening l settings).filter fun f => !f.passed).Perm
      ((screening l.trusted settings).filter fun f => !f.passed) := by
  apply screening_trusted_perm
  intro parameter method _ failed nothing
  simp [QcCheck.outliers, nothing, Statistics.detectOutliers_nil] at failed

theorem screened_trusted_perm (asksReadings : 0 < settings.outlier.minPoints) :
    (screening l settings).Perm (screening l.trusted settings) := by
  have all : ∀ found : List QcFinding, (found.filter fun _ => true) = found := by simp
  rw [← all (screening l settings), ← all (screening l.trusted settings)]
  apply screening_trusted_perm
  intro parameter _ enough _ nothing
  rw [nothing, List.length_nil] at enough
  omega

/-- Two lists of findings that say the same, the order of times apart and but for the order
    of the screenings. -/
structure Alike (settings : QcSettings) (found found' : List QcFinding) : Prop where
  settled : ∀ category, category ≠ .chronology → category ≠ .outlier →
    ofCategory category found = ofCategory category found'
  failed : ((ofCategory .outlier found).filter fun f => !f.passed).Perm
    ((ofCategory .outlier found').filter fun f => !f.passed)
  /-- A screening of no readings passes; there is none if it takes a reading to be screened. -/
  screened : 0 < settings.outlier.minPoints →
    (ofCategory .outlier found).Perm (ofCategory .outlier found')

theorem Alike.symm {found found' : List QcFinding} (h : Alike settings found found') :
    Alike settings found' found where
  settled category notOrder notOutlier := (h.settled category notOrder notOutlier).symm
  failed := h.failed.symm
  screened asksReadings := (h.screened asksReadings).symm

theorem Alike.trans {found found' found'' : List QcFinding} (h : Alike settings found found')
    (h' : Alike settings found' found'') : Alike settings found found'' where
  settled category notOrder notOutlier :=
    (h.settled category notOrder notOutlier).trans (h'.settled category notOrder notOutlier)
  failed := h.failed.trans h'.failed
  screened asksReadings := (h.screened asksReadings).trans (h'.screened asksReadings)

theorem findings_trusted (l : Ledger) (specs : List MeasurementSpec) (settings : QcSettings) :
    Alike settings (findings l specs settings) (findings l.trusted specs settings) := by
  refine ⟨?_, ?_, ?_⟩
  · intro category notOrder notOutlier
    rw [ofCategory_findings, ofCategory_findings]
    cases category with
    | chronology => exact absurd rfl notOrder
    | outlier => exact absurd rfl notOutlier
    | completeness => simp
    | repeatability => simp
    | environment => simp
  · rw [ofCategory_findings, ofCategory_findings]
    exact failures_trusted_perm l settings
  · intro asksReadings
    rw [ofCategory_findings, ofCategory_findings]
    exact screened_trusted_perm asksReadings

/-- The evaluations of a run and of the same run with another ledger. -/
structure Unmoved (run : TestRun) (ledger : Ledger) (p : ProtocolDefinition)
    (fallback : QcSettings) : Prop where
  verdicts : ∀ criteria parameters, Acceptance.evaluate criteria ledger parameters =
    Acceptance.evaluate criteria run.ledger parameters
  series : ∀ parameter, DegradationPoint.series ledger.entries parameter =
    DegradationPoint.series run.ledger.entries parameter
  refused : ∀ e, assess (run.withLedger ledger) p fallback = .error e ↔
    assess run p fallback = .error e
  findings : ∀ found found', assess run p fallback = .ok found →
    assess (run.withLedger ledger) p fallback = .ok found' →
      Alike (p.qc.getD fallback) found found'
  /-- The order of times is judged by all entries. It passes only where those that are not bad
      are in order. -/
  order : ∀ found, assess (run.withLedger ledger) p fallback = .ok found →
    ∃ f, ofCategory .chronology found = [f] ∧ (f.passed ↔ InOrder ledger.timestamps) ∧
      (f.passed → InOrder run.ledger.trusted.timestamps)

theorem unmoved_of_trusted {run : TestRun} {ledger : Ledger}
    (agree : ledger.trusted = run.ledger.trusted) (p : ProtocolDefinition)
    (fallback : QcSettings) : Unmoved run ledger p fallback := by
  refine ⟨?_, ?_, ?_, ?_, ?_⟩
  · intro criteria parameters
    rw [← Acceptance.evaluate_trusted, agree, Acceptance.evaluate_trusted]
  · intro parameter
    rw [← DegradationPoint.series_trusted, agree, DegradationPoint.series_trusted]
  · intro e
    have bound : (run.withLedger ledger).requireProtocol p =
        run.requireProtocol p := rfl
    rw [assess, assess, bound]
    cases run.requireProtocol p <;> simp [Except.map]
  · intro found found' assessed assessed'
    obtain ⟨_, rfl⟩ := assess_ok.mp assessed
    obtain ⟨_, rfl⟩ := assess_ok.mp assessed'
    have other := findings_trusted ledger p.measurementSpecs (p.qc.getD fallback)
    rw [agree] at other
    exact (findings_trusted run.ledger p.measurementSpecs (p.qc.getD fallback)).trans other.symm
  · intro found assessed
    obtain ⟨_, rfl⟩ := assess_ok.mp assessed
    refine ⟨_, ofCategory_findings, QcCheck.chronology_passed, ?_⟩
    intro passed
    rw [← agree]
    exact inOrder_trusted (QcCheck.chronology_passed.mp passed)

end QcAssessment

/-- A reading that the instrument took at a second. -/
def NewMeasurement.takenAt (second : Nat) (parameter : String) (x : Float) : NewMeasurement :=
  { NewMeasurement.reading parameter x with timestamp := some ⟨second, 0⟩ }

namespace TestRun

/-- An illustration: of two readings the second was taken before the first, and is bad. -/
def backdated : TestRun :=
  ofTwoPhases.after [numbered .start, numbered (.startStep "inspect"),
    numbered (.record (.takenAt 3600 "power" 210)), numbered (.record (.takenAt 0 "power" 209)),
    numbered (.flag "reading-1" .bad none)]

theorem backdated_times :
    backdated.ledger.timestamps = [⟨3600, 0⟩, ⟨0, 0⟩] ∧
      backdated.ledger.trusted.timestamps = [⟨3600, 0⟩] := by
  rw [backdated, ofTwoPhases, ofTwoPhases_steps]
  decide +kernel

theorem backdated_bound : backdated.BoundTo .monitored :=
  (monitored_reachable _).bound

end TestRun

namespace QcAssessment

open TestRun

/-- The order is broken by the bad entry: without it the times are in order. -/
theorem assess_sees_bad : ∃ found found',
    assess backdated .monitored .default = .ok found ∧
      assess (backdated.withLedger backdated.ledger.trusted) .monitored .default =
        .ok found' ∧
      (ofCategory .chronology found).map (·.passed) = [false] ∧
      (ofCategory .chronology found').map (·.passed) = [true] := by
  obtain ⟨times, trusted⟩ := backdated_times
  refine ⟨_, _, assess_ok.mpr ⟨backdated_bound, rfl⟩, assess_ok.mpr ⟨backdated_bound, rfl⟩, ?_, ?_⟩
  · rw [ofCategory_findings, times]
    decide +kernel
  · rw [ofCategory_findings, TestRun.withLedger, trusted]
    decide +kernel

theorem backdated_unmoved :
    backdated.ledger.trusted.timestamps ≠ backdated.ledger.timestamps ∧
      Unmoved backdated backdated.ledger.trusted .monitored .default := by
  constructor
  · rw [backdated_times.1, backdated_times.2]
    decide
  · exact unmoved_of_trusted (Ledger.trusted_trusted _) .monitored .default

end QcAssessment

end Qualification
