import Qualification.Proofs.Acceptance.Document
import Qualification.Proofs.Document.Word
import Qualification.Proofs.Instant.Column
import Qualification.Store.Row

/-! # Rows read back

Each row gives back the part of a run that it was made from, if the instants of the part have
years of four digits and its values their place in a column. Of a reading, a column drops
the sign of zero and nothing else.
-/

namespace Qualification

open Document

/-- A time that a column gives back, if there is one. -/
def PlainOrNull (t : Option Instant) : Prop :=
  ∀ s, t = some s → s.Plain

structure PhaseRecord.Timed (p : PhaseRecord) : Prop where
  startedAt : PlainOrNull p.startedAt
  completedAt : PlainOrNull p.completedAt

structure StepRecord.Timed (s : StepRecord) : Prop where
  startedAt : PlainOrNull s.startedAt
  completedAt : PlainOrNull s.completedAt

theorem PhaseRow.toPhase_ofPhase {p : PhaseRecord} (timed : p.Timed) (runId : String) :
    (ofPhase runId p).toPhase? = some p := by
  simp [ofPhase, toPhase?, PhaseStatus.ofText_text, Instant.ofColumnOrNull_column timed.startedAt,
    Instant.ofColumnOrNull_column timed.completedAt]

theorem StepRow.toStep_ofStep {s : StepRecord} (timed : s.Timed) (runId : String) :
    (ofStep runId s).toStep? = some s := by
  simp [ofStep, toStep?, StepStatus.ofText_text, Instant.ofColumnOrNull_column timed.startedAt,
    Instant.ofColumnOrNull_column timed.completedAt]

namespace MeasuredValue

/-- A value as its columns give it back: zero has no sign. -/
def unsignedZero : MeasuredValue → MeasuredValue
  | numeric x => .numeric (if x == 0.0 then 0.0 else x)
  | v => v

theorem storedReading_finite {x : Float} (finite : x.isFinite) :
    ValueColumns.storedReading x = some (if x == 0.0 then 0.0 else x) := by
  have notNaN := Binary64.not_isNaN finite
  rw [ValueColumns.storedReading, if_neg notNaN]
  split <;> rfl

theorem toValue_ofValue {v : MeasuredValue} (storable : v.Storable Json.levels) :
    (ValueColumns.ofValue v).toValue? = some v.unsignedZero := by
  cases v with
  | numeric x =>
      have read : (ValueColumns.ofValue (.numeric x)).toValue? =
          (ValueColumns.storedReading x).map .numeric := rfl
      rw [read, storedReading_finite storable]
      rfl
  | text s => rfl
  | boolean b => rfl
  | json v =>
      have read : (ValueColumns.ofValue (.json v)).toValue? =
          (Json.ofColumn? Decoder.json v.compact).map .json := rfl
      rw [read, Json.ofColumn_json storable]
      rfl

end MeasuredValue

/-- A measurement of which every column gives its part back. -/
structure Measurement.Storable (m : Measurement) : Prop where
  value : m.value.Storable Json.levels
  timestamp : m.timestamp.Plain
  metadata : Json.Storable Json.levels (.object m.metadata)

theorem MeasurementRow.toMeasurement_ofMeasurement {m : Measurement} (storable : m.Storable) :
    (ofMeasurement m.runId m).toMeasurement? = some { m with value := m.value.unsignedZero } := by
  simp [ofMeasurement, toMeasurement?, MeasuredValue.toValue_ofValue storable.value,
    storable.timestamp.ofColumn, MeasurementType.ofText_text, QualityFlag.ofText_text,
    Json.ofColumn_dictionary storable.metadata]

/-- A measurement at a time that its column does not give back is not read. -/
theorem MeasurementRow.toMeasurement_far {m : Measurement} (far : ¬ m.timestamp.hasPlainYear)
    (runId : String) : (ofMeasurement runId m).toMeasurement? = none := by
  have unread : Instant.ofColumn? (ofMeasurement runId m).timestamp = none :=
    Instant.ofColumn_far far
  simp [toMeasurement?, unread]

/-- A finding of which every column gives its part back. -/
structure QcFinding.Storable (f : QcFinding) : Prop where
  expected : f.expected.Storable Json.levels
  actual : f.actual.Storable Json.levels

theorem FindingRow.toFinding_ofFinding {f : QcFinding} (storable : f.Storable) (runId : String) :
    (ofFinding runId f).toFinding? = some f := by
  simp [ofFinding, toFinding?, QcCategory.find_text, Severity.find_text,
    Json.ofColumn_json storable.expected, Json.ofColumn_json storable.actual]

/-- The part of a run that its own row holds. -/
def TestRun.withoutParts (run : TestRun) : TestRun :=
  { run with phases := [], steps := [], ledger := .empty }

theorem RunRow.toRun_ofRun {run : TestRun} (created : run.createdAt.Plain)
    (started : PlainOrNull run.startedAt) (completed : PlainOrNull run.completedAt)
    (parameters : Json.Storable Json.levels (.object run.parameters))
    (verdicts : ∀ e ∈ run.acceptance, e.Storable (Json.levels - 3)) :
    (ofRun run).toRun? = some run.withoutParts := by
  simp [ofRun, toRun?, RunStatus.ofText_text, TestResult.ofText_text, created.ofColumn,
    Instant.ofColumnOrNull_column started, Instant.ofColumnOrNull_column completed,
    Json.ofColumn_dictionary parameters, Evaluation.ofColumn_list verdicts (by decide),
    TestRun.withoutParts]

end Qualification
