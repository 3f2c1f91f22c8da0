import Qualification.Store.Basic

/-! # Amendments

A column of text can be set by hand in all rows of a run. Nothing but the constraints of
the tables stands against it.
-/

namespace Qualification

namespace RunRow

def amend (column value : String) (r : RunRow) : Option RunRow :=
  match column with
  | "run_id" => some { r with id := value }
  | "protocol_id" => some { r with protocolId := value }
  | "protocol_version" => some { r with protocolVersion := value }
  | "specimen_id" => some { r with specimenId := value }
  | "operator" => some { r with operator := value }
  | "parameters_json" => some { r with parameters := value }
  | "status" => some { r with status := value }
  | "result" => some { r with result := value }
  | "status_reason" => some { r with reason := some value }
  | "created_at" => some { r with createdAt := value }
  | "started_at" => some { r with startedAt := some value }
  | "completed_at" => some { r with completedAt := some value }
  | "acceptance_json" => some { r with acceptance := value }
  | _ => none

end RunRow

namespace PhaseRow

def amend (column value : String) (r : PhaseRow) : Option PhaseRow :=
  match column with
  | "run_id" => some { r with runId := value }
  | "phase_id" => some { r with phaseId := value }
  | "status" => some { r with status := value }
  | "started_at" => some { r with startedAt := some value }
  | "completed_at" => some { r with completedAt := some value }
  | _ => none

end PhaseRow

namespace StepRow

def amend (column value : String) (r : StepRow) : Option StepRow :=
  match column with
  | "run_id" => some { r with runId := value }
  | "step_id" => some { r with stepId := value }
  | "phase_id" => some { r with phaseId := value }
  | "action" => some { r with action := value }
  | "status" => some { r with status := value }
  | "observations" => some { r with observations := some value }
  | "started_at" => some { r with startedAt := some value }
  | "completed_at" => some { r with completedAt := some value }
  | _ => none

end StepRow

namespace MeasurementRow

def amend (column value : String) (r : MeasurementRow) : Option MeasurementRow :=
  match column with
  | "measurement_id" => some { r with id := value }
  | "run_id" => some { r with runId := value }
  | "parameter" => some { r with parameter := value }
  | "value_kind" => some { r with value := { r.value with kind := value } }
  | "value_text" => some { r with value := { r.value with text := some value } }
  | "value_json" => some { r with value := { r.value with json := some value } }
  | "unit" => some { r with unit := some value }
  | "timestamp" => some { r with timestamp := value }
  | "phase_id" => some { r with phaseId := some value }
  | "step_id" => some { r with stepId := some value }
  | "measurement_type" => some { r with type := value }
  | "quality_flag" => some { r with flag := value }
  | "notes" => some { r with notes := some value }
  | "metadata_json" => some { r with metadata := value }
  | _ => none

end MeasurementRow

namespace FindingRow

def amend (column value : String) (r : FindingRow) : Option FindingRow :=
  match column with
  | "run_id" => some { r with runId := value }
  | "check_name" => some { r with name := value }
  | "category" => some { r with category := value }
  | "severity" => some { r with severity := value }
  | "expected_json" => some { r with expected := value }
  | "actual_json" => some { r with actual := value }
  | "message" => some { r with message := value }
  | _ => none

end FindingRow

namespace Tables

def areDistinct {α : Type} [BEq α] : List α → Bool
  | [] => true
  | a :: rest => !rest.contains a && areDistinct rest

def isValid (t : Tables) : Bool :=
  areDistinct (t.runs.map (·.id)) && areDistinct (t.phases.map fun r => (r.runId, r.phaseId)) &&
    areDistinct (t.steps.map fun r => (r.runId, r.stepId)) &&
    areDistinct (t.measurements.map (·.id)) && t.measurements.all (·.value.isValid)

/-- Change the rows that a test selects, and count them. -/
def changeRows {ρ : Type} (selects : ρ → Bool) (change : ρ → Option ρ) (rows : List ρ) :
    Option (List ρ × Nat) := do
  let changed ← rows.mapM fun r => if selects r then change r else some r
  return (changed, (rows.filter selects).length)

/-- Set a column of a table in all rows of a run, whatever the constraints say. -/
def setColumn (t : Tables) (table column value runId : String) : Option (Tables × Nat) := do
  match table with
  | "runs" =>
      let (runs, count) ← changeRows (·.id == runId) (RunRow.amend column value) t.runs
      return ({ t with runs }, count)
  | "phases" =>
      let (phases, count) ←
        changeRows (·.runId == runId) (PhaseRow.amend column value) t.phases
      return ({ t with phases }, count)
  | "steps" =>
      let (steps, count) ← changeRows (·.runId == runId) (StepRow.amend column value) t.steps
      return ({ t with steps }, count)
  | "measurements" =>
      let (measurements, count) ←
        changeRows (·.runId == runId) (MeasurementRow.amend column value) t.measurements
      return ({ t with measurements }, count)
  | "qc_results" =>
      let (findings, count) ←
        changeRows (·.runId == runId) (FindingRow.amend column value) t.findings
      return ({ t with findings }, count)
  | _ => none

/-- Set a column of a table in all rows of a run, and count them. -/
def amend (t : Tables) (table column value runId : String) : Option (Tables × Nat) :=
  (t.setColumn table column value runId).filter fun amended => amended.1.isValid

end Tables

namespace Store

/-- Set a column in all rows of a run, and count them. -/
def amend (s : Store) (table column value runId : String) : Except StoreError (Store × Nat) := do
  let t ← s.requireTables .amend
  match t.amend table column value runId with
  | some (t, count) => return ({ s with tables := some t }, count)
  | none => .error .amend

end Store

end Qualification
