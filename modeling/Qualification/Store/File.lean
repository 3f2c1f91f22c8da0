import Qualification.Decimal.Basic
import Qualification.Files.View
import Qualification.Store.Basic

/-! # The file of a store

The tables of a store as a document, row by row and column by column. An empty file is a
store without tables.
-/

namespace Qualification

open Document

/-- A reading in a column: its shortest text, which any reading has. -/
def ValueColumns.numericText (c : ValueColumns) : Option String :=
  c.numeric.map Decimal.plain

namespace RunRow

def toJson (r : RunRow) : Json :=
  .object [("run_id", .text r.id), ("protocol_id", .text r.protocolId),
    ("protocol_version", .text r.protocolVersion), ("specimen_id", .text r.specimenId),
    ("operator", .text r.operator), ("parameters", .text r.parameters),
    ("status", .text r.status), ("result", .text r.result), ("reason", .ofText? r.reason),
    ("created_at", .text r.createdAt), ("started_at", .ofText? r.startedAt),
    ("completed_at", .ofText? r.completedAt), ("acceptance", .text r.acceptance)]

def decode : Decoder RunRow :=
  Record.read "RunRow" (RunRow.mk
    <$> .required "run_id" Decoder.text
    <*> .required "protocol_id" Decoder.text
    <*> .required "protocol_version" Decoder.text
    <*> .required "specimen_id" Decoder.text
    <*> .required "operator" Decoder.text
    <*> .required "parameters" Decoder.text
    <*> .required "status" Decoder.text
    <*> .required "result" Decoder.text
    <*> .optional "reason" Decoder.text
    <*> .required "created_at" Decoder.text
    <*> .optional "started_at" Decoder.text
    <*> .optional "completed_at" Decoder.text
    <*> .required "acceptance" Decoder.text)

end RunRow

namespace PhaseRow

def toJson (r : PhaseRow) : Json :=
  .object [("run_id", .text r.runId), ("phase_id", .text r.phaseId),
    ("status", .text r.status), ("started_at", .ofText? r.startedAt),
    ("completed_at", .ofText? r.completedAt)]

def decode : Decoder PhaseRow :=
  Record.read "PhaseRow" (PhaseRow.mk
    <$> .required "run_id" Decoder.text
    <*> .required "phase_id" Decoder.text
    <*> .required "status" Decoder.text
    <*> .optional "started_at" Decoder.text
    <*> .optional "completed_at" Decoder.text)

end PhaseRow

namespace StepRow

def toJson (r : StepRow) : Json :=
  .object [("run_id", .text r.runId), ("step_id", .text r.stepId),
    ("phase_id", .text r.phaseId), ("sequence", .ofNat r.sequence),
    ("action", .text r.action), ("status", .text r.status),
    ("verdict", .ofOption .bool r.verdict), ("observations", .ofText? r.observations),
    ("started_at", .ofText? r.startedAt), ("completed_at", .ofText? r.completedAt)]

def decode : Decoder StepRow :=
  Record.read "StepRow" (StepRow.mk
    <$> .required "run_id" Decoder.text
    <*> .required "step_id" Decoder.text
    <*> .required "phase_id" Decoder.text
    <*> .required "sequence" Decoder.count32
    <*> .required "action" Decoder.text
    <*> .required "status" Decoder.text
    <*> .optional "verdict" Decoder.bool
    <*> .optional "observations" Decoder.text
    <*> .optional "started_at" Decoder.text
    <*> .optional "completed_at" Decoder.text)

end StepRow

namespace ValueColumns

/-- The columns of a value in a document. -/
def toJson (c : ValueColumns) : Json :=
  .object [("kind", .text c.kind), ("numeric", .ofText? c.numericText),
    ("text", .ofText? c.text), ("boolean", .ofOption .bool c.boolean),
    ("json", .ofText? c.json)]

def decode : Decoder ValueColumns :=
  Record.read "ValueColumns"
    ((fun kind numeric text boolean json =>
        ⟨kind, numeric.bind Decimal.read?, text, boolean, json⟩)
      <$> .required "kind" Decoder.text
      <*> .optional "numeric" Decoder.text
      <*> .optional "text" Decoder.text
      <*> .optional "boolean" Decoder.bool
      <*> .optional "json" Decoder.text)

end ValueColumns

namespace MeasurementRow

def toJson (r : MeasurementRow) : Json :=
  .object [("measurement_id", .text r.id), ("run_id", .text r.runId),
    ("parameter", .text r.parameter), ("value", r.value.toJson), ("unit", .ofText? r.unit),
    ("timestamp", .text r.timestamp), ("phase_id", .ofText? r.phaseId),
    ("step_id", .ofText? r.stepId), ("type", .text r.type), ("flag", .text r.flag),
    ("notes", .ofText? r.notes), ("metadata", .text r.metadata)]

def decode : Decoder MeasurementRow :=
  Record.read "MeasurementRow" (MeasurementRow.mk
    <$> .required "measurement_id" Decoder.text
    <*> .required "run_id" Decoder.text
    <*> .required "parameter" Decoder.text
    <*> .required "value" ValueColumns.decode
    <*> .optional "unit" Decoder.text
    <*> .required "timestamp" Decoder.text
    <*> .optional "phase_id" Decoder.text
    <*> .optional "step_id" Decoder.text
    <*> .required "type" Decoder.text
    <*> .required "flag" Decoder.text
    <*> .optional "notes" Decoder.text
    <*> .required "metadata" Decoder.text)

end MeasurementRow

namespace FindingRow

def toJson (r : FindingRow) : Json :=
  .object [("run_id", .text r.runId), ("name", .text r.name),
    ("category", .text r.category), ("passed", .bool r.passed),
    ("severity", .text r.severity), ("expected", .text r.expected),
    ("actual", .text r.actual), ("message", .text r.message)]

def decode : Decoder FindingRow :=
  Record.read "FindingRow" (FindingRow.mk
    <$> .required "run_id" Decoder.text
    <*> .required "name" Decoder.text
    <*> .required "category" Decoder.text
    <*> .required "passed" Decoder.bool
    <*> .required "severity" Decoder.text
    <*> .required "expected" Decoder.text
    <*> .required "actual" Decoder.text
    <*> .required "message" Decoder.text)

end FindingRow

namespace Tables

def toJson (t : Tables) : Json :=
  .object [("runs", .ofList RunRow.toJson t.runs),
    ("phases", .ofList PhaseRow.toJson t.phases), ("steps", .ofList StepRow.toJson t.steps),
    ("measurements", .ofList MeasurementRow.toJson t.measurements),
    ("findings", .ofList FindingRow.toJson t.findings)]

def decode : Decoder Tables :=
  Record.readStrict "Tables" (Tables.mk
    <$> .required "runs" (Decoder.list RunRow.decode)
    <*> .required "phases" (Decoder.list PhaseRow.decode)
    <*> .required "steps" (Decoder.list StepRow.decode)
    <*> .required "measurements" (Decoder.list MeasurementRow.decode)
    <*> .required "findings" (Decoder.list FindingRow.decode))

end Tables

/-- Why a store cannot be opened. -/
inductive StoreFault where
  /-- There is no place for its file. -/
  | unopened (path : String)
  | notAStore
  deriving Repr, DecidableEq

/-- The message of a fault, with its causes. -/
def StoreFault.message : StoreFault → String
  | unopened path =>
      "failed to open sqlite db " ++ path ++ "\n\nCaused by:\n    0: unable to open database"
        ++ " file: " ++ path ++ "\n    1: Error code 14: Unable to open the database file"
  | notAStore =>
      "create schema\n\nCaused by:\n    0: file is not a database\n"
        ++ "    1: Error code 26: File opened that is not a database file"

namespace Store

/-- The text of the file of a store. -/
def toText (s : Store) : String :=
  match s.tables with
  | none => ""
  | some t => t.toJson.compact

/-- The store that the text of a file holds, on a new connection. -/
def ofText? (text : String) : Option Store :=
  if text.isEmpty then some blank
  else (Json.decode Tables.decode text).toOption.map fun t => ⟨some t, false⟩

def isTransient (path : String) : Bool :=
  path.isEmpty || path == ":memory:"

/-- Is there a folder that the file of a store can stand in? -/
def hasPlace (files : FileView) (path : String) : Bool :=
  match Path.parent? path with
  | none => false
  | some folder => folder.isEmpty || (files.list folder).isOk

/-- Open the store in a file; a file that is not there yet holds an empty one. -/
def openFile (files : FileView) (path : String) : Except StoreFault Store :=
  if isTransient path then .ok blank
  else match files.read path with
    | .ok text => match ofText? text with
        | some s => .ok s
        | none => .error .notAStore
    | .error .notText => .error .notAStore
    | .error .notFound => if hasPlace files path then .ok blank else .error (.unopened path)
    | .error _ => .error (.unopened path)

end Store

end Qualification
