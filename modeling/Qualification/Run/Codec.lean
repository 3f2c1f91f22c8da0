import Qualification.Run.Basic

/-! # Test runs in documents -/

namespace Qualification

open Document

def Instant.toJson? (t : Option Instant) : Json :=
  .ofOption Instant.toJson t

namespace PhaseRecord

def toJson (p : PhaseRecord) : Json :=
  .object [("phase_id", .text p.phaseId), ("status", .text p.status.text),
    ("started_at", Instant.toJson? p.startedAt),
    ("completed_at", Instant.toJson? p.completedAt)]

def decode : Decoder PhaseRecord :=
  Record.read "PhaseRecord" (PhaseRecord.mk
    <$> .required "phase_id" Decoder.text
    <*> .required "status" PhaseStatus.words.read
    <*> .optional "started_at" Instant.decode
    <*> .optional "completed_at" Instant.decode)

end PhaseRecord

namespace StepRecord

def toJson (s : StepRecord) : Json :=
  .object [("step_id", .text s.stepId), ("phase_id", .text s.phaseId),
    ("sequence", .ofNat s.sequence), ("action", .text s.action),
    ("status", .text s.status.text), ("pass_fail", .ofOption .bool s.verdict),
    ("observations", .ofText? s.observations),
    ("started_at", Instant.toJson? s.startedAt),
    ("completed_at", Instant.toJson? s.completedAt)]

def decode : Decoder StepRecord :=
  Record.read "StepRecord" (StepRecord.mk
    <$> .required "step_id" Decoder.text
    <*> .required "phase_id" Decoder.text
    <*> .required "sequence" Decoder.count32
    <*> .required "action" Decoder.text
    <*> .required "status" StepStatus.words.read
    <*> .optional "pass_fail" Decoder.bool
    <*> .optional "observations" Decoder.text
    <*> .optional "started_at" Instant.decode
    <*> .optional "completed_at" Instant.decode)

end StepRecord

namespace Ledger

def toJson (l : Ledger) : Json :=
  .ofList Measurement.toJson l.entries

def decode : Decoder Ledger := fun place node =>
  (Decoder.list Measurement.decode place node).map Ledger.mk

end Ledger

namespace TestRun

def toJson (run : TestRun) : Json :=
  .object ([("run_id", .text run.id), ("protocol_id", .text run.protocolId),
      ("protocol_version", .text run.protocolVersion), ("specimen_id", .text run.specimenId),
      ("operator", .text run.operator), ("parameters", .object run.parameters),
      ("status", .text run.status.text), ("result", .text run.result.text)]
    ++ Json.memberOf? "status_reason" .text run.reason
    ++ [("created_at", run.createdAt.toJson),
      ("started_at", Instant.toJson? run.startedAt),
      ("completed_at", Instant.toJson? run.completedAt),
      ("phases", .ofList PhaseRecord.toJson run.phases),
      ("steps", .ofList StepRecord.toJson run.steps),
      ("ledger", run.ledger.toJson),
      ("acceptance", .ofList Evaluation.toJson run.acceptance)])

def decode : Decoder TestRun :=
  Record.read "TestRun" (TestRun.mk
    <$> .required "run_id" Decoder.text
    <*> .required "protocol_id" Decoder.text
    <*> .required "protocol_version" Decoder.text
    <*> .required "specimen_id" Decoder.text
    <*> .required "operator" Decoder.text
    <*> .withDefault "parameters" (Decoder.dictionary Decoder.json) []
    <*> .required "status" RunStatus.words.read
    <*> .required "result" TestResult.words.read
    <*> .optionalDefault "status_reason" Decoder.text
    <*> .required "created_at" Instant.decode
    <*> .optional "started_at" Instant.decode
    <*> .optional "completed_at" Instant.decode
    <*> .required "phases" (Decoder.list PhaseRecord.decode)
    <*> .required "steps" (Decoder.list StepRecord.decode)
    <*> .required "ledger" Ledger.decode
    <*> .withDefault "acceptance" (Decoder.list Evaluation.decode) [])

end TestRun

end Qualification
