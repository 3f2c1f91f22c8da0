import Qualification.Run.Codec

/-! # Run summaries -/

namespace Qualification

open Document

/-- One line in a list of runs. -/
structure RunSummary where
  runId : String
  protocolId : String
  protocolVersion : String
  specimenId : String
  operator : String
  status : RunStatus
  result : TestResult
  createdAt : Instant
  completedAt : Option Instant
  deriving Repr, DecidableEq

namespace RunSummary

def ofRun (run : TestRun) : RunSummary where
  runId := run.id
  protocolId := run.protocolId
  protocolVersion := run.protocolVersion
  specimenId := run.specimenId
  operator := run.operator
  status := run.status
  result := run.result
  createdAt := run.createdAt
  completedAt := run.completedAt

def toJson (s : RunSummary) : Json :=
  .object [("run_id", .text s.runId), ("protocol_id", .text s.protocolId),
    ("protocol_version", .text s.protocolVersion), ("specimen_id", .text s.specimenId),
    ("operator", .text s.operator), ("status", .text s.status.text),
    ("result", .text s.result.text), ("created_at", s.createdAt.toJson),
    ("completed_at", Instant.toJson? s.completedAt)]

def decode : Decoder RunSummary :=
  Record.read "RunSummary" (RunSummary.mk
    <$> .required "run_id" Decoder.text
    <*> .required "protocol_id" Decoder.text
    <*> .required "protocol_version" Decoder.text
    <*> .required "specimen_id" Decoder.text
    <*> .required "operator" Decoder.text
    <*> .required "status" RunStatus.words.read
    <*> .required "result" TestResult.words.read
    <*> .required "created_at" Instant.decode
    <*> .optional "completed_at" Instant.decode)

end RunSummary

end Qualification
