import Qualification.Command.Report
import Qualification.Proofs.Numeric.Scaling
import Qualification.Proofs.QualityControl.Document
import Qualification.Proofs.Run.Document

/-! # Reports that are read

What is printed of a run can be read back: its document gives the run, and the document of a
report gives the run, how far it came, and the findings on it. A text is read to a fixed number
of levels, and gives back just the runs whose data have no more. A report for a reader has a line
for each thing that it tells.
-/

namespace Qualification

open Document Json

variable {depth : Nat} {run : TestRun} {p : ProtocolDefinition} {findings : List QcFinding}

/-- What the document of a report tells. -/
structure RunReport where
  run : TestRun
  progressPct : Float
  findings : List QcFinding

namespace RunReport

def decode : Decoder RunReport :=
  Record.read "RunReport" (RunReport.mk
    <$> .required "run" TestRun.decode
    <*> .required "progress_pct" Decoder.float
    <*> .required "qc" (Decoder.list QcFinding.decode))

/-- The run in a report that is read has no more levels than the reader goes down. -/
theorem produces_decode :
    decode.Produces (depth + 5) fun report => report.run.Shallow depth := by
  refine Record.Makes.readAs
    (.skip <| .skip <| .first (.required TestRun.produces_decode) ?_) _ _
  exact fun _ shallow _ _ => shallow

end RunReport

/-- A text has a line, with whole lines before and behind it. -/
def Text.HasLine (text line : String) : Prop :=
  ∃ before after, text = Text.lines before ++ (line ++ "\n" ++ Text.lines after)

theorem Text.lines_append (before after : List String) :
    Text.lines (before ++ after) = Text.lines before ++ Text.lines after := by
  rw [Text.lines, List.map_append, String.join_append, Text.lines, Text.lines]

theorem Text.lines_cons (line : String) (rest : List String) :
    Text.lines (line :: rest) = line ++ "\n" ++ Text.lines rest := by
  rw [Text.lines, List.map_cons, String.join_cons, Text.lines]

theorem Text.hasLine_of_mem {line : String} {ls : List String} (h : line ∈ ls) :
    Text.HasLine (Text.lines ls) line := by
  obtain ⟨before, after, rfl⟩ := List.append_of_mem h
  exact ⟨before, after, by rw [lines_append, lines_cons]⟩

namespace Report

/-- What a report for a reader tells of a run and of the findings on it. -/
structure Tells (run : TestRun) (findings : List QcFinding) (text : String) : Prop where
  header : Text.HasLine text ("run " ++ run.id ++ "  " ++ run.key.display ++ "  specimen "
    ++ run.specimenId ++ "  operator " ++ run.operator)
  outcome : Text.HasLine text ("status " ++ run.status.text ++ "  result " ++ run.result.text
    ++ "  progress " ++ Decimal.fixed 0 run.progressPct ++ "%")
  reason : ∀ reason, run.reason = some reason → Text.HasLine text ("reason: " ++ reason)
  steps : ∀ s ∈ run.steps, Text.HasLine text (stepLine s)
  measurements : Text.HasLine text ("measurements: " ++ run.ledger.entries.length.repr)
  verdicts : ∀ e ∈ run.acceptance, Text.HasLine text (evaluationLine e)
  count : findings ≠ [] → Text.HasLine text (findingCount findings)
  findings : ∀ f ∈ findings, Text.HasLine text ("  " ++ findingLine f)

theorem mem_sectionOf {α : Type} {title line : String} {items : List α} {write : α → String} :
    line ∈ sectionOf title items write ↔
      items ≠ [] ∧ line = title ∨ ∃ a ∈ items, write a = line := by
  cases items <;> simp [sectionOf, eq_comm]

theorem runLines_tells (run : TestRun) (findings : List QcFinding) :
    Tells run findings (Text.lines (runLines run findings)) where
  header := Text.hasLine_of_mem (by simp [runLines])
  outcome := Text.hasLine_of_mem (by simp [runLines])
  reason _ given := Text.hasLine_of_mem (by simp [runLines, given])
  steps s member := by
    have line : stepLine s ∈ run.steps.map stepLine := List.mem_map_of_mem member
    refine Text.hasLine_of_mem ?_
    simp only [runLines, List.mem_append, List.mem_cons, line, true_or, or_true]
  measurements := Text.hasLine_of_mem (by simp [runLines])
  verdicts e member := by
    have line : evaluationLine e ∈ sectionOf "acceptance:" run.acceptance evaluationLine :=
      mem_sectionOf.mpr (.inr ⟨e, member, rfl⟩)
    refine Text.hasLine_of_mem ?_
    simp only [runLines, List.mem_append, line, true_or, or_true]
  count some := by
    have line : findingCount findings ∈
        sectionOf (findingCount findings) findings fun f => "  " ++ findingLine f :=
      mem_sectionOf.mpr (.inl ⟨some, rfl⟩)
    refine Text.hasLine_of_mem ?_
    simp only [runLines, List.mem_append, line, or_true]
  findings f member := by
    have line : "  " ++ findingLine f ∈
        sectionOf (findingCount findings) findings fun f => "  " ++ findingLine f :=
      mem_sectionOf.mpr (.inr ⟨f, member, rfl⟩)
    refine Text.hasLine_of_mem ?_
    simp only [runLines, List.mem_append, line, or_true]

end Report

theorem Report.stdout_json (code : ExitCode) (run : TestRun) (findings : List QcFinding) :
    (Report.run code .json run findings).stdout = (Report.runJson run findings).pretty ++ "\n" := by
  simp [Report.run, Output.ofJson, Output.ofLines, Text.lines, String.join]

namespace TestRun

theorem progressPct_isFinite (counted : run.steps.length < Word.count 64) :
    run.progressPct.isFinite := by
  unfold progressPct
  split
  · decide +kernel
  · rename_i some
    rw [List.isEmpty_iff, ← List.length_eq_zero_iff] at some
    exact Binary64.percentage_isFinite (Nat.pos_of_ne_zero some)
      (Nat.lt_of_le_of_lt (List.length_filter_le _ _) counted)

/-- The document of a report gives back what is told in it. -/
theorem Reachable.carries_runJson (reachable : Reachable p run) (writable : run.Writable)
    (shallow : run.Shallow depth) (counted : run.steps.length < Word.count 64)
    (details : ∀ f ∈ findings, f.Shallow (depth + 2)) :
    Carries (depth + 5) RunReport.decode (Report.runJson run findings)
      ⟨run, run.progressPct, findings⟩ :=
  have finite := progressPct_isFinite counted
  Record.Fills.map RunReport.mk (.field (reachable.carries writable shallow arranges_canonical))
    |>.seq (.field (.float finite))
    |>.seq (.field (.list fun f member =>
      QcFinding.carries arranges_canonical (details f member)))
    |>.arranged arranges_canonical (by decide)
      (by simp [arranges_canonical.ofList, arranges_canonical.float, ofFloat, finite,
        Function.comp_def]) "RunReport"

/-- A run of any protocol is given back by its document, as it is declared and as reports show
    it, and by both texts of these if it has no more levels than a text is read to. So it is by
    the report on it, with how far it came and what was found. -/
theorem read_from_document (reachable : Reachable p run) (writable : run.Writable) :
    (∀ document ∈ [run.toJson, run.toJson.canonical],
      (∀ depth, run.Shallow depth → ∀ place : Place, depth + 4 ≤ place.depth →
        decode place (.ofJson document) = .ok run) ∧
      ∀ text ∈ [document.compact, document.pretty],
        Json.decode decode text = .ok run ↔ run.Shallow (levels - 4)) ∧
    ∀ findings, (Report.runJson run findings).get? "run" = some run.toJson.canonical ∧
      (run.steps.length < Word.count 64 → (∀ f ∈ findings, f.Shallow (levels - 3)) →
        ∀ code, Json.decode RunReport.decode (Report.run code .json run findings).stdout =
          .ok ⟨run, run.progressPct, findings⟩ ↔ run.Shallow (levels - 5)) := by
  refine ⟨fun document isDocument => ?_, fun findings => ⟨?_, fun counted details code => ?_⟩⟩
  · have carries {depth : Nat} (shallow : run.Shallow depth) :
        Carries (depth + 4) decode document run := by
      simp only [List.mem_cons, List.not_mem_nil, or_false] at isDocument
      rcases isDocument with rfl | rfl
      · exact reachable.carries writable shallow arranges_id
      · exact reachable.carries writable shallow arranges_canonical
    refine ⟨fun depth shallow => (carries shallow).gives, fun text isText => ?_⟩
    refine ⟨decoded produces_decode, fun shallow => ?_⟩
    have carries := carries shallow
    simp only [List.mem_cons, List.not_mem_nil, or_false] at isText
    rcases isText with rfl | rfl
    · exact carries.decode_ok (source_compact carries.writable)
    · exact carries.decode_ok (source_pretty carries.writable)
  · rw [Report.runJson, canonical_object]
    simp [Dictionary.ofList, Json.get?, Dictionary.get?_insert_of_ne, Dictionary.get?_insert_self]
  · rw [Report.stdout_json]
    refine ⟨decoded RunReport.produces_decode, fun shallow => ?_⟩
    have carries := reachable.carries_runJson writable shallow counted details
    exact carries.decode_ok (source_pretty_line carries.writable)

/-- An illustration: a run that was aborted at its first step, with a value of each kind, data
    beside one of them, a review and a verdict. -/
def interrupted : TestRun :=
  ofTwoPhases.after [numbered .start, numbered (.startStep "inspect"),
    numbered (.record (.reading "power" 210)),
    numbered (.record (.observation "sky" (.text "clear"))),
    numbered (.record (.observation "sealed" (.boolean true))),
    numbered (.record { NewMeasurement.observation "cells" (.json .null) with
      metadata := [("lamp", .text "xenon")] }),
    numbered (.flag "reading-0" .suspect (some "drift")), numbered .evaluate,
    numbered (.abort "power cut")]

set_option maxRecDepth 1000 in
theorem interrupted_values : interrupted.values =
    [.numeric 210, .text "clear", .boolean true, .json .null] := by
  rw [interrupted, ofTwoPhases, ofTwoPhases_steps]
  rfl

set_option maxRecDepth 1000 in
theorem interrupted_metadata : interrupted.ledger.entries.map (·.metadata) =
    [[], [], [], [("lamp", .text "xenon")]] := by
  rw [interrupted, ofTwoPhases, ofTwoPhases_steps]
  rfl

theorem interrupted_outline :
    interrupted.parameters.isEmpty ∧ interrupted.reason = some "power cut" := by
  rw [interrupted, ofTwoPhases, ofTwoPhases_steps]
  decide +kernel

theorem default_writable : (default : Instant).Writable :=
  ⟨.of_below (by decide), by decide⟩

theorem interrupted_writable : interrupted.Writable := by
  have times : ∀ t ∈ interrupted.times, t = default := by
    rw [interrupted, ofTwoPhases, ofTwoPhases_steps]
    decide +kernel
  have sequences : ∀ s ∈ interrupted.steps, s.sequence < Word.count 32 := by
    rw [interrupted, ofTwoPhases, ofTwoPhases_steps]
    decide +kernel
  exact ⟨fun t member => times t member ▸ default_writable, sequences⟩

theorem interrupted_shallow : interrupted.Shallow 0 := by
  have data : ∀ d : Dictionary Json, d ∈ interrupted.ledger.entries.map (·.metadata) →
      Json.Storable 1 (.object d) := by
    rw [interrupted_metadata]
    intro d member
    simp only [List.mem_cons, List.not_mem_nil, or_false, or_self_left] at member
    rcases member with rfl | rfl
    · exact .empty
    · exact .object (List.pairwise_singleton _ _) (List.forall_mem_singleton.mpr (.text "xenon"))
  have json : ∀ v : Json, .json v ∈ interrupted.values → v.Storable 0 := by
    rw [interrupted_values]
    intro v member
    simp only [List.mem_cons, reduceCtorEq, List.not_mem_nil, or_false, false_or,
      MeasuredValue.json.injEq] at member
    subst member
    exact .null
  have reachable : Reachable .monitored interrupted := monitored_reachable _
  refine reachable.shallow (fun m member => ⟨fun v isJson => json v ?_, data _ ?_⟩) ?_
  · exact mem_values.mpr (.inl ⟨m, member, isJson⟩)
  · exact List.mem_map_of_mem member
  · rw [List.isEmpty_iff.mp interrupted_outline.1]
    exact nofun

theorem interrupted_read :
    Reachable .monitored interrupted ∧ interrupted.Writable ∧
      interrupted.reason = some "power cut" ∧
      Json.decode decode interrupted.toJson.pretty = .ok interrupted ∧
      Json.decode decode interrupted.toJson.canonical.pretty = .ok interrupted ∧
      Json.decode RunReport.decode (Report.run .ok .json interrupted []).stdout =
        .ok ⟨interrupted, interrupted.progressPct, []⟩ := by
  have reachable : Reachable .monitored interrupted := monitored_reachable _
  obtain ⟨documents, reports⟩ := read_from_document reachable interrupted_writable
  have read (document : Json) (isDocument) : Json.decode decode document.pretty = .ok interrupted :=
    ((documents document isDocument).2 document.pretty (by simp)).mpr
      (interrupted_shallow.mono (by decide))
  have counted : interrupted.steps.length < Word.count 64 := by
    rw [interrupted, ofTwoPhases, ofTwoPhases_steps]
    decide +kernel
  exact ⟨reachable, interrupted_writable, interrupted_outline.2, read _ (by simp),
    read _ (by simp),
    ((reports []).2 counted (List.forall_mem_nil _) .ok).mpr (interrupted_shallow.mono (by decide))⟩

/-- An illustration: a run that was aborted after a value of many levels was recorded. -/
def deep : TestRun :=
  ofTwoPhases.after [numbered .start, numbered (.startStep "inspect"),
    numbered (.record (.observation "power" (.json (nested 125)))),
    numbered (.abort "power cut")]

set_option maxRecDepth 1000 in
theorem deep_values : deep.ledger.entries.map (·.value) = [.json (nested 125)] := by
  rw [deep, ofTwoPhases, ofTwoPhases_steps]
  rfl

theorem deep_times : ∀ t ∈ deep.times, t = default := by
  rw [deep, ofTwoPhases, ofTwoPhases_steps]
  decide +kernel

theorem deep_writable : deep.Writable := by
  have sequences : ∀ s ∈ deep.steps, s.sequence < Word.count 32 := by
    rw [deep, ofTwoPhases, ofTwoPhases_steps]
    decide +kernel
  exact ⟨fun t member => deep_times t member ▸ default_writable, sequences⟩

theorem deep_terminal : deep.isTerminal := by
  rw [deep, ofTwoPhases, ofTwoPhases_steps]
  rfl

/-- No text gives back a run whose ledger holds a value of too many levels. -/
theorem deep_unread :
    Reachable .monitored deep ∧ deep.Writable ∧ deep.isTerminal ∧
      ∀ document ∈ [deep.toJson, deep.toJson.canonical],
        ∀ text ∈ [document.compact, document.pretty], Json.decode decode text ≠ .ok deep := by
  refine ⟨monitored_reachable _, deep_writable, deep_terminal, fun document _ text _ read => ?_⟩
  have shallow : deep.Shallow (levels - 4) := decoded produces_decode read
  obtain ⟨m, member, isJson⟩ := List.mem_map.mp (deep_values ▸ List.mem_singleton_self _)
  have less := storable_nested_iff.mp ((shallow.entries m member).value _ isJson)
  exact absurd less (by decide)

end TestRun

end Qualification
