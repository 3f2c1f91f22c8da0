import Qualification.Command.Execution
import Qualification.Proofs.Acceptance.Verdict
import Qualification.Proofs.Command.Report
import Qualification.Proofs.Protocol.Loading
import Qualification.Proofs.QualityControl.Trust
import Qualification.Proofs.Session.Reading
import Qualification.Proofs.Store.Frame
import Qualification.Proofs.Store.RoundTrip

/-! # Conducting a run

The request that conducts a run goes through its session, assesses the run that comes of it,
stores both, and tells by its exit code whether anything stands against the run. What it
stores is loaded again, and what it prints can be read: a session is a text, so that its data
have few enough levels for the columns of the store and for the document of a report.
-/

namespace Qualification

theorem Severity.max_blocking (a b : Severity) :
    (a.max b).isBlocking ↔ a.isBlocking ∨ b.isBlocking := by
  cases a <;> cases b <;> decide

theorem Severity.foldl_blocking (a : Severity) (severities : List Severity) :
    (severities.foldl max a).isBlocking ↔
      a.isBlocking ∨ ∃ s ∈ severities, s.isBlocking := by
  induction severities generalizing a with
  | nil => simp
  | cons s rest ih => simp [ih, max_blocking, or_assoc]

/-- The worst severity is blocking just if there is a blocking one. -/
theorem Severity.worst?_blocking (severities : List Severity) :
    (worst? severities).any isBlocking ↔ ∃ s ∈ severities, s.isBlocking := by
  cases severities with
  | nil => simp [worst?]
  | cons s rest => simp [worst?, foldl_blocking]

namespace Workspace

variable {w : Workspace} {order : RunOrder} {format : OutputFormat} {path : String}
  {p : ProtocolDefinition} {session : Session} {parameters : Dictionary Json}
  {run created : TestRun} {findings : List QcFinding} {s : Store}

theorem hasBlocking_iff : hasBlocking findings ↔
    ∃ f ∈ findings, ¬ f.passed ∧ (f.severity = .error ∨ f.severity = .critical) := by
  rw [hasBlocking, QcFinding.worst?, Severity.worst?_blocking]
  simp [Acceptance.severity_blocking, and_assoc]

/-- Nothing stands against a run: it is completed and not failed, and no finding of weight
    is open. -/
structure Passes (run : TestRun) (findings : List QcFinding) : Prop where
  completed : run.status = .completed
  notFailed : run.result ≠ .fail
  sound : ∀ f ∈ findings, ¬ f.passed → f.severity ≠ .error ∧ f.severity ≠ .critical

theorem runCode_ok : runCode run findings = .ok ↔ Passes run findings := by
  have sound : ¬ hasBlocking findings ↔
      ∀ f ∈ findings, ¬ f.passed → f.severity ≠ .error ∧ f.severity ≠ .critical := by
    simp only [hasBlocking_iff, not_exists, not_and, not_or]
  unfold runCode
  split
  · rename_i stands
    refine iff_of_false nofun fun passes => ?_
    rcases stands with open_ | failed | blocking
    · exact open_ passes.completed
    · exact passes.notFailed failed
    · exact sound.mpr passes.sound blocking
  · rename_i clear
    rw [not_or, not_or, not_not] at clear
    exact iff_of_true rfl ⟨clear.1, clear.2.1, sound.mp clear.2.2⟩

theorem runCode_objected (h : ¬ Passes run findings) : runCode run findings = .testFailed := by
  have stands := mt runCode_ok.mp h
  unfold runCode at stands ⊢
  split
  · rfl
  · rename_i clear
    simp [clear] at stands

/-- All that is counted of a run fits a word. -/
structure Counted (p : ProtocolDefinition) (run : TestRun) : Prop where
  steps : run.steps.length < Word.count 64
  entries : run.ledger.entries.length < Word.count 64
  planned : QcAssessment.expectedCount p.measurementSpecs < Word.count 64

theorem Counted.findings_shallow (h : Counted p run) {settings : QcSettings}
    (assessed : QcAssessment.assess run p settings = .ok findings) :
    ∀ f ∈ findings, f.Shallow 2 := by
  obtain ⟨_, rfl⟩ := QcAssessment.assess_ok.mp assessed
  exact QcAssessment.findings_shallow h.entries h.planned _

/-- What a request prints about a run, and its exit code. -/
structure Reports (format : OutputFormat) (p : ProtocolDefinition) (run : TestRun)
    (findings : List QcFinding) (output : Output) : Prop where
  printed : output = Report.run output.code format run findings
  quiet : output.stderr = ""
  told : format = .text → Report.Tells run findings output.stdout
  /-- The document is read back as long as the clock shows years of the calendar. -/
  document : format = .json → Counted p run → (∀ time ∈ run.times, time.Writable) →
    Json.decode RunReport.decode output.stdout = .ok ⟨run, run.progressPct, findings⟩
  passed : Passes run findings → output.code.number = 0
  objected : ¬ Passes run findings → output.code.number = 1

theorem run_reports (fed : run.Fed (Json.levels - 5) p) {settings : QcSettings}
    (assessed : QcAssessment.assess run p settings = .ok findings) (format : OutputFormat) :
    Reports format p run findings
      (Report.run (runCode run findings) format run findings) := by
  have code : (Report.run (runCode run findings) format run findings).code =
      runCode run findings := by
    cases format <;> rfl
  refine ⟨by rw [code], by cases format <;> rfl, ?_, ?_, fun passes => ?_, fun objected => ?_⟩
  · rintro rfl
    exact Report.runLines_tells run findings
  · rintro rfl counted times
    rw [Report.stdout_json]
    have details := counted.findings_shallow assessed
    have carries := fed.reachable.carries_runJson ⟨times, fed.sequences⟩ fed.shallow
      counted.steps fun f member => (details f member).mono (by decide)
    exact carries.decode_ok (Json.source_pretty_line carries.writable)
  · rw [code, runCode_ok.mpr passes]
    rfl
  · rw [code, runCode_objected objected]
    rfl

/-- What a store keeps of a run and of the findings on it. -/
structure Keeps (s : Store) (p : ProtocolDefinition) (run : TestRun)
    (findings : List QcFinding) (kept : Store) : Prop where
  tables : kept.tables = s.tables.map fun t => (t.withRun run).withFindings run.id findings
  outcome : ∃ row, (kept.tables.bind fun t => t.run? run.id) = some row ∧
    RunStatus.ofText? row.status = some run.status ∧
      TestResult.ofText? row.result = some run.result ∧ row.reason = run.reason
  /-- The run is loaded as it was, but for the sign of a zero, as long as its times have
      years of four digits. -/
  loaded : run.Timed →
    kept.loadRun run.id = .ok (some run.unsignedZeros) ∧ run.unsignedZeros == run
  loadedFindings : Counted p run → kept.loadFindings run.id = .ok findings

theorem saved_keeps (fed : run.Fed (Json.levels - 5) p) {settings : QcSettings}
    (assessed : QcAssessment.assess run p settings = .ok findings) {saved kept : Store}
    (save : s.saveRun run = .ok saved) (keep : saved.saveFindings run.id findings = .ok kept) :
    Keeps s p run findings kept := by
  obtain ⟨t, tables, _, rfl⟩ := (Store.write_ok (w := .run run)).mp save
  obtain ⟨_, ⟨⟩, _, rfl⟩ := (Store.write_ok (w := .findings run.id findings)).mp keep
  have row : (t.withRun run).run? run.id = some (.ofRun run) :=
    Tables.run?_putRun_self (.ofRun run) t.runs
  refine ⟨by rw [tables]; rfl, ⟨.ofRun run, row, run.status.ofText_text, run.result.ofText_text,
    rfl⟩, fun timed => ?_, fun counted => ?_⟩
  · have documented : run.Documented := (fed.shallow.mono (by decide)).documented
    have storable := fed.reachable.storable timed documented
    refine ⟨?_, TestRun.unsignedZeros_beq storable⟩
    exact Tables.loadRun_withRun_self storable
      fun m member => (fed.reachable.attributed m member).1.runId
  · exact Tables.loadFindings_withFindings_self fun f member =>
      (counted.findings_shallow assessed f member).storable (by decide)

theorem protocolAt_parsed (h : w.protocolAt path = .ok p) :
    ∃ format text, ProtocolDefinition.parse format text = .ok p := by
  rw [protocolAt] at h
  cases load : ProtocolCache.empty.loadFile w.files path with
  | mk answer next =>
      rw [load] at h
      cases answer with
      | error e => cases h
      | ok q =>
          cases h
          obtain ⟨text, _, loaded⟩ := ProtocolCache.loadFile_ok load
          cases loaded with
          | held _ found => cases found
          | new parsed _ => exact ⟨_, text, parsed⟩

theorem sessionOf_shallow (h : w.sessionOf order = .ok (session, parameters)) :
    session.Shallow (Json.levels - 5) ∧ ∀ e ∈ parameters, e.2.Writable := by
  obtain ⟨loaded, load, h⟩ := bind_ok h
  obtain ⟨_, overridden, same⟩ := bind_ok h
  cases same
  unfold Session.load at load
  split at load
  · cases load
  · have shallow : session.Shallow (Json.levels - 5) :=
      Json.decoded Session.produces_decode (mapError_ok.mp load)
    exact ⟨shallow, Session.overridden_writable shallow.parameters overridden⟩

/-- What conducting a run comes to: how the run ends, what is found on it, and what is
    answered and kept if the store takes both. -/
def Conducts (w : Workspace) (order : RunOrder) (format : OutputFormat) (p : ProtocolDefinition)
    (parameters : Dictionary Json) (steps : List SessionStep) (created : TestRun) (s : Store) :
    Prop :=
  ∃ started run findings,
    Session.execute w.surroundings w.runId p order.specimen order.operator parameters steps =
      .ok run ∧
    created.start (w.surroundings.clock 1) = .ok started ∧
    TestRun.Conducted p (w.surroundings.later 2) started steps run ∧
    QcAssessment.assess run p w.configuration.qcDefaults = .ok findings ∧
    ∀ saved kept, s.saveRun run = .ok saved → saved.saveFindings run.id findings = .ok kept →
      ∃ output, w.perform (.run order format) = (output, some kept) ∧
        Reports format p run findings output ∧ Keeps s p run findings kept

/-- A run that can be created is conducted to its end, assessed, stored and reported. -/
theorem perform_conducts (loaded : w.protocolAt order.protocol = .ok p)
    (scripted : w.sessionOf order = .ok (session, parameters))
    (create : TestRun.create w.runId (w.surroundings.clock 0) p order.specimen order.operator
      parameters = .ok created)
    (opened : w.openStore = .ok s) :
    w.Conducts order format p parameters session.steps created s := by
  obtain ⟨_, _, parsed⟩ := protocolAt_parsed loaded
  have valid := ProtocolDefinition.parse_valid parsed
  obtain ⟨started, run, start, executed, bound, conducted⟩ :=
    Session.execute_conducted valid create session.steps
  obtain ⟨findings, assessed⟩ :
      ∃ findings, QcAssessment.assess run p w.configuration.qcDefaults = .ok findings :=
    ⟨_, QcAssessment.assess_ok.mpr ⟨bound, rfl⟩⟩
  obtain ⟨shallow, given⟩ := sessionOf_shallow scripted
  have fed : run.Fed (Json.levels - 5) p :=
    Session.execute_fed valid (ProtocolDefinition.parse_held parsed) shallow given executed
  refine ⟨started, run, findings, executed, start, conducted, assessed,
    fun saved kept save keep => ?_⟩
  refine ⟨Report.run (runCode run findings) format run findings, ?_,
    run_reports fed assessed format, saved_keeps fed assessed save keep⟩
  simp [perform, attempt, execute, loaded, scripted, executed, assessment, assessed, opened,
    saving, saveVerdict, save, keep, Except.mapError, bind, Except.bind, pure, Except.pure]

open TestRun

/-- An illustration: a session as it is written in a file. -/
def skippingDocument : Json :=
  .object [("steps", .array (["inspect", "mount", "irradiate"].map fun id =>
    .object [("step_id", .text id), ("skip", .bool true)]))]

def skipping : Session where
  parameters := []
  steps := ["inspect", "mount", "irradiate"].map fun id =>
    ⟨id, { StepInputs.none with skip := true }⟩

/-- An illustration: what is found with nothing stored yet. -/
def bench : Workspace where
  files := .ofAnswers [("uv.json", .ok (ProtocolDefinition.revisionText "1.0.0")),
    ("session.json", .ok skippingDocument.compact)] []
  configuration := .default
  store := .ok .blank
  runId := "run-1"
  surroundings := ⟨fun _ => default, fun _ => "reading-1"⟩

def benchOrder : RunOrder :=
  ⟨"uv.json", "cell-7", "night shift", "session.json", []⟩

/-- An illustration: the run that comes of it. -/
def skippedRun : TestRun :=
  { ofTwoPhases with
    status := .completed
    startedAt := some default
    completedAt := some default
    phases := ofTwoPhases.phases.map fun ph => left default (entered default ph)
    steps := ofTwoPhases.steps.map fun s => finished default .skipped none (begun default s) }

theorem bench_loaded : bench.protocolAt benchOrder.protocol = .ok (.revision "1.0.0") := by
  have valid : Version.isValid "1.0.0" := by decide +kernel
  rw [protocolAt, ProtocolCache.loadFile_revision valid rfl rfl rfl]
  rfl

theorem bench_scripted : bench.sessionOf benchOrder = .ok (skipping, []) := by
  have writable : skippingDocument.Writable := by
    simp [skippingDocument]
    exact .bool true
  have read : bench.files.read benchOrder.session = .ok skippingDocument.compact := rfl
  have decoded : Session.decode (Document.Place.root .json) (.ofJson skippingDocument) =
      .ok skipping := rfl
  simp [sessionOf, Session.load, read, Json.decode, Json.source_compact writable,
    Document.Source.decode, decoded, Document.Decoder.close, Except.mapError, bind, Except.bind,
    pure, Except.pure]
  rfl

theorem bench_created : create bench.runId (bench.surroundings.clock 0) (.revision "1.0.0")
    benchOrder.specimen benchOrder.operator [] = .ok ofTwoPhases := rfl

theorem bench_executed : Session.execute bench.surroundings bench.runId (.revision "1.0.0")
    benchOrder.specimen benchOrder.operator [] skipping.steps = .ok skippedRun := by
  rw [Session.execute, bench_created, skippedRun, ofTwoPhases, ofTwoPhases_steps]
  rfl

theorem skippedRun_admitted : Tables.empty.Admits skippedRun := by
  have steps : skippedRun.steps.map (·.stepId) = ["inspect", "mount", "irradiate"] := by
    rw [skippedRun, ofTwoPhases, ofTwoPhases_steps]
    rfl
  have phases : skippedRun.phases.map (·.phaseId) = ["prepare", "expose"] := rfl
  have entries : skippedRun.ledger.entries = [] := rfl
  refine ⟨?_, ?_, by simp [entries], by simp [entries], by simp [entries]⟩
  · rw [phases]
    decide
  · rw [steps]
    decide

theorem skippedRun_saved (findings : List QcFinding) : ∃ saved kept,
    Store.blank.init.saveRun skippedRun = .ok saved ∧
      saved.saveFindings skippedRun.id findings = .ok kept := by
  have saved := Tables.saveRun_ok.mpr ⟨skippedRun_admitted, rfl⟩
  have stored := Tables.run?_putRun_self (.ofRun skippedRun) []
  have kept : (Tables.empty.withRun skippedRun).saveFindings true skippedRun.id findings =
      .ok ((Tables.empty.withRun skippedRun).withFindings skippedRun.id findings) :=
    Tables.saveFindings_ok.mpr ⟨fun _ _ => Option.isSome_of_eq_some stored, rfl⟩
  refine ⟨⟨some (Tables.empty.withRun skippedRun), true⟩,
    ⟨some ((Tables.empty.withRun skippedRun).withFindings skippedRun.id findings), true⟩, ?_, ?_⟩
  · simp [Store.saveRun, Store.blank, Store.init, Store.requireTables, saved, bind, Except.bind,
      pure, Except.pure]
  · simp [Store.saveFindings, Store.requireTables, kept, bind, Except.bind, pure, Except.pure]

theorem skippedRun_times : ∀ time ∈ skippedRun.times, time = default := by
  rw [skippedRun, ofTwoPhases, ofTwoPhases_steps]
  decide +kernel

theorem skippedRun_counted : Counted (.revision "1.0.0") skippedRun := by
  have steps : skippedRun.steps.length < Word.count 64 := by
    rw [skippedRun, ofTwoPhases, ofTwoPhases_steps]
    decide +kernel
  exact ⟨steps, by decide, by decide⟩

theorem bench_conducts :
    bench.protocolAt benchOrder.protocol = .ok (.revision "1.0.0") ∧
      bench.sessionOf benchOrder = .ok (skipping, []) ∧
      create bench.runId (bench.surroundings.clock 0) (.revision "1.0.0") benchOrder.specimen
        benchOrder.operator [] = .ok ofTwoPhases ∧
      bench.openStore = .ok Store.blank.init ∧
      (∀ format, bench.Conducts benchOrder format (.revision "1.0.0") [] skipping.steps
        ofTwoPhases Store.blank.init) ∧
      Session.execute bench.surroundings bench.runId (.revision "1.0.0") benchOrder.specimen
        benchOrder.operator [] skipping.steps = .ok skippedRun ∧
      skippedRun.Timed ∧ (∀ time ∈ skippedRun.times, time.Writable) ∧
      Counted (.revision "1.0.0") skippedRun ∧
      ∀ findings, ∃ saved kept, Store.blank.init.saveRun skippedRun = .ok saved ∧
        saved.saveFindings skippedRun.id findings = .ok kept :=
  ⟨bench_loaded, bench_scripted, bench_created, rfl,
    fun _ => perform_conducts bench_loaded bench_scripted bench_created rfl, bench_executed,
    timed_of_times fun time member => skippedRun_times time member ▸ default_plain,
    fun time member => skippedRun_times time member ▸ default_writable, skippedRun_counted,
    skippedRun_saved⟩

end Workspace
end Qualification
