import Qualification.Proofs.Command.Report
import Qualification.Proofs.Command.Run
import Qualification.Proofs.QualityControl.Document
import Qualification.Proofs.Run.Review
import Qualification.Proofs.Store.RoundTrip
import Qualification.Proofs.Store.Written

/-! # Reviewing a stored run

The request that flags a measurement of a stored run either stores the run as it is judged
with the new flag, and the findings on it, or fails and stores nothing.
-/

namespace Qualification

/-- An attempt whose failure is told by the exit code. -/
def Unusable {α : Type} (attempt : Except Output α) : Prop :=
  ∀ output, attempt = .error output → output.code = .unusable

section Unusable

variable {α β : Type} {attempt : Except Output α}

theorem unusable_ok (a : α) : Unusable (.ok a : Except Output α) :=
  nofun

theorem unusable_error {output : Output} (code : output.code = .unusable) :
    Unusable (.error output : Except Output α) := by
  intro _ same
  cases same
  exact code

theorem Unusable.bind {next : α → Except Output β} (h : Unusable attempt)
    (each : ∀ a, attempt = .ok a → Unusable (next a)) : Unusable (attempt >>= next) := by
  cases attempt with
  | error output => exact unusable_error (h output rfl)
  | ok a => exact each a rfl

theorem unusable_mapError {ε : Type} {tell : ε → Output} (codes : ∀ e, (tell e).code = .unusable)
    (answer : Except ε α) : Unusable (answer.mapError tell) := by
  cases answer with
  | error e => exact unusable_error (codes e)
  | ok a => exact unusable_ok a

end Unusable

namespace Workspace

open TestRun

variable {w : Workspace} {s : Store} {t : Tables} {run next : TestRun} {p : ProtocolDefinition}
  {findings : List QcFinding} {runId measurementId : String} {flag : QualityFlag}
  {notes protocol : Option String}

theorem openStore_unusable (w : Workspace) : Unusable w.openStore := by
  unfold openStore
  split
  · exact unusable_ok _
  · exact unusable_error rfl

theorem storedRun_unusable (s : Store) (runId : String) : Unusable (storedRun s runId) := by
  unfold storedRun
  split
  · exact unusable_error rfl
  · exact unusable_error rfl
  · exact unusable_ok _

theorem protocolFor_unusable (w : Workspace) (run : TestRun) (protocol : Option String) :
    Unusable (w.protocolFor run protocol) := by
  cases protocol with
  | some path => exact unusable_mapError (fun _ => rfl) _
  | none =>
      rw [protocolFor, protocolOf]
      split
      · exact unusable_error rfl
      · split
        · exact unusable_error rfl
        · split
          · exact unusable_ok _
          · exact unusable_error rfl

theorem reflag_unusable (w : Workspace) (runId measurementId : String) (flag : QualityFlag)
    (notes protocol : Option String) :
    Unusable (w.reflag runId measurementId flag notes protocol) := by
  refine (openStore_unusable w).bind fun s _ => ?_
  refine (storedRun_unusable s runId).bind fun run _ => ?_
  refine (protocolFor_unusable w run protocol).bind fun p _ => ?_
  refine (unusable_mapError (fun _ => rfl) _).bind fun flagged _ => ?_
  refine (unusable_mapError (fun _ => rfl) _).bind fun judged _ => ?_
  refine (unusable_mapError (fun _ => rfl) _).bind fun findings _ => ?_
  exact unusable_ok _

theorem storedRun_ok : storedRun s runId = .ok run ↔ s.loadRun runId = .ok (some run) := by
  unfold storedRun
  split <;> simp [*]

/-- The store takes a run that its tables admit, and the findings on it. -/
theorem saveVerdict_ok (tables : s.tables = some t) (admits : t.Admits run) :
    saveVerdict s run findings =
      (.ok (), ⟨some ((t.withRun run).withFindings run.id findings), s.checksRuns⟩) := by
  have saved : s.saveRun run = .ok ⟨some (t.withRun run), s.checksRuns⟩ :=
    (Store.write_ok (w := .run run)).mpr ⟨t, tables, admits, rfl⟩
  have row := Tables.run?_putRun_self (.ofRun run) t.runs
  have kept : (Store.mk (some (t.withRun run)) s.checksRuns).saveFindings run.id findings =
      .ok ⟨some ((t.withRun run).withFindings run.id findings), s.checksRuns⟩ :=
    (Store.write_ok (w := .findings run.id findings)).mpr
      ⟨_, rfl, fun _ _ => Option.isSome_of_eq_some row, rfl⟩
  simp only [saveVerdict, saved, kept]

/-- What a review asks for: the run is stored, its protocol is found and is the one that the
    run is bound to, and the measurement is one of the run. -/
structure Reviewable (w : Workspace) (s : Store) (runId measurementId : String)
    (protocol : Option String) (run : TestRun) (p : ProtocolDefinition) : Prop where
  loaded : s.loadRun runId = .ok (some run)
  protocol : w.protocolFor run protocol = .ok p
  bound : run.BoundTo p
  recorded : ∃ m ∈ run.ledger.entries, m.id = measurementId

/-- What a store keeps of a review. -/
structure Reviews (w : Workspace) (s : Store) (measurementId : String) (flag : QualityFlag)
    (notes : Option String) (run : TestRun) (p : ProtocolDefinition) (next : TestRun)
    (findings : List QcFinding) (kept : Store) : Prop where
  rejudged : run.Rejudged p measurementId flag notes next
  assessed : QcAssessment.assess next p w.configuration.qcDefaults = .ok findings
  tables : kept.tables = s.tables.map fun t => (t.withRun next).withFindings run.id findings
  /-- In the column of verdicts, values stand three levels deeper than in their own. -/
  loaded : (∀ e ∈ next.acceptance, e.Storable (Json.levels - 3)) →
    kept.loadRun run.id = .ok (some next)
  /-- A run whose verdicts have no room there is not loaded any more. -/
  shallow : kept.loadRun run.id = .ok (some next) →
    ∀ e ∈ next.acceptance, ∀ v, e.value = some v → v.Within (Json.levels - 3)
  loadedFindings : run.ledger.entries.length < Word.count 64 →
    QcAssessment.expectedCount p.measurementSpecs < Word.count 64 →
      kept.loadFindings run.id = .ok findings

/-- A review that is accepted is one of a run that can be reviewed. -/
theorem reviewable_of_ok {result : Result} (opened : w.openStore = .ok s)
    (accepted : w.reflag runId measurementId flag notes protocol = .ok result) :
    ∃ run p, w.Reviewable s runId measurementId protocol run p := by
  obtain ⟨s, opens, accepted⟩ := bind_ok accepted
  cases opened.symm.trans opens
  obtain ⟨run, stored, accepted⟩ := bind_ok accepted
  obtain ⟨p, found, accepted⟩ := bind_ok accepted
  obtain ⟨⟨m, marked⟩, flagged, accepted⟩ := bind_ok accepted
  obtain ⟨next, judged, _⟩ := bind_ok accepted
  have flagged := mapError_ok.mp flagged
  have bound := (evaluate_ok.mp (mapError_ok.mp judged)).1
  exact ⟨run, p, storedRun_ok.mp stored, found, (flag_bound flagged).mp bound,
    exists_flag_ok.mp ⟨m, marked, flagged⟩⟩

/-- What the store keeps when a loaded run is saved again after a review. -/
theorem reviews_of_rejudged (tables : s.tables = some t) (written : t.Written)
    (loaded : t.loadRun runId = .ok (some run))
    (rejudged : run.Rejudged p measurementId flag notes next)
    (assessed : QcAssessment.assess next p w.configuration.qcDefaults = .ok findings)
    (checksRuns : Bool) :
    w.Reviews s measurementId flag notes run p next findings
      ⟨some ((t.withRun next).withFindings run.id findings), checksRuns⟩ := by
  have reviewed := rejudged.reviewed
  have restored := (written.restored loaded).reviewed reviewed
  have id : next.id = run.id := by rw [reviewed.same]
  refine ⟨rejudged, assessed, by rw [tables]; rfl, fun verdicts => ?_,
    Store.loadRun_verdicts, fun counted planned => ?_⟩
  · rw [← id]
    exact restored.loaded verdicts t
  · have length : next.ledger.entries.length = run.ledger.entries.length :=
      reviewed.entries.length_eq.symm
    obtain ⟨_, rfl⟩ := QcAssessment.assess_ok.mp assessed
    exact Tables.loadFindings_withFindings_self
      (QcAssessment.findings_storable (length ▸ counted) planned _)

/-- A run that can be reviewed is reviewed, and stored with the findings on it. -/
theorem reflag_keeps (opened : w.openStore = .ok s) (tables : s.tables = some t)
    (written : t.Written) (h : w.Reviewable s runId measurementId protocol run p)
    (flag : QualityFlag) (notes : Option String) :
    ∃ next findings kept output,
      w.reflag runId measurementId flag notes protocol = .ok (output, some kept) ∧
        output.code = .ok ∧ w.Reviews s measurementId flag notes run p next findings kept := by
  have loaded : t.loadRun runId = .ok (some run) := by
    have load := h.loaded
    rwa [Store.loadRun, Store.requireTables_ok.mpr tables] at load
  have admits := written.admits loaded
  obtain ⟨m, marked, next, flagged, judged, rejudged⟩ :=
    exists_rejudged admits.measurements h.recorded h.bound flag notes
  obtain ⟨findings, assessed⟩ :
      ∃ findings, QcAssessment.assess next p w.configuration.qcDefaults = .ok findings :=
    ⟨_, QcAssessment.assess_ok.mpr ⟨evaluate_bound judged, rfl⟩⟩
  have id : next.id = run.id := by rw [rejudged.rest]
  have saved : saveVerdict s next findings =
      (.ok (), ⟨some ((t.withRun next).withFindings next.id findings), s.checksRuns⟩) :=
    saveVerdict_ok tables (admits.reviewed rejudged.reviewed)
  refine ⟨next, findings, _, .ofLines .ok [flagLine m next], ?_, rfl,
    reviews_of_rejudged tables written loaded rejudged assessed s.checksRuns⟩
  simp only [reflag, opened, storedRun_ok.mpr h.loaded, h.protocol, flagged, judged, assessment,
    assessed, saving, saved, id, Except.mapError, bind, Except.bind, pure, Except.pure]

/-- Whatever was written to the store before: a review succeeds just if its run, the protocol
    of the run and its measurement are there. It then stores the run as judged with the new
    flag, and the findings on it; and if it fails, it stores nothing. -/
theorem perform_reviews {ws : List Store.Write}
    (opened : w.openStore = .ok (Store.blank.init.afterAll ws))
    (proper : ∀ run ∈ Store.blank.init.savesAll ws, ∀ time ∈ run.times, time.Proper)
    (runId measurementId : String) (flag : QualityFlag) (notes protocol : Option String) :
    let s := Store.blank.init.afterAll ws
    let answer := w.perform (.flag runId measurementId flag notes protocol)
    (answer.1.code.number = 0 ↔ ∃ run p, w.Reviewable s runId measurementId protocol run p) ∧
    (answer.1.code.number ≠ 0 → answer.2 = none) ∧
    ∀ run p, w.Reviewable s runId measurementId protocol run p → ∃ next findings kept,
      answer.2 = some kept ∧ w.Reviews s measurementId flag notes run p next findings kept := by
  intro s answer
  obtain ⟨t, tables, written⟩ : ∃ t, s.tables = some t ∧ t.Written :=
    Store.afterAll_written rfl Tables.written_empty proper
  have kept : ∀ run p, w.Reviewable s runId measurementId protocol run p →
      answer.1.code = .ok ∧ ∃ next findings kept, answer.2 = some kept ∧
        w.Reviews s measurementId flag notes run p next findings kept := by
    intro run p reviewable
    obtain ⟨next, findings, kept, output, accepted, code, reviews⟩ :=
      reflag_keeps opened tables written reviewable flag notes
    have result : answer = (output, some kept) := by
      simp only [answer, perform, attempt, accepted]
    rw [result]
    exact ⟨code, next, findings, kept, rfl, reviews⟩
  cases attempted : w.reflag runId measurementId flag notes protocol with
  | ok result =>
      obtain ⟨run, p, reviewable⟩ := reviewable_of_ok opened attempted
      have zero : answer.1.code.number = 0 := congrArg ExitCode.number (kept run p reviewable).1
      exact ⟨iff_of_true zero ⟨run, p, reviewable⟩, fun other => absurd zero other,
        fun run p reviewable => (kept run p reviewable).2⟩
  | error output =>
      have result : answer = (output, none) := by
        simp only [answer, perform, attempt, attempted]
      have code := reflag_unusable w runId measurementId flag notes protocol output attempted
      have none : ¬ ∃ run p, w.Reviewable s runId measurementId protocol run p := by
        rintro ⟨run, p, reviewable⟩
        have success := (kept run p reviewable).1
        rw [result, code] at success
        cases success
      refine ⟨iff_of_false ?_ none, fun _ => by rw [result], fun run p reviewable => ?_⟩
      · rw [result, code]
        decide
      · exact absurd ⟨run, p, reviewable⟩ none

/-- An illustration: a run that was completed with a reading in its ledger. -/
def measuredRun : TestRun :=
  { skippedRun with ledger := ⟨[⟨"reading-1", "run-1", "power", .numeric 210, none, default, none,
      none, .duringTest, .good, none, []⟩]⟩ }

/-- An illustration: the bench after the run was stored. -/
def reviewBench : Workspace :=
  { bench with store := .ok ⟨some (Tables.empty.withRun measuredRun), true⟩ }

theorem measuredRun_admitted : Tables.empty.Admits measuredRun where
  phases := skippedRun_admitted.phases
  steps := skippedRun_admitted.steps
  measurements := List.nodup_singleton _
  unclaimed _ _ _ isRow := absurd isRow List.not_mem_nil
  readings := by
    have finite : (210 : Float).isFinite := by decide +kernel
    refine List.forall_mem_singleton.mpr fun x same => ?_
    cases same
    exact Binary64.not_isNaN finite

theorem measuredRun_saved : Store.blank.init.write (.run measuredRun) =
    .ok ⟨some (Tables.empty.withRun measuredRun), true⟩ :=
  Store.write_ok.mpr ⟨_, rfl, measuredRun_admitted, rfl⟩

theorem reviewBench_opened :
    reviewBench.openStore = .ok (Store.blank.init.afterAll [.run measuredRun]) := by
  have left : Store.blank.init.after (.run measuredRun) =
      ⟨some (Tables.empty.withRun measuredRun), true⟩ := by
    rw [Store.after, measuredRun_saved]
    rfl
  rw [Store.afterAll, List.foldl_cons, left]
  rfl

theorem measuredRun_times : ∀ time ∈ measuredRun.times, time = default := by
  rw [measuredRun, skippedRun, ofTwoPhases, ofTwoPhases_steps]
  decide +kernel

theorem measuredRun_proper :
    ∀ run ∈ Store.blank.init.savesAll [.run measuredRun], ∀ time ∈ run.times, time.Proper := by
  have saved : Store.blank.init.savesAll [.run measuredRun] = [measuredRun] := by
    simp only [Store.savesAll, Store.saves, measuredRun_saved, List.append_nil]
  rw [saved]
  refine List.forall_mem_singleton.mpr fun time member => ?_
  rw [measuredRun_times time member]
  exact default_plain.proper

theorem measuredRun_restored : measuredRun.Restored := by
  have plain : ∀ time ∈ measuredRun.times, time.Plain := fun time member =>
    measuredRun_times time member ▸ default_plain
  have finite : (210 : Float).isFinite := by decide +kernel
  have unsigned : (MeasuredValue.numeric 210).unsignedZero = .numeric 210 := by
    have nonzero : ((210 : Float) == 0.0) = false := by decide +kernel
    simp [MeasuredValue.unsignedZero, nonzero]
  constructor
  · exact plain _ (mem_times.mpr (.inl rfl))
  · exact fun time given => plain time (mem_times.mpr (by simp [given]))
  · exact fun time given => plain time (mem_times.mpr (by simp [given]))
  · exact empty_storable rfl
  · intro ph member
    have times (time : Instant) (given : time ∈ ph.times) : time.Plain :=
      plain time (mem_times.mpr (by grind))
    exact ⟨fun time given => times time (by simp [PhaseRecord.times, given]),
      fun time given => times time (by simp [PhaseRecord.times, given])⟩
  · intro step member
    have times (time : Instant) (given : time ∈ step.times) : time.Plain :=
      plain time (mem_times.mpr (by grind))
    exact ⟨fun time given => times time (by simp [StepRecord.times, given]),
      fun time given => times time (by simp [StepRecord.times, given])⟩
  · have stored : (MeasuredValue.numeric 210).Stored := by
      constructor
      · exact unsigned
      · intro x same
        cases same
        exact Binary64.not_isNaN finite
      · intro v same
        cases same
    exact List.forall_mem_singleton.mpr ⟨stored, default_plain, empty_storable rfl⟩
  · exact List.forall_mem_singleton.mpr rfl

theorem measuredRun_reviewable : reviewBench.Reviewable
    (Store.blank.init.afterAll [.run measuredRun]) "run-1" "reading-1" (some "uv.json")
      measuredRun (.revision "1.0.0") := by
  refine ⟨?_, bench_loaded, ⟨rfl, rfl⟩, _, List.mem_singleton_self _, rfl⟩
  have opened := Except.ok.inj reviewBench_opened
  rw [← opened]
  exact measuredRun_restored.loaded (fun _ member => absurd member List.not_mem_nil) .empty

/-- A reading is found bad after the run was completed: the run is stored with its new flag. -/
theorem measuredRun_reviewed :
    reviewBench.openStore = .ok (Store.blank.init.afterAll [.run measuredRun]) ∧
    (∀ run ∈ Store.blank.init.savesAll [.run measuredRun], ∀ time ∈ run.times, time.Proper) ∧
    reviewBench.Reviewable (Store.blank.init.afterAll [.run measuredRun]) "run-1" "reading-1"
      (some "uv.json") measuredRun (.revision "1.0.0") ∧
    let answer := reviewBench.perform
      (.flag "run-1" "reading-1" .bad (some "lamp off") (some "uv.json"))
    answer.1.code.number = 0 ∧ ∃ next findings kept, answer.2 = some kept ∧
      reviewBench.Reviews (Store.blank.init.afterAll [.run measuredRun]) "reading-1" .bad
        (some "lamp off") measuredRun (.revision "1.0.0") next findings kept := by
  obtain ⟨succeeds, _, kept⟩ := perform_reviews reviewBench_opened measuredRun_proper "run-1"
    "reading-1" .bad (some "lamp off") (some "uv.json")
  exact ⟨reviewBench_opened, measuredRun_proper, measuredRun_reviewable,
    succeeds.mpr ⟨_, _, measuredRun_reviewable⟩, kept _ _ measuredRun_reviewable⟩

/-- An illustration: what is found after the run with a value of many levels was stored. -/
def deepBench : Workspace :=
  { bench with
    files := .ofAnswers [("uv.json", .ok ProtocolDefinition.monitored.toJson.compact)] []
    store := .ok ⟨some (Tables.empty.withRun deep), true⟩ }

theorem monitored_writable : ProtocolDefinition.monitored.Writable :=
  { ProtocolDefinition.revision_writable "1.0.0" with
    criteria := List.forall_mem_singleton.mpr (by decide : (200 : Float).isFinite)
    limitNames := by
      have names : ProtocolDefinition.monitored.safetyLimits.keys = ["humidity", "temperature"] :=
        rfl
      rw [Dictionary.Sorted, names]
      decide
    limits := by decide }

theorem deepBench_loaded : deepBench.protocolAt "uv.json" = .ok .monitored := by
  rw [protocolAt, ProtocolCache.loadFile_printed monitored_valid monitored_writable rfl rfl rfl]
  rfl

theorem deep_outline : deep.id = "run-1" ∧ deep.parameters.isEmpty ∧
    deep.acceptance.isEmpty ∧ (∀ m ∈ deep.ledger.entries, m.metadata.isEmpty) ∧
      deep.ledger.entries.map (·.id) = ["reading-0"] ∧
        deep.ledger.entries.map (·.parameter) = ["power"] := by
  rw [deep, ofTwoPhases, ofTwoPhases_steps]
  decide +kernel

theorem deep_value {m : Measurement} (member : m ∈ deep.ledger.entries) :
    m.value = .json (Json.nested 125) :=
  List.mem_singleton.mp (deep_values ▸ List.mem_map_of_mem member)

theorem deep_admitted : Tables.empty.Admits deep := by
  obtain ⟨_, _, _, _, ids, _⟩ := deep_outline
  have reachable : Reachable .monitored deep := monitored_reachable _
  exact reachable.admits monitored_valid
    ⟨ids ▸ List.nodup_singleton _, fun _ _ _ isRow => absurd isRow List.not_mem_nil⟩

theorem deep_documented : deep.Documented := by
  obtain ⟨_, parameters, acceptance, metadata, _⟩ := deep_outline
  refine ⟨empty_storable parameters, fun m member v isJson => ?_,
    fun m member => empty_storable (metadata m member), ?_⟩
  · obtain rfl : v = _ := MeasuredValue.json.inj (isJson.symm.trans (deep_value member))
    exact Json.storable_nested_iff.mpr (by decide)
  · rw [List.isEmpty_iff.mp acceptance]
    exact nofun

theorem deep_loaded : (Tables.empty.withRun deep).loadRun deep.id = .ok (some deep) := by
  have reachable : Reachable .monitored deep := monitored_reachable _
  have timed : deep.Timed := timed_of_times fun t member => deep_times t member ▸ default_plain
  have unsigned : deep.unsignedZeros = deep := unsignedZeros_eq_self fun m member => by
    rw [deep_value member]
    rfl
  have loaded := Tables.loadRun_withRun_self (t := .empty)
    (reachable.storable timed deep_documented) fun m member =>
      (reachable.attributed m member).1.runId
  rwa [unsigned] at loaded

theorem deep_saved : Store.blank.init.write (.run deep) =
    .ok ⟨some (Tables.empty.withRun deep), true⟩ :=
  Store.write_ok.mpr ⟨_, rfl, deep_admitted, rfl⟩

theorem deepBench_opened :
    deepBench.openStore = .ok (Store.blank.init.afterAll [.run deep]) := by
  have left : Store.blank.init.after (.run deep) = ⟨some (Tables.empty.withRun deep), true⟩ := by
    rw [Store.after, deep_saved]
    rfl
  rw [Store.afterAll, List.foldl_cons, left]
  rfl

theorem deep_reviewable : deepBench.Reviewable (Store.blank.init.afterAll [.run deep]) "run-1"
    "reading-0" (some "uv.json") deep .monitored := by
  obtain ⟨id, _, _, _, ids, _⟩ := deep_outline
  have reachable : Reachable .monitored deep := monitored_reachable _
  refine ⟨?_, deepBench_loaded, reachable.bound, ?_⟩
  · have opened := Except.ok.inj deepBench_opened
    rw [← opened, ← id]
    exact deep_loaded
  · exact List.mem_map.mp (ids ▸ List.mem_singleton_self _)

/-- The verdict of a review is on the value that was recorded. -/
theorem deep_verdict {next : TestRun}
    (rejudged : deep.Rejudged .monitored "reading-0" .suspect none next) :
    ∃ e ∈ next.acceptance, e.value = some (.json (Json.nested 125)) := by
  obtain ⟨earlier, m, later, split, _, _, changed⟩ := rejudged.entries
  obtain ⟨rfl, named, rfl⟩ : earlier = [] ∧ m.parameter = "power" ∧ later = [] := by
    have parameters := deep_outline.2.2.2.2.2
    rw [split, List.map_append, List.map_cons, List.append_eq_singleton_iff] at parameters
    simpa using parameters
  have recorded : m.value = .json (Json.nested 125) :=
    deep_value (split ▸ List.mem_singleton_self m)
  have value : Acceptance.valueOf? next.ledger deep.parameters "power" =
      some (.json (Json.nested 125)) := by
    simp [Acceptance.valueOf?, Ledger.latest?, Ledger.usable, changed, named, recorded,
      Measurement.isUsable, QualityFlag.isUsable]
  rw [rejudged.acceptance]
  refine ⟨_, List.mem_singleton_self _, ?_⟩
  simp only [Acceptance.evaluateOne, value]

/-- A measurement is reviewed, and the run is lost: the verdict on its value stands too deep in
    its column. -/
theorem deep_review_lost :
    Reachable .monitored deep ∧
    deepBench.openStore = .ok (Store.blank.init.afterAll [.run deep]) ∧
    deepBench.Reviewable (Store.blank.init.afterAll [.run deep]) "run-1" "reading-0"
      (some "uv.json") deep .monitored ∧
    let answer := deepBench.perform (.flag "run-1" "reading-0" .suspect none (some "uv.json"))
    answer.1.code.number = 0 ∧ ∃ kept, answer.2 = some kept ∧
      ∀ next, deep.Rejudged .monitored "reading-0" .suspect none next →
        kept.loadRun "run-1" ≠ .ok (some next) := by
  have tables : (Store.blank.init.afterAll [.run deep]).tables =
      some (Tables.empty.withRun deep) := by
    rw [← Except.ok.inj deepBench_opened]
    rfl
  have written : (Tables.empty.withRun deep).Written :=
    Tables.written_empty.withRun deep_admitted fun t member =>
      deep_times t member ▸ default_plain.proper
  obtain ⟨_, _, kept, output, accepted, code, _⟩ :=
    reflag_keeps deepBench_opened tables written deep_reviewable .suspect none
  have result : deepBench.perform (.flag "run-1" "reading-0" .suspect none (some "uv.json")) =
      (output, some kept) := by
    simp only [perform, attempt, accepted]
  refine ⟨monitored_reachable _, deepBench_opened, deep_reviewable, ?_⟩
  rw [result]
  refine ⟨congrArg ExitCode.number code, kept, rfl, fun next rejudged loaded => ?_⟩
  obtain ⟨e, member, isValue⟩ := deep_verdict rejudged
  have shallow := Store.loadRun_verdicts loaded e member _ isValue
  have less := Json.storable_nested_iff.mp (shallow _ rfl)
  exact absurd less (by decide)

end Workspace
end Qualification
