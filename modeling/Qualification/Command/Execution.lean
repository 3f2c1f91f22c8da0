import Qualification.Command.Arguments
import Qualification.Command.Report
import Qualification.Configuration
import Qualification.Protocol.Loading
import Qualification.QualityControl.Assessment
import Qualification.Session.Execution
import Qualification.Store.File

/-! # Executing a request

A request is a function of what it finds: files, the store and the surroundings. It
answers with an output and, if it changed the store, with the store to keep.
-/

namespace Qualification

/-- What a command finds. -/
structure Workspace where
  files : FileView
  configuration : Configuration
  store : Except StoreFault Store
  runId : String
  /-- The clock, and identities for its measurements. -/
  surroundings : Surroundings

/-- What a request comes to: its output, and the store if it is to be kept. -/
abbrev Result := Output × Option Store

namespace Configuration

/-- The file of the configuration when none is named. -/
def defaultFile : String := "qualify.yaml"

/-- The file to read: the one that is named, else the default one if it is there. -/
def file? (files : FileView) (explicit : Option String) : Option String :=
  explicit.or (if files.isFile defaultFile then some defaultFile else none)

/-- A configuration that cannot be used, as a finding. -/
def fault (path : String) (e : ConfigurationError) : Diagnostic where
  code := "E_CFG_PARSE"
  severity := "error"
  source := "config"
  message := "Failed to load config: " ++ e.message
  context := .object [("file", .text path)]
  fixSteps := []

def resolve (files : FileView) (explicit : Option String) : Except Diagnostic Configuration :=
  match file? files explicit with
  | none => .ok default
  | some path => (load files path).mapError (fault path)

end Configuration

/-- The file of the store that a request works on. -/
def Request.databasePath (r : Request) (c : Configuration) : String :=
  r.database.getD c.database

def Command.folders (command : Command) (c : Configuration) : List String :=
  if command.looksUp then c.protocolsFolder.toList else []

namespace Workspace

def openStore (w : Workspace) : Except Output Store :=
  match w.store with
  | .ok s => .ok s.init
  | .error f => .error (.fatal f.message)

/-- The failure of the store as an output. -/
def storeFailure (e : StoreError) : Output :=
  .fatal (e.message?.getD "storage failure")

def storedRun (s : Store) (runId : String) : Except Output TestRun :=
  match s.loadRun runId with
  | .error e => .error (storeFailure e)
  | .ok none => .error (.refused ("run '" ++ runId ++ "' not found"))
  | .ok (some run) => .ok run

def protocolAt (w : Workspace) (path : String) : Except Output ProtocolDefinition :=
  ((ProtocolCache.empty.loadFile w.files path).1).mapError fun e => .rejected e.diagnostic

/-- The protocol of a run among all those of the configured folder. -/
def protocolOf (w : Workspace) (run : TestRun) : Except Output ProtocolDefinition :=
  match w.configuration.protocolsFolder with
  | none => .error (.refused "no --protocol given and no protocols_dir configured")
  | some folder =>
      match ProtocolCache.empty.loadFolder w.files folder with
      | (.error e, _) => .error (.rejected e.diagnostic)
      | (.ok _, cache) => match cache.get? run.key with
          | some p => .ok p
          | none => .error (.refused
              ("protocol " ++ run.key.display ++ " not found in " ++ folder))

/-- The protocol for a stored run: the one that is named, else that of the configured
    folder. -/
def protocolFor (w : Workspace) (run : TestRun) : Option String → Except Output ProtocolDefinition
  | some path => w.protocolAt path
  | none => w.protocolOf run

/-- Save a run and the findings on it. -/
def saveVerdict (s : Store) (run : TestRun) (findings : List QcFinding) :
    Except StoreError Unit × Store :=
  match s.saveRun run with
  | .error e => (.error e, s)
  | .ok saved => match saved.saveFindings run.id findings with
      | .error e => (.error e, saved)
      | .ok kept => (.ok (), kept)

/-- An output after a run and the findings on it are saved. -/
def saving (s : Store) (run : TestRun) (findings : List QcFinding) (output : Output) : Result :=
  match saveVerdict s run findings with
  | (.ok (), kept) => (output, some kept)
  | (.error e, kept) => (storeFailure e, some kept)

def hasBlocking (findings : List QcFinding) : Bool :=
  (QcFinding.worst? findings).any Severity.isBlocking

def runCode (run : TestRun) (findings : List QcFinding) : ExitCode :=
  if run.status ≠ .completed ∨ run.result = .fail ∨ hasBlocking findings then .testFailed
  else .ok

/-- The findings on a run by the protocol that it is bound to. -/
def assessment (w : Workspace) (run : TestRun) (p : ProtocolDefinition) :
    Except EngineError (List QcFinding) :=
  QcAssessment.assess run p w.configuration.qcDefaults

def validate (w : Workspace) (path : String) (format : OutputFormat) : Output :=
  match ProtocolCache.empty.loadFile w.files path with
  | (.error e, _) => Report.validation path format none [e.diagnostic]
  | (.ok p, cache) =>
      Report.validation path format ((cache.entry? p.key).map fun e => (p, e.digest))
        (p.lint ++ HandlerSet.all.lint p)

/-- The session of an order, with its parameters. -/
def sessionOf (w : Workspace) (order : RunOrder) :
    Except SessionError (Session × Dictionary Json) := do
  let session ← Session.load w.files order.session
  return (session, ← session.overridden order.overrides)

/-- Execute a session. The run, whatever became of it, is stored with its findings. -/
def execute (w : Workspace) (order : RunOrder) (format : OutputFormat) : Except Output Result := do
  let p ← w.protocolAt order.protocol
  let (session, parameters) ← (w.sessionOf order).mapError fun e => .refused e.message
  let run ← (Session.execute w.surroundings w.runId p order.specimen order.operator parameters
    session.steps).mapError fun e => .refused e.message
  let findings ← (w.assessment run p).mapError fun e => .fatal e.message
  let s ← w.openStore
  return saving s run findings (Report.run (runCode run findings) format run findings)

def showRun (w : Workspace) (runId : String) (format : OutputFormat) : Except Output Result := do
  let s ← w.openStore
  let run ← storedRun s runId
  let findings ← (s.loadFindings run.id).mapError storeFailure
  return (Report.run .ok format run findings, none)

def listRuns (w : Workspace) (format : OutputFormat) : Except Output Result := do
  let s ← w.openStore
  let summaries ← s.listRuns.mapError storeFailure
  return (Report.summaries format summaries, none)

/-- Compute the findings on a stored run anew, and store them. -/
def renewFindings (w : Workspace) (runId : String) (protocol : Option String)
    (format : OutputFormat) : Except Output Result := do
  let s ← w.openStore
  let run ← storedRun s runId
  let p ← w.protocolFor run protocol
  let findings ← (w.assessment run p).mapError fun e => .refused e.message
  let kept ← (s.saveFindings run.id findings).mapError storeFailure
  let code := if hasBlocking findings then ExitCode.testFailed else .ok
  return (Report.findings code format findings, some kept)

def analyze (w : Workspace) (runId parameter : String) (options : Degradation.Options)
    (format : OutputFormat) : Except Output Result := do
  let s ← w.openStore
  let run ← storedRun s runId
  let points := DegradationPoint.series run.ledger.entries parameter
  return (Report.degradation run.id format (Degradation.analyze points options), none)

/-- The line about a measurement with a new flag. -/
def flagLine (m : Measurement) (run : TestRun) : String :=
  m.id ++ " " ++ m.parameter ++ " -> " ++ m.flag.text ++ "  (result " ++ run.result.text
    ++ ")"

/-- Set the flag of a stored measurement, judge the run anew and store both. -/
def reflag (w : Workspace) (runId measurementId : String) (flag : QualityFlag)
    (notes : Option String) (protocol : Option String) : Except Output Result := do
  let s ← w.openStore
  let run ← storedRun s runId
  let p ← w.protocolFor run protocol
  let (m, flagged) ← (run.flag measurementId flag notes).mapError fun e => .refused e.message
  let judged ← (flagged.evaluate p).mapError fun e => .fatal e.message
  let findings ← (w.assessment judged p).mapError fun e => .fatal e.message
  return saving s judged findings (.ofLines .ok [flagLine m judged])

def attempt (w : Workspace) : Command → Except Output Result
  | .validate path format => .ok (w.validate path format, none)
  | .run order format => w.execute order format
  | .inspect runId format => w.showRun runId format
  | .list format => w.listRuns format
  | .qc runId protocol format => w.renewFindings runId protocol format
  | .degradation runId parameter options format => w.analyze runId parameter options format
  | .flag runId measurementId flag notes protocol =>
      w.reflag runId measurementId flag notes protocol

def perform (w : Workspace) (command : Command) : Result :=
  match w.attempt command with
  | .ok result => result
  | .error output => (output, none)

end Workspace

namespace Stop

def versionLine : String := "qualify 0.4.0"

def usageLines : List String := [
  "Protocol-driven qualification test execution with acceptance and QC evaluation",
  "",
  "Usage: qualify [OPTIONS] <COMMAND>",
  "",
  "Commands:",
  "  validate     Validate a protocol definition",
  "  run          Execute a protocol against a specimen from a session script",
  "  show         Show a stored run",
  "  list         List stored runs, newest first",
  "  qc           Recompute QC checks for a stored run",
  "  degradation  Degradation and stabilization analysis of a stored run",
  "  flag         Change the quality flag of a recorded measurement"]

/-- The output of arguments that make no request. -/
def output : Stop → Output
  | version => .ofLines .ok [versionLine]
  | help => .ofLines .ok usageLines
  | usage message =>
      ⟨.unusable, "", Text.lines ["error: " ++ message, "",
        "For more information, try '--help'."]⟩

end Stop

end Qualification
