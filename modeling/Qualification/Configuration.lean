import Qualification.Files.View
import Qualification.Protocol.Validation
import Qualification.Yaml.Tree

/-! # The configuration

Where protocols and runs are kept, and the thresholds of quality control for protocols
without their own. It is a YAML document of a known version.
-/

namespace Qualification

open Document

/-- The configuration. -/
structure Configuration where
  version : Nat
  protocolsFolder : Option String
  database : String
  qc : Option QcSettings
  deriving Repr, BEq

/-- Why a configuration cannot be used. -/
inductive ConfigurationError where
  | unreadable (path : String) (reason : FileError)
  | parse (message : String)
  | unsupportedVersion (found : Nat)
  | invalid (reason : ProtocolError)
  deriving Repr, DecidableEq

namespace Configuration

def supportedVersion : Nat := 1

def default : Configuration :=
  ⟨supportedVersion, none, "qualify.db", none⟩

def qcDefaults (c : Configuration) : QcSettings :=
  c.qc.getD .default

def toJson (c : Configuration) : Json :=
  .object ([("version", .ofNat c.version)]
    ++ Json.memberOf? "protocols_dir" .text c.protocolsFolder
    ++ [("database", .text c.database)]
    ++ Json.memberOf? "qc" QcSettings.toJson c.qc)

def decode : Decoder Configuration :=
  Record.readStrict "QualifyConfig" (Configuration.mk
    <$> .required "version" Decoder.count32
    <*> .optionalDefault "protocols_dir" Decoder.text
    <*> .withDefault "database" Decoder.text default.database
    <*> .optionalDefault "qc" QcSettings.decode)

/-- A configuration must have the supported version and sound thresholds. -/
def check (c : Configuration) : Except ConfigurationError Unit :=
  if c.version ≠ supportedVersion then .error (.unsupportedVersion c.version)
  else match c.qc with
    | none => .ok ()
    | some qc => (Validation.checkQc "qc" qc).mapError .invalid

def parse (text : String) : Except ConfigurationError Configuration :=
  match Yaml.decode decode text with
  | .error failure => .error (.parse (failure.message .yaml))
  | .ok c => (check c).map fun () => c

/-- A configuration with its relative paths seen from a folder. -/
def rebase (folder : String) (c : Configuration) : Configuration :=
  { c with
    database := Path.join folder c.database
    protocolsFolder := c.protocolsFolder.map (Path.join folder) }

/-- The configuration in a file; its relative paths start at the folder of the file. -/
def load (files : FileView) (path : String) : Except ConfigurationError Configuration :=
  match files.read path with
  | .error reason => .error (.unreadable path reason)
  | .ok text => (parse text).map (rebase ((Path.parent? path).getD "."))

end Configuration

def ConfigurationError.message : ConfigurationError → String
  | unreadable path reason => "failed to read config " ++ path ++ ": " ++ reason.message
  | parse message => "failed to parse YAML: " ++ message
  | unsupportedVersion found =>
      "unsupported config version " ++ found.repr ++ " (supported: "
        ++ Configuration.supportedVersion.repr ++ ")"
  | invalid reason => "invalid config: " ++ reason.message

end Qualification
