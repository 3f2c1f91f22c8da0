import Qualification.Numeric.Word
import Qualification.Command.Request
import Qualification.Decimal.Basic

/-! # Arguments

The arguments of the program are options with one value each and operands. Options that
apply to every command may stand before or after its name.
-/

namespace Qualification

/-- Why arguments make no request. -/
inductive Stop where
  | version
  | help
  | usage (message : String)
  deriving Repr, DecidableEq

namespace Arguments

abbrev Options := List (String × String)

def globalOptions : List String := ["config", "log-level", "log-format"]

/-- What an argument is. -/
inductive Token where
  | operand (value : String)
  | separator
  /-- An option, with its value if it is attached. -/
  | option (name : String) (value : Option String)
  | letters (text : String)
  deriving Repr, DecidableEq

/-- Does an argument look like an option? A lone hyphen does not. -/
def isOptionLike (argument : String) : Bool :=
  match argument.toList with
  | '-' :: _ :: _ => true
  | _ => false

/-- The meaning of an argument by its look. -/
def token (argument : String) : Token :=
  match argument.toList with
  | ['-', '-'] => .separator
  | '-' :: '-' :: body =>
      let name := body.takeWhile (· != '=')
      match body.drop name.length with
      | '=' :: value => .option (String.ofList name) (some (String.ofList value))
      | _ => .option (String.ofList name) none
  | '-' :: letter :: rest => .letters (String.ofList (letter :: rest))
  | _ => .operand argument

def unexpected (argument : String) : Stop :=
  .usage ("unexpected argument '" ++ argument ++ "' found")

def missingValue (name : String) : Stop :=
  .usage ("a value is required for '--" ++ name ++ "' but none was supplied")

/-- Read the options before the name of a command; the name and what follows it are left. -/
def readGlobal : Options → List String → Except Stop (Options × String × List String)
  | _, [] => .error (.usage "a command is required")
  | found, argument :: rest =>
      match token argument with
      | .operand name => .ok (found, name, rest)
      | .separator => .error (unexpected argument)
      | .letters "V" => .error .version
      | .letters "h" => .error .help
      | .letters _ => .error (unexpected argument)
      | .option "version" none => .error .version
      | .option "help" none => .error .help
      | .option name value =>
          if !globalOptions.contains name then .error (unexpected argument)
          else match value with
            | some value => readGlobal (found ++ [(name, value)]) rest
            | none => match rest with
                | value :: rest =>
                    if isOptionLike value then .error (missingValue name)
                    else readGlobal (found ++ [(name, value)]) rest
                | [] => .error (missingValue name)

/-- Read the arguments of a command that takes the given options: its options and
    operands. -/
def readLocal (known : List String) :
    Options → List String → List String → Except Stop (Options × List String)
  | found, operands, [] => .ok (found, operands)
  | found, operands, argument :: rest =>
      match token argument with
      | .operand value => readLocal known found (operands ++ [value]) rest
      | .separator => .ok (found, operands ++ rest)
      | .letters "h" => .error .help
      | .letters _ => .error (unexpected argument)
      | .option "help" none => .error .help
      | .option name value =>
          if !(known.contains name || globalOptions.contains name) then
            .error (unexpected argument)
          else match value with
            | some value => readLocal known (found ++ [(name, value)]) operands rest
            | none => match rest with
                | value :: rest =>
                    if isOptionLike value then .error (missingValue name)
                    else readLocal known (found ++ [(name, value)]) operands rest
                | [] => .error (missingValue name)

def values (name : String) (found : Options) : List String :=
  (found.filter fun o => o.1 == name).map (·.2)

/-- The value of an option that is given at most once. -/
def value? (name : String) (found : Options) : Except Stop (Option String) :=
  match values name found with
  | [] => .ok none
  | [value] => .ok (some value)
  | _ => .error (.usage ("the argument '--" ++ name ++ "' cannot be used multiple times"))

/-- The value of an option that must be given. -/
def value (name : String) (found : Options) : Except Stop String := do
  match ← value? name found with
  | some value => return value
  | none => .error (.usage ("the argument '--" ++ name ++ "' is required"))

/-- A value that is no value of its option. -/
def invalidValue {α : Type} (name text : String) : Except Stop α :=
  .error (.usage ("invalid value '" ++ text ++ "' for '--" ++ name ++ "'"))

def nonEmpty (name path : String) : Except Stop String :=
  if path.isEmpty then .error (missingValue name) else .ok path

def path? (name : String) (found : Options) : Except Stop (Option String) := do
  match ← value? name found with
  | some path => return some (← nonEmpty name path)
  | none => return none

def path (name : String) (found : Options) : Except Stop String := do
  nonEmpty name (← value name found)

/-- The value of an option, read, or the value that it has when it is absent. -/
def parsed {α : Type} (name : String) (read : String → Option α) (absent : α)
    (found : Options) : Except Stop α := do
  match ← value? name found with
  | none => return absent
  | some text => match read text with
      | some a => return a
      | none => invalidValue name text

def format? : String → Option OutputFormat
  | "text" => some .text
  | "json" => some .json
  | _ => none

def format (found : Options) : Except Stop OutputFormat :=
  parsed "format" format? .text found

def flag? : String → Option QualityFlag
  | "good" => some .good
  | "suspect" => some .suspect
  | "bad" => some .bad
  | _ => none

/-- A count of 64 bits: digits, with a plus before them or not. -/
def count? (text : String) : Option Nat :=
  let digits := match text.toList with
    | '+' :: rest => rest
    | all => all
  if digits.isEmpty || !digits.all Char.isDigit then none
  else
    let n := digits.foldl (fun n c => 10 * n + (c.toNat - '0'.toNat)) 0
    if n < Word.count 64 then some n else none

/-- The options that a command takes besides those of every command. -/
def localOptions : String → Option (List String)
  | "validate" => some ["format"]
  | "run" => some ["protocol", "specimen", "operator", "session", "param", "db", "format"]
  | "show" => some ["run", "db", "format"]
  | "list" => some ["db", "format"]
  | "qc" => some ["run", "protocol", "db", "format"]
  | "degradation" =>
      some ["run", "parameter", "baseline", "window", "threshold", "db", "format"]
  | "flag" => some ["run", "measurement", "flag", "notes", "protocol", "db"]
  | _ => none

def requireNone : List String → Except Stop Unit
  | [] => .ok ()
  | operand :: _ => .error (unexpected operand)

def runOrder (found : Options) : Except Stop RunOrder := do
  return {
    protocol := ← path "protocol" found
    specimen := ← value "specimen" found
    operator := ← value "operator" found
    session := ← path "session" found
    overrides := values "param" found }

def degradationOptions (found : Options) : Except Stop Degradation.Options := do
  let baseline ← parsed "baseline" (fun text => (Decimal.read? text).map some) none found
  let window ← parsed "window" count? 3 found
  let threshold ← parsed "threshold" Decimal.read? 0.5 found
  return ⟨baseline, ⟨window, threshold⟩⟩

/-- The command of a name with its options and operands. -/
def command (name : String) (found : Options) (operands : List String) :
    Except Stop Command := do
  match name, operands with
  | "validate", [protocol] =>
      return .validate (← nonEmpty "protocol" protocol) (← format found)
  | "validate", [] => .error (.usage "the argument '<PROTOCOL>' is required")
  | "validate", _ :: extra => do
      requireNone extra
      .error (unexpected name)
  | _, _ => do
      requireNone operands
      match name with
      | "run" => return .run (← runOrder found) (← format found)
      | "show" => return .inspect (← value "run" found) (← format found)
      | "list" => return .list (← format found)
      | "qc" =>
          return .qc (← value "run" found) (← path? "protocol" found) (← format found)
      | "degradation" =>
          return .degradation (← value "run" found)
            ((← value? "parameter" found).getD "pmax") (← degradationOptions found)
            (← format found)
      | "flag" =>
          let word ← value "flag" found
          match flag? word with
          | none => invalidValue "flag" word
          | some flag =>
              return .flag (← value "run" found) (← value "measurement" found) flag
                (← value? "notes" found) (← path? "protocol" found)
      | other => .error (.usage ("unrecognized subcommand '" ++ other ++ "'"))

/-- The configuration that options name; those of logging are checked and have no
    effect. -/
def configuration (found : Options) : Except Stop (Option String) := do
  let _ ← value? "log-level" found
  let _ ← parsed "log-format" format? .text found
  path? "config" found

def parse (arguments : List String) : Except Stop Request := do
  let (before, name, rest) ← readGlobal [] arguments
  match localOptions name with
  | none =>
      if name = "help" then .error .help
      else .error (.usage ("unrecognized subcommand '" ++ name ++ "'"))
  | some known =>
      let (found, operands) ← readLocal known [] [] rest
      let outer ← configuration before
      let inner ← configuration found
      let command ← command name found operands
      return ⟨inner.or outer, ← path? "db" found, command⟩

end Arguments

end Qualification
