import Gradual.Command.Report
import Gradual.Files.Access
import Gradual.Graph.Summary
import Gradual.Json.Reader
import Gradual.Text.Utf8

/-!
# Running commands

A command line is carried out with some access to files. The outcome lists what is printed and, if
the command could not be carried out, why.
-/

namespace Gradual

/-! ## Outcomes -/

/-- What is printed at once. -/
inductive Printed where
  | text (t : Text)
  /-- The time that a check took. -/
  | elapsed (milliseconds : Nat)
deriving DecidableEq, Repr

namespace Printed

/-- The printed text. -/
def format : Printed → Text
  | text t => t
  | elapsed n => "  Checked in " ++ Text.ofNat n ++ "ms"

end Printed

/-- Why a command was not carried out. -/
inductive Failure where
  | args (fault : ArgsFault)
  | unknownCommand (name : Text)
  | missingFile (command : Text)
  | config (fault : ConfigFault)
  | unreadable (file reason : Text)
  | notModule (d : Diagnostic)
deriving DecidableEq, Repr

namespace Failure

/-- What is printed about a failure. -/
def lines : Failure → List Text
  | args fault => ["Error: " ++ fault.message]
  | unknownCommand name =>
    ["Error: Unknown command " ++ name.quoted, "Run 'bsl-gradual --help' for usage information"]
  | missingFile command =>
    ["Error: Module file required", "Usage: bsl-gradual " ++ command ++ " <file.bsl>"]
  | config fault => ["Error: " ++ fault.toDiagnostic.format]
  | unreadable file reason => ["Error: Cannot read " ++ file ++ ": " ++ reason]
  | notModule d => ["Error: " ++ d.format]

/-- The exit code of a failure. -/
def exitCode : Failure → Nat
  | args _ | unknownCommand _ | missingFile _ => 2
  | config _ => 3
  | unreadable .. | notModule _ => 1

end Failure

/-- What a command line led to. -/
structure Outcome where
  printed : List Printed
  failure : Option Failure
  /-- Whether a check found errors. -/
  foundErrors : Bool
deriving DecidableEq, Repr

namespace Outcome

/-- Texts were printed and nothing failed. -/
def ok (texts : List Text) : Outcome := ⟨texts.map .text, none, false⟩

/-- Nothing was printed. -/
def fail (failure : Failure) : Outcome := ⟨[], some failure, false⟩

/-- Prints something before. -/
def prepend (before : List Printed) (o : Outcome) : Outcome :=
  { o with printed := before ++ o.printed }

/-- The exit code. -/
def exitCode (o : Outcome) : Nat :=
  match o.failure with
  | some f => f.exitCode
  | none => if o.foundErrors then 1 else 0

end Outcome

/-! ## Fixed texts -/

/-- The version of the program. -/
def version : Text := "0.1.0"

/-- How to use the program. -/
def helpText : Text :=
  "
bsl-gradual - gradual type checker for BSL v" ++ version ++ "

USAGE:
  bsl-gradual <command> <file.bsl> [options]

COMMANDS:
  check <file.bsl>          Type check a module and report diagnostics
  graph <file.bsl>          Show dependency graph statistics, cycles and call order

GLOBAL OPTIONS:
  -h, --help                Show help
  -v, --version             Show version
  -V, --verbose             Verbose output
  -q, --quiet               Suppress progress output
  -c, --config <file>       Config file path (default: bsl-gradual.json)

CHECK OPTIONS:
  --format <text|json>      Diagnostic output format
  --types                   Print inferred variable types and signatures
  --min-severity <level>    Lowest severity to report: error, warning, info, hint

EXAMPLES:
  bsl-gradual check src/ОбщийМодуль.bsl
  bsl-gradual check src/ОбщийМодуль.bsl --format json --min-severity warning
  bsl-gradual graph src/ОбщийМодуль.bsl --verbose
"

/-! ## Configuration files -/

variable {m : Type → Type} [Monad m] (files : FileAccess m)

namespace Config

/-- The configuration that a file holds. -/
def ofBytes (path : Text) (bytes : List UInt8) : Except ConfigFault Config :=
  match Json.read? (.ofUtf8 bytes) with
  | none => .error (.malformed path "not well-formed JSON")
  | some j => (ofJson j).mapError (.invalid path)

/-- Loads the configuration file of a path. -/
def load (path : Text) : m (Except ConfigFault Config) := do
  if ← files.isPresent path then
    match ← files.read path with
    | .ok bytes => return ofBytes path bytes
    | .error reason => return .error (.malformed path reason)
  else return .error (.missing path)

/-- The first path under which something is present. -/
def firstPresent : List Text → m (Option Text)
  | [] => return none
  | path :: rest => do if ← files.isPresent path then return some path else firstPresent rest

/-- The configuration file in a folder or the nearest folder above it. -/
def find (place : Place) : m (Option Text) :=
  firstPresent files ((Path.ancestors place).map fun p => Path.ofPlace (p ++ [configFileName]))

end Config

/-! ## Commands -/

/-- The commands that work on a module. -/
inductive Command where
  | check
  | graph
deriving DecidableEq, Repr

namespace Command

/-- The name on the command line. -/
def name : Command → Text
  | check => "check"
  | graph => "graph"

/-- The command of a name. -/
def ofName? (t : Text) : Option Command := [check, graph].find? fun c => c.name == t

end Command

/-- The progress of a check. -/
def progress (s : Settings) (c : SourceCheck Float) (elapsed : Nat) : List Printed :=
  let details := c.result.toList.flatMap fun r =>
    let stats := r.graph.stats
    let size : Text := "  Dependency graph: " ++ Text.ofNat stats.nodes ++ " nodes, " ++
      Text.ofNat stats.edges ++ " edges, " ++ Text.ofNat stats.functions ++ " functions, " ++
      Text.ofNat stats.vars ++ " variables"
    let flow : Text := "  Flow states: " ++ Text.ofNat r.states.size ++ ", merge points: " ++
      Text.ofNat r.merges.size
    [Printed.text size, Printed.text flow, Printed.elapsed elapsed]
  if s.showsProgress then .text ("Checking " ++ c.file) :: (if s.verbose then details else [])
  else []

/-- Checks a source. -/
def runCheck (s : Settings) (file source : Text) : m Outcome := do
  let started ← files.milliseconds
  let c : SourceCheck Float := .ofSource file source s.minSeverity s.externalFunctions
  let finished ← files.milliseconds
  let text := (c.report s.showTypes).render s.format
  return ⟨progress s c (finished - started) ++ [.text text], none, c.hasErrors⟩

/-- Summarizes the graphs of a source. -/
def runGraph (s : Settings) (file source : Text) : Outcome :=
  match Program.parse file source with
  | .error d => .fail (.notModule d)
  | .ok p => .ok [(GraphSummary.ofProgram file p).render s.format s.verbose]

/-- Reads the file of a module and carries out a command on it. -/
def Command.run (command : Command) (s : Settings) (place : Place) (entry : Text) : m Outcome := do
  let target := Path.enter (Path.enter place s.sourceRoot) entry
  let path := Path.ofPlace target
  let shown := Path.relative place target
  let file := if shown.isEmpty then path else shown
  match ← files.read path with
  | .error reason => return .fail (.unreadable file reason)
  | .ok bytes =>
    let source := Text.ofUtf8 bytes
    match command with
    | .check => runCheck files s file source
    | .graph => return runGraph s file source

/-- The settings in use, printed before a verbose command. -/
def settingsLines (s : Settings) (configPath : Option Text) : List Text :=
  if s.verbose && s.showsProgress then
    ["Config: " ++ configPath.getD "(none)", "  sourceRoot: " ++ s.sourceRoot,
      "  minSeverity: " ++ s.minSeverity.name,
      "  externalFunctions: " ++ Text.ofNat s.externalFunctions.size]
  else []

/-- Carries out a command on a file, with the configuration file that is named or found. An empty
name stands for no configuration file. -/
def runCommand (command : Command) (entry : Text) (options : Options) : m Outcome := do
  let place ← files.workingPlace
  let path ← match options.config with
    | some path => pure (some path)
    | none => Config.find files place
  let used := path.filter fun p => !p.isEmpty
  let loaded ← match used with
    | some path => Config.load files path
    | none => pure (.ok .empty)
  match loaded with
  | .error fault => return .fail (.config fault)
  | .ok config =>
    let root := (used.map Path.folder).getD (Path.ofPlace place)
    let s := Settings.resolve place root config options
    let outcome ← command.run files s place entry
    return outcome.prepend ((settingsLines s path).map .text)

/-- Carries out a command line. -/
def run (args : List Text) : m Outcome := do
  let parsed := Args.parse args
  if parsed.command == "version" then return .ok ["bsl-gradual v" ++ version]
  else if parsed.command.isEmpty || parsed.command == "help" then return .ok [helpText]
  else
    match parsed.fault with
    | some fault => return .fail (.args fault)
    | none =>
      match Command.ofName? parsed.command, parsed.file with
      | none, _ => return .fail (.unknownCommand parsed.command)
      | some command, none => return .fail (.missingFile command.name)
      | some command, some entry => runCommand files command entry parsed.options

end Gradual
