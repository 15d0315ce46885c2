import Gradual.Diagnostic

/-!
# Command lines

A command line has a command, the file of a module, and options in any order. Options are read to
the end even behind a malformed one, of which the first is kept; asking for help or for the version
ends the reading.
-/

namespace Gradual

/-- How results are printed. -/
inductive OutputFormat where
  | text
  | json
deriving DecidableEq, Repr

namespace OutputFormat

/-- All formats. -/
def all : List OutputFormat := [text, json]

/-- The written name. -/
def name : OutputFormat → Text
  | text => "text"
  | json => "json"

/-- The format of a written name. -/
def ofName? (t : Text) : Option OutputFormat := all.find? fun f => f.name == t

end OutputFormat

/-- What options ask for. -/
structure Options where
  verbose : Bool
  quiet : Bool
  /-- The path of a configuration file. -/
  config : Option Text
  format : Option OutputFormat
  types : Option Bool
  minSeverity : Option Severity
deriving DecidableEq, Repr

namespace Options

/-- Nothing asked for. -/
def none : Options := ⟨false, false, .none, .none, .none, .none⟩

end Options

/-- What is wrong with a command line. -/
inductive ArgsFault where
  | badFormat (given : Text)
  | badSeverity (given : Text)
  | unknownOption (arg : Text)
deriving DecidableEq, Repr

namespace ArgsFault

/-- The message of a fault. -/
def message : ArgsFault → Text
  | badFormat given => "--format expects text or json, got " ++ given.quoted
  | badSeverity given => "--min-severity expects error, warning, info or hint, got " ++ given.quoted
  | unknownOption arg => "Unknown option: " ++ arg

end ArgsFault

/-- A command line that was read; the command is empty while none is given. -/
structure Args where
  command : Text
  file : Option Text
  options : Options
  fault : Option ArgsFault
deriving DecidableEq, Repr

/-- The options by what they do. -/
inductive Switch where
  | help | version | verbose | quiet | config | types | format | severity
deriving DecidableEq, Repr

namespace Switch

/-- The spellings of the options. -/
def spellings : List (Text × Switch) :=
  [("-h", help), ("--help", help), ("-v", version), ("--version", version), ("-V", verbose),
    ("--verbose", verbose),
    ("-q", quiet), ("--quiet", quiet), ("-c", config), ("--config", config), ("--types", types),
    ("--format", format), ("--min-severity", severity)]

/-- The option of a spelling. -/
def ofArg? (arg : Text) : Option Switch := (spellings.find? fun e => e.1 == arg).map Prod.snd

end Switch

namespace Args

/-- Nothing read yet. -/
def empty : Args := ⟨[], none, .none, none⟩

/-- Only a command. -/
def only (command : Text) : Args := { empty with command := command }

/-- Notes a fault, unless there is one before it. -/
def fail (a : Args) (fault : ArgsFault) : Args := { a with fault := a.fault.or (some fault) }

/-- Sets the format of an option's value. -/
def setFormat (a : Args) (value : Text) : Args :=
  match OutputFormat.ofName? value with
  | some f => { a with options := { a.options with format := some f } }
  | none => a.fail (.badFormat value)

/-- Sets the severity of an option's value. -/
def setSeverity (a : Args) (value : Text) : Args :=
  match Severity.ofName? value with
  | some s => { a with options := { a.options with minSeverity := some s } }
  | none => a.fail (.badSeverity value)

/-- Sets the path of the configuration file. -/
def setConfig (a : Args) (value : Text) : Args :=
  { a with options := { a.options with config := some value } }

/-- Whether an argument is an option by its first character. -/
def isDashed (arg : Text) : Bool := arg.head? == some 0x2D

/-- Reads arguments behind those that were read before. A value that is missing at the end counts as
empty. -/
def read : Args → List Text → Args
  | a, [] => a
  | a, arg :: rest =>
    if arg.isEmpty then read a rest
    else if !isDashed arg && a.command.isEmpty then read { a with command := arg } rest
    else if !isDashed arg && a.file.isNone then read { a with file := some arg } rest
    else
      match Switch.ofArg? arg with
      | some .help => only "help"
      | some .version => only "version"
      | some .verbose => read { a with options := { a.options with verbose := true } } rest
      | some .quiet => read { a with options := { a.options with quiet := true } } rest
      | some .types => read { a with options := { a.options with types := some true } } rest
      | some .config =>
        match rest with
        | [] => a.setConfig []
        | value :: rest => read (a.setConfig value) rest
      | some .format =>
        match rest with
        | [] => a.setFormat []
        | value :: rest => read (a.setFormat value) rest
      | some .severity =>
        match rest with
        | [] => a.setSeverity []
        | value :: rest => read (a.setSeverity value) rest
      | none => read (a.fail (.unknownOption arg)) rest

/-- Reads a command line. -/
def parse (args : List Text) : Args := read empty args

end Args

end Gradual
