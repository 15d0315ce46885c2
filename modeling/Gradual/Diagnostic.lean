import Gradual.Text.Basic

/-!
# Diagnostics

A diagnostic is one finding about a module or its configuration: a code, a severity, a message and,
where they are known, a place and a hint. Severities are ordered from the most serious to the least.
-/

namespace Gradual

/-- How serious a finding is. -/
inductive Severity where
  | error
  | warning
  | info
  | hint
deriving DecidableEq, Repr

namespace Severity

/-- All severities, the most serious first. -/
def all : List Severity := [.error, .warning, .info, .hint]

/-- The written name. -/
def name : Severity → Text
  | .error => "error"
  | .warning => "warning"
  | .info => "info"
  | .hint => "hint"

/-- The severity of a written name. -/
def ofName? (t : Text) : Option Severity := all.find? fun s => s.name == t

/-- The place in the order of seriousness; smaller is more serious. -/
def rank : Severity → Nat
  | .error => 0
  | .warning => 1
  | .info => 2
  | .hint => 3

/-- Whether a severity is at least as serious as a threshold. -/
def meets (severity threshold : Severity) : Bool := severity.rank ≤ threshold.rank

end Severity

/-- What kind of finding a diagnostic reports. -/
inductive Code where
  /-- A character that starts no token. -/
  | unexpectedCharacter
  /-- A string or date that is not closed. -/
  | unterminatedLiteral
  /-- A token that does not fit. -/
  | unexpectedToken
  /-- The module ends before something is complete. -/
  | missingEnd
  /-- A call with too few or too many arguments. -/
  | argumentCount
  /-- A variable that is read before it has a value. -/
  | undeclared
  /-- A variable that changes to an incompatible type. -/
  | reassignment
  /-- An operand whose type does not fit its operator. -/
  | operandType
  /-- A call of a function that nothing declares. -/
  | unknownFunction
  /-- A configuration file that does not exist. -/
  | configMissing
  /-- A configuration file that is not well-formed. -/
  | configMalformed
  /-- A configuration field with an unusable value. -/
  | configInvalid
deriving DecidableEq, Repr

namespace Code

/-- All codes. -/
def all : List Code :=
  [.unexpectedCharacter, .unterminatedLiteral, .unexpectedToken, .missingEnd, .argumentCount,
    .undeclared, .reassignment, .operandType, .unknownFunction, .configMissing, .configMalformed,
    .configInvalid]

/-- The printed code. -/
def name : Code → Text
  | .unexpectedCharacter => "BSL1001"
  | .unterminatedLiteral => "BSL1002"
  | .unexpectedToken => "BSL1003"
  | .missingEnd => "BSL1004"
  | .argumentCount => "BSL2001"
  | .undeclared => "BSL2002"
  | .reassignment => "BSL2003"
  | .operandType => "BSL2004"
  | .unknownFunction => "BSL2005"
  | .configMissing => "BSL9001"
  | .configMalformed => "BSL9002"
  | .configInvalid => "BSL9003"

/-- The code of its printed form. -/
def ofName? (t : Text) : Option Code := all.find? fun c => c.name == t

end Code

/-- A line and a column, both counted from one; columns count code units. -/
structure Position where
  line : Nat
  column : Nat
deriving DecidableEq, Repr

namespace Position

/-- The first position of a text. -/
def start : Position := ⟨1, 1⟩

/-- The position after one more unit: a line feed starts the next line. -/
def advance (p : Position) (c : CodeUnit) : Position :=
  if c == Text.newline then ⟨p.line + 1, 1⟩ else ⟨p.line, p.column + 1⟩

end Position

/-- A position in a named file. -/
structure Location where
  file : Text
  line : Nat
  column : Nat
deriving DecidableEq, Repr

namespace Location

/-- A position of a file. -/
def ofPosition (file : Text) (p : Position) : Location := ⟨file, p.line, p.column⟩

/-- `file:line:column`. -/
def format (l : Location) : Text := l.file ++ ":" ++ Text.ofNat l.line ++ ":" ++ Text.ofNat l.column

end Location

/-- The order in which the fields of a record are written. -/
inductive FieldOrder where
  /-- As they are declared. -/
  | declared
  /-- By their names. -/
  | byName
deriving DecidableEq, Repr

/-- How a finding is written as a record: the order of its own fields and of those of its place. -/
structure Layout where
  finding : FieldOrder := .declared
  place : FieldOrder := .declared
deriving DecidableEq, Repr

/-- One finding. -/
structure Diagnostic where
  code : Code
  severity : Severity
  message : Text
  location : Option Location
  hint : Option Text
  /-- What the analysis finds is laid out as declared; what was handed in as a record keeps the
  order it came in. -/
  layout : Layout := {}
deriving DecidableEq, Repr

namespace Diagnostic

/-- Whether the finding is an error. -/
def isError (d : Diagnostic) : Bool := d.severity == .error

/-- One line: place, severity and code, message, hint, as far as they are present; an empty hint
counts as absent. -/
def format (d : Diagnostic) : Text :=
  let place := d.location.toList.map Location.format
  let head := d.severity.name ++ " " ++ d.code.name ++ ":"
  let hint := (d.hint.filter fun h => !h.isEmpty).toList.map fun (h : Text) => "Hint: " ++ h
  Text.join " " (place ++ [head, d.message] ++ hint)

/-- How many findings there are of each severity. -/
structure Counts where
  errors : Nat
  warnings : Nat
  infos : Nat
  hints : Nat
deriving DecidableEq, Repr

/-- Counts findings by severity. -/
def count (ds : List Diagnostic) : Counts where
  errors := ds.countP fun d => d.severity == .error
  warnings := ds.countP fun d => d.severity == .warning
  infos := ds.countP fun d => d.severity == .info
  hints := ds.countP fun d => d.severity == .hint

/-- Findings in the order they were made, and whether one of them is an error. -/
structure Log where
  diagnostics : List Diagnostic
  hasErrors : Bool
deriving DecidableEq, Repr

/-- The log without findings. -/
def Log.empty : Log := ⟨[], false⟩

/-- Appends a finding. -/
def Log.add (log : Log) (d : Diagnostic) : Log :=
  ⟨log.diagnostics ++ [d], log.hasErrors || d.isError⟩

end Diagnostic

end Gradual
