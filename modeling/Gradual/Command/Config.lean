import Gradual.Command.Options
import Gradual.Decimal.Natural
import Gradual.Json.Value
import Gradual.Types.Signature

/-!
# Configurations

A configuration file is a JSON object with optional fields. It is checked field by field, and the
first unusable one is reported. Routines of other modules are declared by the number of their
parameters.
-/

namespace Gradual

/-- A routine of another module. -/
structure ExternalFunction where
  params : Count
  exported : Option Bool

namespace ExternalFunction

/-- The signature of a routine of which only the number of parameters is known. -/
def signature {ω : Type} (name : Text) (f : ExternalFunction) : Signature ω where
  params := (List.range f.params.toNat).map fun i =>
    { name := "Параметр" ++ Text.ofNat (i + 1)
      type := (Resolution.unknownBecause "External parameter").recordAt (.externalParameter name i)
      optional := false }
  returns := (Resolution.unknownBecause "External function").recordAt (.externalResult name)
  exported := f.exported.getD true

/-- The signatures of routines in listing order. -/
def signatures {ω : Type} (functions : Table Text ExternalFunction) : Signatures ω :=
  .ofList (functions.listing.map fun e => (e.1, e.2.signature e.1))

end ExternalFunction

/-- The name of the configuration file. -/
def configFileName : Text := "bsl-gradual.json"

/-- The fields of a configuration file. -/
structure Config where
  sourceRoot : Option Text
  minSeverity : Option Severity
  format : Option OutputFormat
  showTypes : Option Bool
  externalFunctions : Option (Table Text ExternalFunction)

/-- What is unusable in a configuration. -/
inductive FieldFault where
  | notObject
  | sourceRoot
  | minSeverity
  | format
  | showTypes
  | externalFunctions
  | externalFunction (name : Text)
deriving DecidableEq, Repr

namespace FieldFault

/-- The message of a fault. -/
def message : FieldFault → Text
  | notObject => "expected a JSON object"
  | sourceRoot => "'sourceRoot' must be a string"
  | minSeverity => "'minSeverity' must be one of error, warning, info, hint"
  | format => "'format' must be text or json"
  | showTypes => "'showTypes' must be a boolean"
  | externalFunctions => "'externalFunctions' must be an object"
  | externalFunction name =>
    "'externalFunctions." ++ name ++ "' needs a non-negative integer 'params'"

end FieldFault

/-- Why a configuration file cannot be used. -/
inductive ConfigFault where
  | missing (path : Text)
  | malformed (path reason : Text)
  | invalid (path : Text) (fault : FieldFault)
deriving DecidableEq, Repr

namespace ConfigFault

/-- The code of a fault. -/
def code : ConfigFault → Code
  | missing _ => .configMissing
  | malformed _ _ => .configMalformed
  | invalid _ _ => .configInvalid

/-- The wording of a fault. -/
def message : ConfigFault → Text
  | missing path => "Config file not found: " ++ path
  | malformed path reason => "Failed to parse " ++ path ++ ": " ++ reason
  | invalid path fault => path ++ ": " ++ fault.message

/-- The diagnostic of a fault. -/
def toDiagnostic (f : ConfigFault) : Diagnostic where
  code := f.code
  severity := .error
  message := f.message
  location := none
  hint := none

end ConfigFault

namespace Config

/-- No field is given. -/
def empty : Config := ⟨none, none, none, none, none⟩

/-! ## Values of fields -/

/-- A string. -/
def text? : Json → Option Text
  | .string t => some t
  | _ => none

/-- A boolean. -/
def boolean? : Json → Option Bool
  | .boolean b => some b
  | _ => none

/-- A severity by its name. -/
def severity? (j : Json) : Option Severity := (text? j).bind Severity.ofName?

/-- An output format by its name. -/
def format? (j : Json) : Option OutputFormat := (text? j).bind OutputFormat.ofName?

/-- The fields of an object. -/
def fields? : Json → Option (List (Text × Json))
  | .object fields => some fields
  | _ => none

/-- A number of parameters. -/
def count? : Json → Option Count
  | .number x => Count.ofFloat? x
  | _ => none

/-- A field that may be left out, but is of use if it is there. -/
def optional {α : Type} (read : Json → Option α) : Option Json → Option (Option α)
  | none => some none
  | some j => (read j).map some

/-- The declaration of a routine of another module. -/
def externalFunction? (j : Json) : Option ExternalFunction := do
  let fields ← fields? j
  let params ← (Json.field? fields "params").bind count?
  let exported ← optional boolean? (Json.field? fields "exported")
  return ⟨params, exported⟩

/-! ## Checking -/

/-- A field of an object, which may be left out. -/
def field {α : Type} (fields : List (Text × Json)) (name : Text) (read : Json → Option α)
    (fault : FieldFault) :
    Except FieldFault (Option α) :=
  match optional read (Json.field? fields name) with
  | some value => .ok value
  | none => .error fault

/-- The declarations of routines, or the first that is unusable. -/
def externals : List (Text × Json) → Except FieldFault (List (Text × ExternalFunction))
  | [] => .ok []
  | (name, j) :: rest =>
    match externalFunction? j with
    | none => .error (.externalFunction name)
    | some f => do
      let fs ← externals rest
      return (name, f) :: fs

/-- The one name that cannot be declared. -/
def reservedName : Text := "__proto__"

/-- The declared routines. A routine of the reserved name is checked, but not declared. -/
def declared (functions : List (Text × ExternalFunction)) : Table Text ExternalFunction :=
  .ofList (functions.filter fun e => e.1 != reservedName)

/-- The configuration that a JSON value stands for, or its first fault. -/
def ofJson (j : Json) : Except FieldFault Config := do
  match j with
  | .object fields => do
    let sourceRoot ← field fields "sourceRoot" text? .sourceRoot
    let minSeverity ← field fields "minSeverity" severity? .minSeverity
    let format ← field fields "format" format? .format
    let showTypes ← field fields "showTypes" boolean? .showTypes
    let functions ← field fields "externalFunctions" fields? .externalFunctions
    match functions with
    | none => return ⟨sourceRoot, minSeverity, format, showTypes, none⟩
    | some entries => do
      let fs ← externals (Json.members entries)
      return ⟨sourceRoot, minSeverity, format, showTypes, some (declared fs)⟩
  | _ => throw .notObject

end Config

end Gradual
