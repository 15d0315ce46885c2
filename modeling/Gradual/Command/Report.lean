import Gradual.Command.Settings
import Gradual.Json.Document
import Gradual.Checker
import Gradual.Syntax.Parser.Stmt

/-!
# Reports

A report lists the findings about a module with their number, and the types of its variables and
routines if they are asked for. It is printed as text, a line each, or as a JSON document.
-/

namespace Gradual

variable {ω ν : Type} [Weight ω]

/-- What is reported about a module. -/
structure Report (ω : Type) where
  file : Text
  diagnostics : List Diagnostic
  /-- Present when types are printed. -/
  context : Option (Context ω)

namespace Report

/-! ## Text -/

/-- The number of findings in one line. -/
def summaryLine (file : Text) (c : Diagnostic.Counts) : Text :=
  file ++ ": " ++ Text.ofNat c.errors ++ " error(s), " ++ Text.ofNat c.warnings ++
    " warning(s), " ++ Text.ofNat c.infos ++ " info, " ++ Text.ofNat c.hints ++ " hint(s)"

/-- The types of variables by name. -/
def variableTypes (c : Context ω) : List (Text × Text) := (c.vars.map fun _ r => r.format).listing

/-- The signatures of routines, with their names, by name. -/
def functionTypes (c : Context ω) : List (Text × Text) :=
  (c.functions.map fun name s => name ++ s.format).listing

/-- Types on lines of their own. -/
def typeLines (c : Context ω) : List Text :=
  [Text.ofString "Variables:"] ++
    (variableTypes c).map (fun e => Text.indented (e.1 ++ ": " ++ e.2)) ++
    [Text.ofString "Functions:"] ++ (functionTypes c).map fun e => Text.indented e.2

/-- The report as text. -/
def text (r : Report ω) : Text :=
  Text.lines (r.diagnostics.map Diagnostic.format ++
    [summaryLine r.file (Diagnostic.count r.diagnostics)] ++
    r.context.toList.flatMap typeLines)

/-! ## JSON -/

/-- Fields, given as declared, in an order. -/
def arrange : FieldOrder → List (Text × ν) → List (Text × ν)
  | .declared, fields => fields
  | .byName, fields => fields.mergeSort fun a b => a.1 ≤ b.1

/-- A place in a file. -/
def locationDocument (order : FieldOrder) (l : Location) : Document :=
  .record (arrange order [("file", .text l.file), ("line", .nat l.line), ("column", .nat l.column)])

/-- A finding in its own layout. -/
def diagnosticDocument (d : Diagnostic) : Document :=
  .ofFields <| arrange d.layout.finding
    [("code", some (.text d.code.name)), ("severity", some (.text d.severity.name)),
      ("message", some (.text d.message)),
      ("location", d.location.map (locationDocument d.layout.place)),
      ("hint", d.hint.map .text)]

/-- The number of findings. -/
def countsDocument (c : Diagnostic.Counts) : Document :=
  .record [("error", .nat c.errors), ("warning", .nat c.warnings), ("info", .nat c.infos),
    ("hint", .nat c.hints)]

/-- Types by name. -/
def typesDocument (c : Context ω) : Document :=
  let table := fun (entries : List (Text × Text)) =>
    Document.record (entries.map fun e => (e.1, .text e.2))
  .record [("variables", table (variableTypes c)), ("functions", table (functionTypes c))]

/-- The report as a document. -/
def document (r : Report ω) : Document :=
  .ofFields [("file", some (.text r.file)),
    ("diagnostics", some (.list (r.diagnostics.map diagnosticDocument))),
    ("summary", some (countsDocument (Diagnostic.count r.diagnostics))),
    ("types", r.context.map typesDocument)]

/-- The printed report. -/
def render (r : Report ω) : OutputFormat → Text
  | .text => r.text
  | .json => r.document.render

end Report

/-! ## Checks of sources -/

/-- The outcome of checking a source. -/
structure SourceCheck (ω : Type) where
  file : Text
  /-- The findings that are serious enough. -/
  diagnostics : List Diagnostic
  /-- Whether there is an error among all findings. -/
  hasErrors : Bool
  /-- Absent when the source is no module. -/
  result : Option (CheckResult ω)

namespace SourceCheck

/-- Checks a source, with the findings at least as serious as a threshold. -/
def ofSource (file source : Text) (minSeverity : Severity)
    (externals : Table Text ExternalFunction) : SourceCheck ω :=
  match Program.parse file source with
  | .error d => ⟨file, [d], true, none⟩
  | .ok p =>
    let result := p.check file (ExternalFunction.signatures externals)
    ⟨file, result.diagnostics.filter (fun d => d.severity.meets minSeverity),
      result.diagnostics.any Diagnostic.isError, some result⟩

/-- The report of a check. -/
def report (c : SourceCheck ω) (showTypes : Bool) : Report ω :=
  ⟨c.file, c.diagnostics, if showTypes then c.result.map CheckResult.context else none⟩

end SourceCheck

end Gradual
