import Gradual.Calls.Graph
import Gradual.Command.Options
import Gradual.Graph.Build
import Gradual.Json.Document

/-!
# Summaries of graphs

The size of the dependency graph of a module with its edges and cycles, and an order of the routines
in which callees come first.
-/

namespace Gradual

/-- What is shown of the graphs of a module. -/
structure GraphSummary where
  file : Text
  stats : DependencyGraph.Stats
  /-- Every edge as a text. -/
  edges : List Text
  /-- The nodes of every cycle as texts. -/
  cycles : List (List Text)
  /-- Absent when routines call each other in a circle. -/
  callOrder : Option (List Text)
deriving DecidableEq, Repr

/-- An edge in messages. -/
def Edge.format (e : Edge) : Text :=
  e.source.format ++ " -> " ++ e.target.format ++ " [" ++ e.kind.name ++ "]"

namespace GraphSummary

/-- The summary of a module. -/
def ofProgram (file : Text) (p : Program) : GraphSummary :=
  let graph := DependencyGraph.ofProgram file p
  { file := file
    stats := graph.stats
    edges := graph.edges.map Edge.format
    cycles := graph.cycles.map fun c => c.map Node.format
    callOrder := (CallGraph.ofProgram p : CallGraph Float).calleesFirst? }

/-- The lines on cycles. -/
def cycleLines (cycles : List (List Text)) : List Text :=
  if cycles.isEmpty then ["Cycles: none"]
  else ("Cycles: " ++ Text.ofNat cycles.length) :: cycles.map fun c =>
    Text.indented (Text.join " -> " c)

/-- The line on the order of routines. -/
def orderLine : Option (List Text) → Text
  | none => "Call order: unavailable (recursive calls)"
  | some [] => "Call order: (no routines)"
  | some names => "Call order: " ++ Text.join ", " names

/-- The summary as text, with all edges if it is verbose. -/
def text (s : GraphSummary) (verbose : Bool) : Text :=
  let nodes : Text := "Nodes: " ++ Text.ofNat s.stats.nodes ++ " (" ++
    Text.ofNat s.stats.functions ++ " functions, " ++
    Text.ofNat s.stats.vars ++ " variables)"
  let edges : Text := "Edges: " ++ Text.ofNat s.stats.edges
  Text.lines ([nodes, edges] ++ (if verbose then s.edges.map Text.indented else []) ++
    cycleLines s.cycles ++ [orderLine s.callOrder])

/-- Texts as a document. -/
def textsDocument (ts : List Text) : Document := .list (ts.map .text)

/-- The summary as a document. -/
def document (s : GraphSummary) : Document :=
  .record [("file", .text s.file), ("nodes", .nat s.stats.nodes), ("edges", .nat s.stats.edges),
    ("functions", .nat s.stats.functions), ("variables", .nat s.stats.vars),
    ("edgeList", textsDocument s.edges),
    ("cycles", .list (s.cycles.map textsDocument)),
    ("callOrder", (s.callOrder.map textsDocument).getD .null)]

/-- The printed summary. -/
def render (s : GraphSummary) (format : OutputFormat) (verbose : Bool) : Text :=
  match format with
  | .text => s.text verbose
  | .json => s.document.render

end GraphSummary

end Gradual
