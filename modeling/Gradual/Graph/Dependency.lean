import Gradual.Diagnostic
import Gradual.Graph.Order
import Gradual.Types.Signature

/-!
# Dependency graphs

A directed multigraph over the variables, routines, parameters, results, fields and methods of a
module. Nodes are identified by their keys, and nodes and edges are listed in the order in which
they came in. Cycles are legal.
-/

namespace Gradual

/-- What can depend on something, or be depended on. -/
inductive Node where
  | var (name : Text) (scope : Scope)
  | function (name : Text) (exported : Bool)
  | parameter (routine : Text) (name : Text)
  | result (routine : Text)
  | field (object : Text) (name : Text)
  | method (object : Text) (name : Text)
deriving DecidableEq, Repr

namespace Node

/-- The text that identifies a node. -/
def key : Node → Text
  | var name scope => "var:" ++ scope.key ++ ":" ++ name
  | function name exported => "fn:" ++ name ++ ":" ++ (if exported then "export" else "local")
  | parameter routine name => "param:" ++ routine ++ ":" ++ name
  | result routine => "return:" ++ routine
  | field object name => "field:" ++ object ++ "." ++ name
  | method object name => "method:" ++ object ++ "." ++ name ++ "()"

/-- The node in messages. -/
def format : Node → Text
  | var name _ => name
  | function name _ => name ++ "()"
  | parameter routine name => routine ++ "(" ++ name ++ ")"
  | result routine => routine ++ ":return"
  | field object name => object ++ "." ++ name
  | method object name => object ++ "." ++ name ++ "()"

/-- Whether the node is a routine. -/
def isFunction : Node → Bool
  | function .. => true
  | _ => false

/-- Whether the node is a variable. -/
def isVariable : Node → Bool
  | var .. => true
  | _ => false

end Node

/-- Why one node depends on another. -/
inductive EdgeKind where
  | assignment
  | parameter (index : Nat)
  | result
  | fieldAccess
  | methodCall
  | expression
  | conditional
deriving DecidableEq, Repr

namespace EdgeKind

/-- The name of the kind. -/
def name : EdgeKind → Text
  | assignment => "assignment"
  | parameter _ => "parameter"
  | result => "return"
  | fieldAccess => "fieldAccess"
  | methodCall => "methodCall"
  | expression => "expression"
  | conditional => "conditional"

end EdgeKind

/-- The first node depends on the second. -/
structure Edge where
  source : Node
  target : Node
  kind : EdgeKind
  location : Option Location
deriving DecidableEq, Repr

/-- A graph of dependencies. -/
structure DependencyGraph where
  /-- The nodes by their keys. -/
  table : Table Text Node
  /-- The edges by the keys of their sources. -/
  outgoing : Table Text (List Edge)
  /-- The edges by the keys of their targets. -/
  incoming : Table Text (List Edge)
  edgeCount : Nat

namespace DependencyGraph

/-! ## Building -/

/-- The graph without nodes. -/
def empty : DependencyGraph := ⟨.empty, .empty, .empty, 0⟩

/-- Adds a node, unless one with its key is present. -/
def addNode (g : DependencyGraph) (n : Node) : DependencyGraph :=
  { g with table := g.table.insertNew n.key n }

/-- Appends an edge to the list under a key. -/
def append (t : Table Text (List Edge)) (key : Text) (e : Edge) : Table Text (List Edge) :=
  t.insert key (t.getD key [] ++ [e])

/-- Adds an edge, and its ends where they are missing. -/
def addEdge (g : DependencyGraph) (e : Edge) : DependencyGraph :=
  let g := (g.addNode e.source).addNode e.target
  { g with
    outgoing := append g.outgoing e.source.key e
    incoming := append g.incoming e.target.key e
    edgeCount := g.edgeCount + 1 }

/-! ## Looking -/

/-- Whether a node with this node's key is present. -/
def hasNode (g : DependencyGraph) (n : Node) : Bool := g.table.contains n.key

/-- The nodes in order. -/
def nodes (g : DependencyGraph) : List Node := g.table.values

/-- The edges, grouped by their sources. -/
def edges (g : DependencyGraph) : List Edge := g.outgoing.values.flatten

/-- The edges out of a key. -/
def edgesFrom (g : DependencyGraph) (key : Text) : List Edge := g.outgoing.getD key []

/-- The edges into a key. -/
def edgesTo (g : DependencyGraph) (key : Text) : List Edge := g.incoming.getD key []

/-- What a node depends on, once per edge. -/
def dependencies (g : DependencyGraph) (n : Node) : List Node := (g.edgesFrom n.key).map Edge.target

/-- What depends on a node, once per edge. -/
def dependents (g : DependencyGraph) (n : Node) : List Node := (g.edgesTo n.key).map Edge.source

/-- The names of the routines that a routine calls, exported or not, each once. -/
def calledFunctions (g : DependencyGraph) (name : Text) : List Text :=
  let targets := [false, true].flatMap fun exported =>
    (g.edgesFrom (Node.function name exported).key).map Edge.target
  let names := targets.filterMap fun n =>
    match n with
    | .function callee _ => some callee
    | _ => none
  (Table.ofList (names.map fun callee => (callee, ()))).keys

/-- The size of a graph. -/
structure Stats where
  nodes : Nat
  edges : Nat
  functions : Nat
  vars : Nat
deriving DecidableEq, Repr

/-- Counts nodes and edges. -/
def stats (g : DependencyGraph) : Stats where
  nodes := g.table.size
  edges := g.edgeCount
  functions := g.nodes.countP Node.isFunction
  vars := g.nodes.countP Node.isVariable

/-! ## Breadth-first search -/

/-- The targets of edges whose keys were not seen yet, and all keys that are seen then. -/
def unseen : List Edge → (seen : List Text) → List Node × List Text
  | [], seen => ([], seen)
  | e :: rest, seen =>
    if e.target.key ∈ seen then unseen rest seen
    else
      let (more, seen) := unseen rest (e.target.key :: seen)
      (e.target :: more, seen)

/-- Reaches nodes from a queue, at most the given number. -/
def reach (g : DependencyGraph) : (bound : Nat) → (queue : List Node) →
    (seen : List Text) → List Node
  | 0, _, _ => []
  | _ + 1, [], _ => []
  | n + 1, v :: queue, seen =>
    let (more, seen) := unseen (g.edgesFrom v.key) seen
    v :: reach g n (queue ++ more) seen

/-- All nodes that can be reached from a start, the nearest first, with the start itself. -/
def reachable (g : DependencyGraph) (start : Node) : List Node :=
  reach g (g.table.size + 1) [start] [start.key]

/-- A search for a path. -/
structure PathSearch where
  /-- The nodes to look at, in order. -/
  queue : List Node
  /-- The keys that were seen. -/
  seen : List Text
  /-- The node from which a key was first seen. -/
  parents : Table Text Node

namespace PathSearch

/-- Looks at a node in front of a queue: what its edges lead to and was not seen yet comes from
it. -/
def look (g : DependencyGraph) (s : PathSearch) (v : Node) (queue : List Node) : PathSearch :=
  let (more, seen) := unseen (g.edgesFrom v.key) s.seen
  ⟨queue ++ more, seen, s.parents.insertAll (more.map fun n => (n.key, v))⟩

/-- Looks at nodes until one with the key is in front, at most at the given number. -/
def run (g : DependencyGraph) (key : Text) : (bound : Nat) → PathSearch → PathSearch
  | 0, s => s
  | n + 1, s =>
    match s.queue with
    | [] => s
    | v :: queue => if v.key == key then s else run g key n (s.look g v queue)

/-- The way back from a node along its parents, at most so many of them. -/
def wayBack (s : PathSearch) : (bound : Nat) → Node → List Node
  | 0, v => [v]
  | n + 1, v =>
    match s.parents.get? v.key with
    | none => [v]
    | some p => v :: wayBack s n p

end PathSearch

/-- The end of the search for a path between two nodes: a node with the key of the second one is in
front, or none is left. -/
def pathSearch (g : DependencyGraph) (start target : Node) : PathSearch :=
  PathSearch.run g target.key (g.table.size + 1) ⟨[start], [start.key], .empty⟩

/-- A shortest way from one node to another, with both ends. -/
def path? (g : DependencyGraph) (start target : Node) : Option (List Node) :=
  let s := g.pathSearch start target
  s.queue.head?.map fun v => (s.wayBack s.parents.size v).reverse

/-! ## Depth-first search -/

/-- Cycles that were found, and the keys that were seen. -/
structure CycleSearch where
  cycles : List (List Text)
  seen : List Text

/-- The part of a way, given from its end, that starts at a key. -/
def cycleFrom (key : Text) (way : List Text) : List Text :=
  key :: (way.takeWhile fun k => k != key).reverse

/-- Follows an edge from the end of a way to a key: `search` goes on from a key that was not seen
before, and an edge back to the way closes a cycle. -/
def follow (search : Text → CycleSearch → CycleSearch) (way : List Text) (found : CycleSearch)
    (target : Text) : CycleSearch :=
  if target ∉ found.seen then search target found
  else if target ∈ way then { found with cycles := found.cycles ++ [cycleFrom target way] }
  else found

/-- Searches from a key that was not seen before. `way` leads to it, nearest first. The first
argument bounds the length of the way. -/
def searchFrom (g : DependencyGraph) :
    (bound : Nat) → (way : List Text) → Text → CycleSearch → CycleSearch
  | 0, _, _, found => found
  | n + 1, way, key, found =>
    (g.edgesFrom key).foldl (fun found e =>
      follow (searchFrom g n (key :: way)) (key :: way) found e.target.key)
      { found with seen := key :: found.seen }

/-- The keys of the cycles that a search in the order of the nodes closes. -/
def cycleKeys (g : DependencyGraph) : List (List Text) :=
  (g.table.keys.foldl (fun found key =>
    if key ∈ found.seen then found else searchFrom g g.table.size [] key found)
    (CycleSearch.mk [] [])).cycles

/-- The cycles that a depth-first search closes, each from the node at which it is closed. -/
def cycles (g : DependencyGraph) : List (List Node) :=
  g.cycleKeys.map fun keys => keys.filterMap fun k => g.table.get? k

/-! ## Order -/

/-- The nodes in an order in which every edge goes forward, unless there is a cycle. -/
def topological? (g : DependencyGraph) : Option (List Node) :=
  (Order.sort? (fun k => (g.edgesFrom k).map fun e => e.target.key)
      (g.table.map fun k _ => (g.edgesTo k).length)).map
    fun keys => keys.filterMap fun k => g.table.get? k

end DependencyGraph

end Gradual
