import Gradual.Graph.Dependency
import Gradual.Syntax.Stmt

/-!
# The dependency graph of a module

Variables depend on what they are assigned, routines on what they call, results on what is returned,
and the positional parameters of a routine on the arguments it is called with.
-/

namespace Gradual

namespace DependencyGraph

/-- Where the graph is being built: the file, the routines it declares with their export flags, and
the scope and routine around. -/
structure Site where
  file : Text
  routines : Table Text Bool
  scope : Scope
  routine : Option Text

namespace Site

/-- The spelling of a routine's declaration, or the name itself. -/
def declared (s : Site) (name : Text) : Text := (s.routines.findKey? name).getD name

/-- The node of a routine. -/
def function (s : Site) (name : Text) : Node := .function name (s.routines.getD name false)

/-- The node of a variable in the current scope. -/
def var (s : Site) (name : Text) : Node := .var name s.scope

/-- An edge at a position. -/
def edge (s : Site) (source target : Node) (kind : EdgeKind) (loc : Option Position) : Edge :=
  ⟨source, target, kind, loc.map (Location.ofPosition s.file)⟩

/-- Adds an edge from a node that may be absent. -/
def link (s : Site) (source : Option Node) (target : Node) (kind : EdgeKind) (loc : Option Position)
    (g : DependencyGraph) : DependencyGraph :=
  match source with
  | some n => g.addEdge (s.edge n target kind loc)
  | none => g

/-- Adds an edge from the routine around, if there is one. -/
def linkCaller (s : Site) (target : Node) (kind : EdgeKind) (loc : Option Position)
    (g : DependencyGraph) : DependencyGraph :=
  s.link (s.routine.map s.function) target kind loc g

end Site

/-- The name of the parameter at a position. -/
def positional (index : Nat) : Text := "param_" ++ Text.ofNat index

/-- The method that a callee names, if it is a member of a name. -/
def calledMethod? : Expr → Option Node
  | .member (.ident object _) name _ => some (.method object name)
  | _ => none

/-- The field that a member access names, if it is a member of a name. -/
def accessedField? (object : Expr) (name : Text) : Option Node :=
  match object with
  | .ident o _ => some (.field o name)
  | _ => none

mutual

/-- Adds what a node depends on inside an expression. Without a node only calls and what they bring
are added. -/
def expression (s : Site) : Option Node → EdgeKind → Expr → DependencyGraph → DependencyGraph
  | source, kind, .ident name loc, g => s.link source (s.var name) kind loc g
  | source, kind, .binary _ left right _, g =>
    expression s source kind right (expression s source kind left g)
  | source, kind, .unary _ operand _, g => expression s source kind operand g
  | source, _, .call callee args loc, g =>
    match callee with
    | .ident name _ =>
      let name := s.declared name
      let g := s.link source (s.function name) .expression loc g
      arguments s name 0 args (s.linkCaller (s.function name) .expression loc g)
    | other =>
      let g := match calledMethod? other with
        | some method => s.link source method .methodCall loc g
        | none => g
      expressions s source args g
  | source, _, .member object name loc, g =>
    let g := match accessedField? object name with
      | some field => s.link source field .fieldAccess loc g
      | none => g
    expression s none .expression object g
  | source, kind, .index object key _, g =>
    expression s none .expression key (expression s source kind object g)
  | source, _, .choice condition whenTrue whenFalse _, g =>
    expression s source .conditional whenFalse
      (expression s source .conditional whenTrue (expression s none .expression condition g))
  | _, _, .array elements _, g => expressions s none elements g
  | _, _, .record fields _, g => fieldValues s fields g
  | _, _, .new _ args _, g => expressions s none args g
  | _, _, .number .., g | _, _, .string .., g | _, _, .boolean .., g | _, _, .date .., g
  | _, _, .undefined _, g
  | _, _, .null _, g => g

/-- Adds what a node depends on inside expressions. -/
def expressions (s : Site) (source : Option Node) : List Expr → DependencyGraph → DependencyGraph
  | [], g => g
  | e :: rest, g => expressions s source rest (expression s source .expression e g)

/-- Adds what the positional parameters of a routine depend on, from an index on. -/
def arguments (s : Site) (routine : Text) : Nat → List Expr → DependencyGraph → DependencyGraph
  | _, [], g => g
  | i, e :: rest, g =>
    arguments s routine (i + 1) rest
      (expression s (some (.parameter routine (positional i))) (.parameter i) e g)

/-- Adds the calls inside the values of fields. -/
def fieldValues (s : Site) : List (Text × Expr) → DependencyGraph → DependencyGraph
  | [], g => g
  | (_, e) :: rest, g => fieldValues s rest (expression s none .expression e g)

end

/-- The kind of a dependency on an assigned value: a name is assigned as it is. -/
def assignedKind : Expr → EdgeKind
  | .ident .. => .assignment
  | _ => .expression

/-- Adds a node and what it depends on inside a value that is assigned to it. -/
def assignment (s : Site) (node : Node) (value : Expr) (g : DependencyGraph) : DependencyGraph :=
  expression s (some node) (assignedKind value) value (g.addNode node)

/-- The node of an assignment target: a variable, or a field of a name. -/
def targetNode? (s : Site) : Expr → Option Node
  | .ident name _ => some (s.var name)
  | .member (.ident object _) name _ => some (.field object name)
  | _ => none

/-- Adds an expression for its calls, if there is one. -/
def optional (s : Site) : Option Expr → DependencyGraph → DependencyGraph
  | some e, g => expression s none .expression e g
  | none, g => g

/-- Adds the parameters of a routine and what their default values depend on. -/
def parameters (s : Site) (routine : Text) (params : List Param) (g : DependencyGraph) :
    DependencyGraph :=
  params.foldl (fun g p =>
      let node : Node := .parameter routine p.name
      match p.default? with
      | some e => expression s (some node) .expression e (g.addNode node)
      | none => g.addNode node)
    g

mutual

/-- Adds what a statement brings. -/
def statement : Site → Stmt → DependencyGraph → DependencyGraph
  | s, .declare name exported value _, g =>
    let g := g.addNode (s.var name)
    let g := if exported then g.addNode (.var name .global) else g
    match value with
    | some e => assignment s (s.var name) e g
    | none => g
  | s, .routine _ name params body _ _, g =>
    let inside : Site := { s with scope := .function name, routine := some name }
    block inside body (parameters inside name params (g.addNode (s.function name)))
  | s, .assign target value _, g =>
    match targetNode? s target with
    | some node => assignment s node value g
    | none => g
  | s, .call name none args loc, g =>
    arguments s name 0 args (s.linkCaller (s.function name) .expression loc
      (g.addNode (s.function name)))
  | s, .call name (some object) args loc, g =>
    let g := match object with
      | .ident o _ => s.linkCaller (.method o name) .methodCall loc (g.addNode (.method o name))
      | _ => g
    expressions s none args g
  | s, .ret (some value) _, g =>
    match s.routine with
    | some routine =>
      expression s (some (.result routine)) .result value (g.addNode (.result routine))
    | none => g
  | s, .conditional c body rest _, g =>
    alternative s rest (block s body (expression s none .expression c g))
  | s, .forTo name first last body _, g =>
    let g := expression s (some (s.var name)) .expression first (g.addNode (s.var name))
    block s body (expression s none .expression last g)
  | s, .forEach name collection body _, g =>
    block s body (expression s (some (s.var name)) .expression collection (g.addNode (s.var name)))
  | s, .whileDo c body _, g => block s body (expression s none .expression c g)
  | s, .attempt body handler _, g => handlerBlock s handler (block s body g)
  | s, .raise message _, g => optional s message g
  | _, .ret none _, g | _, .brk _, g | _, .cont _, g => g

/-- Adds what statements bring. -/
def block : Site → List Stmt → DependencyGraph → DependencyGraph
  | _, [], g => g
  | s, first :: rest, g => block s rest (statement s first g)

/-- Adds what the handler of an attempt brings. -/
def handlerBlock : Site → Option (List Stmt) → DependencyGraph → DependencyGraph
  | _, none, g => g
  | s, some body, g => block s body g

/-- Adds what the other ways of a conditional bring. -/
def alternative : Site → Alternative → DependencyGraph → DependencyGraph
  | _, .none, g => g
  | s, .otherwise body, g => block s body g
  | s, .elsif c body rest, g =>
    alternative s rest (block s body (expression s none .expression c g))

end

/-- The routines that a module declares at its top level, with their export flags. -/
def routineFlags (p : Program) : Table Text Bool :=
  .ofList <| p.filterMap fun s =>
    match s with
    | .routine _ name _ _ exported _ => some (name, exported)
    | _ => none

/-- The dependency graph of a module. -/
def ofProgram (file : Text) (p : Program) : DependencyGraph :=
  block ⟨file, routineFlags p, .module file, none⟩ p empty

end DependencyGraph

end Gradual
