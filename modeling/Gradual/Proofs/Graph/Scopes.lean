import Gradual.Graph.Build
import Gradual.Proofs.Calls.Named
import Gradual.Proofs.Graph.Stored
import Gradual.Proofs.Keys

/-!
# The scopes of a dependency graph

While the graph of a module is built, the scope changes where a routine is entered and comes back
where it is left. Every addition is made at some site, and all variables that an addition mentions
are in the scope of its site, but for the copies of exported variables, which are added on their
own.

`Grows` says that a graph comes from another one by lawful additions. Main statement:
`scopes_ofProgram`.
-/

namespace Gradual

/-! ## Declarations anywhere -/

/-- The blocks in the other ways of a conditional. -/
def Alternative.blocks : Alternative → List (List Stmt)
  | .none => []
  | .otherwise body => [body]
  | .elsif _ body rest => body :: rest.blocks

/-- The blocks right inside a statement; that of a routine is one. -/
def Stmt.blocks : Stmt → List (List Stmt)
  | .conditional _ body rest _ => body :: rest.blocks
  | .routine _ _ _ body _ _ | .forTo _ _ _ body _ | .forEach _ _ body _
  | .whileDo _ body _ => [body]
  | .attempt body handler _ => body :: handler.toList
  | .declare .. | .assign .. | .call .. | .ret .. | .raise .. | .brk _ | .cont _ => []

/-- The flag of the routine that a statement declares under a name. -/
def Stmt.flagOf? (f : Text) : Stmt → Option Bool
  | .routine _ name _ _ exported _ => if name = f then some exported else none
  | _ => none

namespace Program

/-- The statement occurs in the module, at the top level or in a block at any depth. -/
inductive Has (p : Program) : Stmt → Prop where
  | top {s : Stmt} : s ∈ p → Has p s
  | within {s : Stmt} {body : List Stmt} : Has p s → body ∈ s.blocks → ∀ t ∈ body, Has p t

/-- The module declares a routine of this name somewhere. -/
def Declares (p : Program) (r : Text) : Prop :=
  ∃ kind params body exported loc, p.Has (.routine kind r params body exported loc)

/-- The module declares an exported variable of this name somewhere. -/
def Exports (p : Program) (x : Text) : Prop := ∃ value loc, p.Has (.declare x true value loc)

/-- The flag of a routine: that of its last declaration at the top level, if there is one. -/
def exportFlag (p : Program) (name : Text) : Bool :=
  (p.filterMap (Stmt.flagOf? name)).getLast?.getD false

end Program

/-- The flag a routine's node carries is that of its last declaration at the top level. -/
theorem DependencyGraph.getD_routineFlags (p : Program) (name : Text) :
    (routineFlags p).getD name false = p.exportFlag name := by
  rw [Table.getD, routineFlags, Table.get?_ofList, List.filterMap_filterMap, Program.exportFlag]
  refine congrArg (fun flags => (List.getLast? flags).getD false)
    (List.filterMap_congr fun s _ => ?_)
  cases s <;> rfl

/-! ## Places of nodes -/

namespace Node

/-- The name of a node of a routine. -/
def functionName? : Node → Option Text
  | function name _ => some name
  | _ => none

/-- Only the node of a routine has a routine's name. -/
theorem functionName?_eq_some_iff {n : Node} {name : Text} :
    n.functionName? = some name ↔ ∃ exported, n = function name exported := by
  cases n <;> simp [functionName?]

/-- A node at its place: a variable in the scope of the module or of a declared routine, the result
of a declared routine, or a routine with its flag. -/
def Placed (file : Text) (p : Program) : Node → Prop
  | var _ scope => scope = .module file ∨ ∃ r, p.Declares r ∧ scope = .function r
  | function name exported => exported = p.exportFlag name
  | result routine => p.Declares routine
  | parameter .. | field .. | method .. => True

/-- The node may be mentioned in a scope: it is no variable of another one. -/
def Fits (scope : Scope) : Node → Prop
  | var _ scope' => scope' = scope
  | _ => True

/-- The fifth unit of the key of a variable is the first of its scope. -/
theorem getElem?_key_var (x : Text) (scope : Scope) :
    (var x scope).key[4]? = some scope.initial := by
  obtain ⟨units, hkey⟩ := List.head?_eq_some_iff.1 scope.head?_key
  rw [key, hkey]
  rfl

/-- Nothing at its place is taken for a variable of the global scope. -/
theorem Placed.key_ne {file : Text} {p : Program} {n : Node} (h : n.Placed file p) (x : Text) :
    n.key ≠ (var x .global).key := by
  intro hkey
  have hmark : n.mark = [0x76, 0x61] := by
    rw [← take_key, hkey]
    rfl
  cases n with
  | var y scope =>
    have hinitial : scope.initial = Scope.global.initial := by
      have hunits := congrArg (fun key : Text => key[4]?) hkey
      rw [getElem?_key_var, getElem?_key_var] at hunits
      exact Option.some.inj hunits
    rcases h with rfl | ⟨r, -, rfl⟩ <;> simp [Scope.initial] at hinitial
  | _ => simp [mark] at hmark

end Node

/-- What may be added to the graph of a module: nodes at their places, copies of exported variables,
and edges between nodes at their places, where both ends are in one scope if they are variables. -/
def GraphUpdate.Lawful (file : Text) (p : Program) : GraphUpdate → Prop
  | node n => n.Placed file p ∨ ∃ x, p.Exports x ∧ n = .var x .global
  | edge e =>
    e.source.Placed file p ∧ e.target.Placed file p ∧ ∃ scope, e.source.Fits scope ∧
      e.target.Fits scope

namespace DependencyGraph

/-! ## Growing graphs -/

/-- The second graph comes from the first one by additions that the law allows. -/
def Grows (law : GraphUpdate → Prop) (g g' : DependencyGraph) : Prop :=
  ∃ us : List GraphUpdate, (∀ u ∈ us, law u) ∧ us.foldl apply g = g'

namespace Grows

variable {law : GraphUpdate → Prop} {g g' g'' : DependencyGraph}

/-- A graph grows into itself by no addition. -/
theorem refl (g : DependencyGraph) : Grows law g g := ⟨[], by simp, rfl⟩

/-- Growth in two steps is growth. -/
theorem trans (h : Grows law g g') (h' : Grows law g' g'') : Grows law g g'' := by
  obtain ⟨us, hus, rfl⟩ := h
  obtain ⟨vs, hvs, rfl⟩ := h'
  refine ⟨us ++ vs, fun u hu => (List.mem_append.1 hu).elim (hus u) (hvs u), ?_⟩
  rw [List.foldl_append]

/-- Adding a lawful node is growth. -/
theorem addNode {n : Node} (h : law (.node n)) (g : DependencyGraph) : Grows law g (g.addNode n) :=
  ⟨[.node n], by simpa using h, rfl⟩

/-- Adding a lawful edge is growth. -/
theorem addEdge {e : Edge} (h : law (.edge e)) (g : DependencyGraph) : Grows law g (g.addEdge e) :=
  ⟨[.edge e], by simpa using h, rfl⟩

/-- A graph that grew out of nothing stores what the law allows. -/
theorem stores (h : Grows law empty g) :
    ∃ us : List GraphUpdate, (∀ u ∈ us, law u) ∧
      g.Stores (us.flatMap GraphUpdate.nodes) (us.filterMap GraphUpdate.edge?) := by
  obtain ⟨us, hus, rfl⟩ := h
  refine ⟨us, hus, ?_⟩
  have hrun := stores_empty.foldl us
  rwa [List.nil_append, List.nil_append] at hrun

/-- Every node of a graph grown from nothing came with some lawful addition. -/
theorem exists_of_mem_nodes (h : Grows law empty g) {n : Node} (hn : n ∈ g.nodes) :
    ∃ u, law u ∧ n ∈ u.nodes := by
  obtain ⟨us, hus, hstores⟩ := h.stores
  obtain ⟨k, hk⟩ := Table.mem_values_iff.1 hn
  rw [hstores.get?_eq] at hk
  obtain ⟨u, hu, hnu⟩ := List.mem_flatMap.1 (List.mem_of_find?_eq_some hk)
  exact ⟨u, hus u hu, hnu⟩

/-- A graph grown from nothing holds a log of lawful edges. -/
theorem holds (h : Grows law empty g) : ∃ log, g.Holds log ∧ ∀ e ∈ log, law (.edge e) := by
  obtain ⟨us, hus, hstores⟩ := h.stores
  refine ⟨_, hstores.holds, fun e he => ?_⟩
  obtain ⟨u, hu, hedge⟩ := List.mem_filterMap.1 he
  cases u with
  | node n => cases hedge
  | edge e' =>
    cases hedge
    exact hus _ hu

end Grows

/-! ## Sites -/

variable {file : Text} {p : Program} {s : Site}

/-- A site of the module: its scope is a place for variables, and the routine around is declared. -/
structure Site.Proper (file : Text) (p : Program) (s : Site) : Prop where
  routines_eq : s.routines = routineFlags p
  placed_var : ∀ x, (s.var x).Placed file p
  declares : ∀ r ∈ s.routine, p.Declares r

/-- A node that may be an end of an edge at a site. -/
def Site.Offers (file : Text) (p : Program) (s : Site) (n : Node) : Prop :=
  n.Placed file p ∧ n.Fits s.scope

namespace Site.Proper

/-- A variable is offered by the site that resolves it. -/
theorem var (h : s.Proper file p) (x : Text) : s.Offers file p (s.var x) := ⟨h.placed_var x, rfl⟩

/-- A routine's node is offered at every proper site. -/
theorem function (h : s.Proper file p) (name : Text) : s.Offers file p (s.function name) := by
  refine ⟨?_, trivial⟩
  show s.routines.getD name false = p.exportFlag name
  rw [h.routines_eq, getD_routineFlags]

/-- The result of a routine is offered inside the routine. -/
theorem result (h : s.Proper file p) {r : Text} (hr : s.routine = some r) :
    s.Offers file p (.result r) :=
  ⟨h.declares r hr, trivial⟩

/-- The site in the body of a declared routine. -/
theorem within (h : s.Proper file p) {r : Text} (hr : p.Declares r) :
    Site.Proper file p { s with scope := .function r, routine := some r } :=
  ⟨h.routines_eq, fun _ => .inr ⟨r, hr, rfl⟩, fun _ h' => Option.some.inj h' ▸ hr⟩

end Site.Proper

/-- Sources of edges that may stand at a site. -/
def Site.OffersAll (file : Text) (p : Program) (s : Site) (source : Option Node) : Prop :=
  ∀ n ∈ source, s.Offers file p n

theorem Site.offers_parameter (routine name : Text) : s.Offers file p (.parameter routine name) :=
  ⟨trivial, trivial⟩

theorem Site.offers_field (object name : Text) : s.Offers file p (.field object name) :=
  ⟨trivial, trivial⟩

theorem Site.offers_method (object name : Text) : s.Offers file p (.method object name) :=
  ⟨trivial, trivial⟩

/-- No node at all is offered anywhere. -/
theorem Site.offersAll_none : s.OffersAll file p none := fun _ h => by cases h

/-- One node is offered where it is offered by itself. -/
theorem Site.offersAll_some {n : Node} (h : s.Offers file p n) : s.OffersAll file p (some n) := by
  rintro _ ⟨⟩
  exact h

namespace Grows

/-- Adding a node that the site offers is lawful. -/
theorem addOffered {n : Node} (h : s.Offers file p n) (g : DependencyGraph) :
    Grows (GraphUpdate.Lawful file p) g (g.addNode n) := addNode (.inl h.1) g

/-- An edge between nodes that the site offers is lawful. -/
theorem link {source : Option Node} (hsource : s.OffersAll file p source) {target : Node}
    (htarget : s.Offers file p target) (kind : EdgeKind) (loc : Option Position)
    (g : DependencyGraph) :
    Grows (GraphUpdate.Lawful file p) g (s.link source target kind loc g) := by
  cases source with
  | none => exact refl g
  | some n =>
    have hn := hsource n rfl
    exact addEdge (e := s.edge n target kind loc) ⟨hn.1, htarget.1, s.scope, hn.2, htarget.2⟩ g

theorem linkCaller (hs : s.Proper file p) {target : Node} (htarget : s.Offers file p target)
    (kind : EdgeKind) (loc : Option Position) (g : DependencyGraph) :
    Grows (GraphUpdate.Lawful file p) g (s.linkCaller target kind loc g) := by
  refine link (fun n hn => ?_) htarget kind loc g
  obtain ⟨r, -, rfl⟩ := Option.map_eq_some_iff.1 hn
  exact hs.function r

end Grows

/-! ## Expressions -/

mutual

/-- What is added for an expression is lawful if the node that depends on it is one of the site. By
recursion on the expression: the site stays the same, and the only other nodes that edges start from
are parameters. -/
theorem grows_expression (hs : s.Proper file p) :
    (source : Option Node) → s.OffersAll file p source → (kind : EdgeKind) → (e : Expr) →
      (g : DependencyGraph) →
    Grows (GraphUpdate.Lawful file p) g (expression s source kind e g)
  | _, hsource, kind, .ident name loc, g => .link hsource (hs.var name) kind loc g
  | source, hsource, kind, .binary _ left right _, g =>
    (grows_expression hs source hsource kind left g).trans
      (grows_expression hs source hsource kind right _)
  | source, hsource, kind, .unary _ operand _, g =>
    grows_expression hs source hsource kind operand g
  | source, hsource, _, .call callee args loc, g => by
    have hargs := grows_expressions hs source hsource args
    cases callee with
    | ident name _ =>
      have hname := hs.function (s.declared name)
      exact ((Grows.link hsource hname .expression loc g).trans
        (.linkCaller hs hname .expression loc _)).trans
        (grows_arguments hs (s.declared name) 0 args _)
    | member object name _ =>
      cases object with
      | ident o _ =>
        exact (Grows.link hsource (Site.offers_method o name) .methodCall loc g).trans (hargs _)
      | _ => exact hargs g
    | _ => exact hargs g
  | source, hsource, _, .member object name loc, g => by
    have hobject := grows_expression hs none Site.offersAll_none .expression object
    cases object with
    | ident o _ =>
      exact (Grows.link hsource (Site.offers_field o name) .fieldAccess loc g).trans (hobject _)
    | _ => exact hobject g
  | source, hsource, kind, .index object key _, g =>
    (grows_expression hs source hsource kind object g).trans
      (grows_expression hs none Site.offersAll_none .expression key _)
  | source, hsource, _, .choice condition whenTrue whenFalse _, g =>
    ((grows_expression hs none Site.offersAll_none .expression condition g).trans
      (grows_expression hs source hsource .conditional whenTrue _)).trans
        (grows_expression hs source hsource .conditional whenFalse _)
  | _, _, _, .array elements _, g => grows_expressions hs none Site.offersAll_none elements g
  | _, _, _, .record fields _, g => grows_fieldValues hs fields g
  | _, _, _, .new _ args _, g => grows_expressions hs none Site.offersAll_none args g
  | _, _, _, .number .., g | _, _, _, .string .., g | _, _, _, .boolean .., g | _, _, _, .date .., g
  | _, _, _, .undefined _, g | _, _, _, .null _, g => .refl g

/-- Expressions one after another let the graph grow. -/
theorem grows_expressions (hs : s.Proper file p) (source : Option Node)
    (hsource : s.OffersAll file p source) :
    (es : List Expr) → (g : DependencyGraph) →
      Grows (GraphUpdate.Lawful file p) g (expressions s source es g)
  | [], g => .refl g
  | e :: rest, g =>
    (grows_expression hs source hsource .expression e g).trans
      (grows_expressions hs source hsource rest _)

/-- The arguments of a call let the graph grow, each with the parameter it is passed for. -/
theorem grows_arguments (hs : s.Proper file p) (routine : Text) :
    (i : Nat) → (es : List Expr) → (g : DependencyGraph) →
    Grows (GraphUpdate.Lawful file p) g (arguments s routine i es g)
  | _, [], g => .refl g
  | i, e :: rest, g =>
    (grows_expression hs (some (.parameter routine (positional i)))
      (Site.offersAll_some (Site.offers_parameter _ _))
      (.parameter i) e g).trans (grows_arguments hs routine (i + 1) rest _)

/-- The values of fields let the graph grow. -/
theorem grows_fieldValues (hs : s.Proper file p) :
    (fields : List (Text × Expr)) → (g : DependencyGraph) →
    Grows (GraphUpdate.Lawful file p) g (fieldValues s fields g)
  | [], g => .refl g
  | (_, e) :: rest, g =>
    (grows_expression hs none Site.offersAll_none .expression e g).trans
      (grows_fieldValues hs rest _)

end

/-! ## Statements -/

/-- A node and the expression that it depends on let the graph grow. -/
theorem grows_dependent (hs : s.Proper file p) {node : Node} (hnode : s.Offers file p node)
    (kind : EdgeKind) (e : Expr) (g : DependencyGraph) :
    Grows (GraphUpdate.Lawful file p) g (expression s (some node) kind e (g.addNode node)) :=
  (Grows.addOffered hnode g).trans
    (grows_expression hs (some node) (Site.offersAll_some hnode) kind e _)

/-- An expression that may be absent lets the graph grow. -/
theorem grows_optional (hs : s.Proper file p) (value : Option Expr) (g : DependencyGraph) :
    Grows (GraphUpdate.Lawful file p) g (optional s value g) := by
  cases value with
  | none => exact .refl g
  | some e => exact grows_expression hs none Site.offersAll_none .expression e g

/-- The parameters of a routine let the graph grow, each with its default. -/
theorem grows_parameters (hs : s.Proper file p) (routine : Text) (params : List Param)
    (g : DependencyGraph) :
    Grows (GraphUpdate.Lawful file p) g (parameters s routine params g) := by
  induction params generalizing g with
  | nil => exact .refl g
  | cons param params ih =>
    have hnode : s.Offers file p (.parameter routine param.name) := Site.offers_parameter _ _
    refine Grows.trans ?_ (ih _)
    dsimp only
    cases param.default? with
    | none => exact .addOffered hnode g
    | some e => exact grows_dependent hs hnode .expression e g

/-- A declaration in the module lets the graph grow; an exported variable gets its copy. -/
theorem grows_declare (hs : s.Proper file p) {x : Text} {exported : Bool} {value : Option Expr}
    {loc : Option Position} (h : p.Has (.declare x exported value loc)) (g : DependencyGraph) :
    Grows (GraphUpdate.Lawful file p) g (statement s (.declare x exported value loc) g) := by
  have hvar : Grows (GraphUpdate.Lawful file p) g (g.addNode (s.var x)) := .addOffered (hs.var x) g
  have hcopy : Grows (GraphUpdate.Lawful file p) g
      (if exported then (g.addNode (s.var x)).addNode (.var x .global)
        else g.addNode (s.var x)) := by
    cases exported with
    | false => exact hvar
    | true => exact hvar.trans (.addNode (.inr ⟨x, ⟨value, loc, h⟩, rfl⟩) _)
  cases value with
  | none => exact hcopy
  | some e => exact hcopy.trans (grows_dependent hs (hs.var x) (assignedKind e) e _)

mutual

/-- What is added for a statement of the module is lawful. By recursion on the statement: the site
changes only where a routine is entered, which the module declares. -/
theorem grows_statement : (s : Site) → s.Proper file p → (st : Stmt) → p.Has st →
    (g : DependencyGraph) → Grows (GraphUpdate.Lawful file p) g (statement s st g)
  | _, hs, .declare _ _ _ _, h, g => grows_declare hs h g
  | s, hs, .routine kind name params body exported loc, h, g => by
    have hinside := hs.within (r := name) ⟨kind, params, body, exported, loc, h⟩
    exact ((Grows.addOffered (hs.function name) g).trans
      (grows_parameters hinside name params _)).trans
      (grows_block _ hinside body (h.within List.mem_cons_self) _)
  | s, hs, .assign target value _, _, g => by
    cases target with
    | ident name _ => exact grows_dependent hs (hs.var name) (assignedKind value) value g
    | member object name _ =>
      cases object with
      | ident o _ =>
        exact grows_dependent hs (Site.offers_field o name) (assignedKind value) value g
      | _ => exact .refl g
    | _ => exact .refl g
  | s, hs, .call name none args loc, _, g =>
    ((Grows.addOffered (hs.function name) g).trans
      (.linkCaller hs (hs.function name) .expression loc _)).trans
      (grows_arguments hs name 0 args _)
  | s, hs, .call name (some object) args loc, _, g => by
    have hargs := grows_expressions hs none Site.offersAll_none args
    cases object with
    | ident o _ =>
      have hmethod : s.Offers file p (.method o name) := Site.offers_method o name
      exact ((Grows.addOffered hmethod g).trans (.linkCaller hs hmethod .methodCall loc _)).trans
        (hargs _)
    | _ => exact hargs g
  | s, hs, .ret value _, _, g => by
    cases value with
    | none => exact .refl g
    | some value =>
      rw [statement]
      cases hr : s.routine with
      | none => exact .refl g
      | some r => exact grows_dependent hs (hs.result hr) .result value g
  | s, hs, .conditional c body rest _, h, g => by
    have hrest : ∀ b ∈ rest.blocks, ∀ st ∈ b, p.Has st :=
      fun b hb => h.within (List.mem_cons_of_mem body hb)
    exact ((grows_expression hs none Site.offersAll_none .expression c g).trans
      (grows_block s hs body (h.within List.mem_cons_self) _)).trans
        (grows_alternative s hs rest hrest _)
  | s, hs, .forTo name first last body _, h, g =>
    ((grows_dependent hs (hs.var name) .expression first g).trans
      (grows_expression hs none Site.offersAll_none .expression last _)).trans
        (grows_block s hs body (h.within List.mem_cons_self) _)
  | s, hs, .forEach name collection body _, h, g =>
    (grows_dependent hs (hs.var name) .expression collection g).trans
      (grows_block s hs body (h.within List.mem_cons_self) _)
  | s, hs, .whileDo c body _, h, g =>
    (grows_expression hs none Site.offersAll_none .expression c g).trans
      (grows_block s hs body (h.within List.mem_cons_self) _)
  | s, hs, .attempt body handler _, h, g => by
    have hhandler : ∀ b ∈ handler, ∀ st ∈ b, p.Has st :=
      fun b hb => h.within (List.mem_cons_of_mem body (Option.mem_toList.2 hb))
    exact (grows_block s hs body (h.within List.mem_cons_self) g).trans
      (grows_handlerBlock s hs handler hhandler _)
  | _, hs, .raise message _, _, g => grows_optional hs message g
  | _, _, .brk _, _, g | _, _, .cont _, _, g => .refl g

/-- Blocks let the graph grow, by recursion along the statements. -/
theorem grows_block : (s : Site) → s.Proper file p → (body : List Stmt) → (∀ st ∈ body, p.Has st) →
    (g : DependencyGraph) → Grows (GraphUpdate.Lawful file p) g (block s body g)
  | _, _, [], _, g => .refl g
  | s, hs, first :: rest, h, g =>
    (grows_statement s hs first (h first List.mem_cons_self) g).trans
      (grows_block s hs rest (fun st hst => h st (List.mem_cons_of_mem first hst)) _)

theorem grows_handlerBlock : (s : Site) → s.Proper file p → (handler : Option (List Stmt)) →
    (∀ b ∈ handler, ∀ st ∈ b, p.Has st) → (g : DependencyGraph) →
    Grows (GraphUpdate.Lawful file p) g (handlerBlock s handler g)
  | _, _, none, _, g => .refl g
  | s, hs, some body, h, g => grows_block s hs body (h body rfl) g

theorem grows_alternative : (s : Site) → s.Proper file p → (a : Alternative) →
    (∀ b ∈ a.blocks, ∀ st ∈ b, p.Has st) → (g : DependencyGraph) →
    Grows (GraphUpdate.Lawful file p) g (alternative s a g)
  | _, _, .none, _, g => .refl g
  | s, hs, .otherwise body, h, g => grows_block s hs body (h body List.mem_cons_self) g
  | s, hs, .elsif c body rest, h, g =>
    ((grows_expression hs none Site.offersAll_none .expression c g).trans
      (grows_block s hs body (h body List.mem_cons_self) _)).trans
        (grows_alternative s hs rest (fun b hb => h b (List.mem_cons_of_mem body hb)) _)

end

/-! ## Modules -/

/-- The whole graph of a module is grown from the empty one by lawful additions. -/
theorem grows_ofProgram (file : Text) (p : Program) :
    Grows (GraphUpdate.Lawful file p) empty (ofProgram file p) := by
  have hsite : Site.Proper file p ⟨file, routineFlags p, .module file, none⟩ :=
    ⟨rfl, fun _ => .inl rfl, fun _ h => by cases h⟩
  exact grows_block _ hsite p (fun _ => .top) empty

/-- The node is listed, or it is an end of an edge. -/
def Mentions (g : DependencyGraph) (n : Node) : Prop :=
  n ∈ g.nodes ∨ ∃ e ∈ g.edges, n = e.source ∨ n = e.target

/-- What is mentioned is at its place, or it is the copy of an exported variable. -/
theorem placed_of_mentions {n : Node} (h : (ofProgram file p).Mentions n) :
    n.Placed file p ∨ ∃ x, p.Exports x ∧ n = .var x .global := by
  have hgrows := grows_ofProgram file p
  have hedge : ∀ e, GraphUpdate.Lawful file p (.edge e) → n = e.source ∨ n = e.target →
      n.Placed file p := by
    rintro e ⟨hsource, htarget, -⟩ (rfl | rfl)
    · exact hsource
    · exact htarget
  rcases h with hn | ⟨e, he, hn⟩
  · obtain ⟨u, hu, hnu⟩ := hgrows.exists_of_mem_nodes hn
    cases u with
    | node m =>
      rw [List.mem_singleton.1 hnu]
      exact hu
    | edge e => exact .inl (hedge e hu (by simpa [GraphUpdate.nodes] using hnu))
  · obtain ⟨log, hholds, hlaw⟩ := hgrows.holds
    exact .inl (hedge e (hlaw e (hholds.mem_edges.1 he)) hn)

/-- Each node is listed once. -/
theorem Holds.nodup_nodes {g : DependencyGraph} {log : List Edge} (h : g.Holds log) :
    g.nodes.Nodup := by
  have hkeys : g.nodes.map Node.key = g.table.keys := by
    rw [nodes, Table.values, Table.keys, List.map_map]
    exact List.map_congr_left fun e he => h.key_eq e.1 e.2 (Table.get?_eq_some_iff.2 he)
  refine List.Nodup.of_map Node.key ?_
  rw [hkeys]
  exact g.table.nodup_keys

/-- Routines are listed under different names if their names tell their flags. -/
theorem Holds.nodup_functionNames {g : DependencyGraph} {log : List Edge} (h : g.Holds log)
    (hflag : ∀ name x y, .function name x ∈ g.nodes → .function name y ∈ g.nodes → x = y) :
    (g.nodes.filterMap Node.functionName?).Nodup := by
  refine List.pairwise_filterMap.2 (h.nodup_nodes.imp_of_mem ?_)
  rintro n m hn hm hne name hname _ hname' rfl
  obtain ⟨x, rfl⟩ := Node.functionName?_eq_some_iff.1 hname
  obtain ⟨y, rfl⟩ := Node.functionName?_eq_some_iff.1 hname'
  exact hne (by rw [hflag name x y hn hm])

/-- **Scopes are kept apart.** In the dependency graph of a module, an edge between two variables
joins variables of one scope. A variable is in the scope of the module or of a routine that the
module declares, or it is the copy of an exported variable, and then no edge starts or ends there. A
result belongs to a declared routine. For each name there is at most one routine, with the flag of
the last declaration at the top level. -/
theorem scopes_ofProgram (file : Text) (p : Program) :
    let g := ofProgram file p
    (∀ e ∈ g.edges, ∀ x s y t, e.source = .var x s → e.target = .var y t → s = t) ∧
      (∀ x s, g.Mentions (.var x s) → s = .module file ∨ (∃ r, p.Declares r ∧ s = .function r) ∨
        s = .global ∧ p.Exports x ∧ g.edgesFrom (Node.var x s).key = [] ∧
          g.edgesTo (Node.var x s).key = []) ∧
      (∀ r, g.Mentions (.result r) → p.Declares r) ∧
      (g.nodes.filterMap Node.functionName?).Nodup ∧
      ∀ name exported, g.Mentions (.function name exported) → exported = p.exportFlag name := by
  intro g
  obtain ⟨log, hholds, hlaw⟩ := (grows_ofProgram file p).holds
  have hflag : ∀ name exported, g.Mentions (.function name exported) →
      exported = p.exportFlag name := by
    intro name exported h
    rcases placed_of_mentions h with h | ⟨x, -, h⟩
    · exact h
    · cases h
  refine ⟨?_, ?_, ?_, ?_, hflag⟩
  · intro e he x s y t hsource htarget
    obtain ⟨-, -, scope, hs, ht⟩ := hlaw e (hholds.mem_edges.1 he)
    rw [hsource] at hs
    rw [htarget] at ht
    exact hs.trans ht.symm
  · intro x s h
    rcases placed_of_mentions h with (h | h) | ⟨x', hx, h⟩
    · exact .inl h
    · exact .inr (.inl h)
    · cases h
      refine .inr (.inr ⟨rfl, hx, ?_, ?_⟩)
      · rw [hholds.edgesFrom_eq, List.filter_eq_nil_iff]
        intro e he hkey
        exact (hlaw e he).1.key_ne x (beq_iff_eq.1 hkey)
      · rw [hholds.edgesTo_eq, List.filter_eq_nil_iff]
        intro e he hkey
        exact (hlaw e he).2.1.key_ne x (beq_iff_eq.1 hkey)
  · intro r h
    rcases placed_of_mentions h with h | ⟨x, -, h⟩
    · exact h
    · cases h
  · exact hholds.nodup_functionNames fun name x y hx hy => by
      rw [hflag name x (.inl hx), hflag name y (.inl hy)]

end DependencyGraph

end Gradual
