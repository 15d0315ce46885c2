import Gradual.Graph.Build
import Gradual.Proofs.Calls.Named
import Gradual.Proofs.Graph.Built
import Gradual.Proofs.Keys

/-!
# The calls that a dependency graph draws

The dependency graph of a module has an edge from a routine to each routine that it is drawn to
call. Not every call is drawn. A call in the object of a method call is not, nor is one in an
assignment to something that is neither a variable nor a field of a name; a call in a default value
is, although it stands outside the body. And where a call in an expression is drawn to the routine
that its name stands for, a call in statement position is drawn to a routine of exactly its
spelling, declared or not.

Main statement: `mem_calledFunctions_ofProgram`. For every module, the edges between routines are
those of the drawn calls.
-/

namespace Gradual

/-! ## Drawn calls -/

mutual

/-- The drawn calls of an expression. -/
def Expr.drawn : Expr → List CallSite
  | .call callee args loc =>
    (match callee with
      | .ident name _ => [⟨name, args.length, true, loc⟩]
      | _ => []) ++ Expr.drawnIn args
  | .binary _ left right _ => left.drawn ++ right.drawn
  | .unary _ operand _ => operand.drawn
  | .member object _ _ => object.drawn
  | .index object key _ => object.drawn ++ key.drawn
  | .new _ args _ => Expr.drawnIn args
  | .choice condition whenTrue whenFalse _ => condition.drawn ++ whenTrue.drawn ++ whenFalse.drawn
  | .array elements _ => Expr.drawnIn elements
  | .record fields _ => Expr.drawnInFields fields
  | .number .. | .string .. | .boolean .. | .date .. | .undefined _ | .null _ | .ident .. => []

/-- The drawn calls of expressions. -/
def Expr.drawnIn : List Expr → List CallSite
  | [] => []
  | e :: rest => e.drawn ++ Expr.drawnIn rest

/-- The drawn calls of the values of fields. -/
def Expr.drawnInFields : List (Text × Expr) → List CallSite
  | [] => []
  | (_, e) :: rest => e.drawn ++ Expr.drawnInFields rest

end

/-- The drawn calls of an expression that may be absent. -/
def Expr.drawnInOption : Option Expr → List CallSite
  | some e => e.drawn
  | none => []

/-- The drawn calls of default values. -/
def Param.drawn (params : List Param) : List CallSite :=
  params.flatMap fun p => Expr.drawnInOption p.default?

/-- A variable, or a field of a name. -/
def Expr.isNamed : Expr → Bool
  | .ident .. | .member (.ident ..) _ _ => true
  | _ => false

/-- Calls with the routine that makes them; outside of routines nobody does. -/
def CallSite.madeBy (routine : Option Text) (calls : List CallSite) : List (Text × CallSite) :=
  match routine with
  | some f => calls.map fun c => (f, c)
  | none => []

mutual

/-- The drawn calls of a statement in a routine, with the routines that make them. -/
def Stmt.drawn : Option Text → Stmt → List (Text × CallSite)
  | r, .declare _ _ value _ => CallSite.madeBy r (Expr.drawnInOption value)
  | _, .routine _ name params body _ _ =>
    CallSite.madeBy (some name) (Param.drawn params) ++ Stmt.drawnIn (some name) body
  | r, .assign target value _ => CallSite.madeBy r (if target.isNamed then value.drawn else [])
  | r, .call name none args loc =>
    CallSite.madeBy r ([⟨name, args.length, false, loc⟩] ++ Expr.drawnIn args)
  | r, .call _ (some _) args _ => CallSite.madeBy r (Expr.drawnIn args)
  | r, .conditional c body rest _ =>
    CallSite.madeBy r c.drawn ++ Stmt.drawnIn r body ++ rest.drawn r
  | r, .forTo _ first last body _ =>
    CallSite.madeBy r (first.drawn ++ last.drawn) ++ Stmt.drawnIn r body
  | r, .forEach _ collection body _ => CallSite.madeBy r collection.drawn ++ Stmt.drawnIn r body
  | r, .whileDo c body _ => CallSite.madeBy r c.drawn ++ Stmt.drawnIn r body
  | r, .attempt body handler _ => Stmt.drawnIn r body ++ Stmt.drawnInHandler r handler
  | r, .ret value _ => CallSite.madeBy r (Expr.drawnInOption value)
  | r, .raise message _ => CallSite.madeBy r (Expr.drawnInOption message)
  | _, .brk _ | _, .cont _ => []

/-- The drawn calls of statements. -/
def Stmt.drawnIn : Option Text → List Stmt → List (Text × CallSite)
  | _, [] => []
  | r, s :: rest => s.drawn r ++ Stmt.drawnIn r rest

/-- The drawn calls of the handler of an attempt. -/
def Stmt.drawnInHandler : Option Text → Option (List Stmt) → List (Text × CallSite)
  | r, some body => Stmt.drawnIn r body
  | _, none => []

/-- The drawn calls of the other ways of a conditional. -/
def Alternative.drawn : Option Text → Alternative → List (Text × CallSite)
  | _, .none => []
  | r, .otherwise body => Stmt.drawnIn r body
  | r, .elsif c body rest => CallSite.madeBy r c.drawn ++ Stmt.drawnIn r body ++ rest.drawn r

end

namespace CallSite

/-- The calls made by a routine are those inside of it; outside of routines none is made by one. -/
theorem mem_madeBy {r : Option Text} {calls : List CallSite} {f : Text} {c : CallSite} :
    (f, c) ∈ madeBy r calls ↔ r = some f ∧ c ∈ calls := by
  cases r with
  | none => simp [madeBy]
  | some g => simp [madeBy, and_comm]

/-- The calls of two parts are made part by part. -/
theorem madeBy_append (r : Option Text) (as bs : List CallSite) :
    madeBy r (as ++ bs) = madeBy r as ++ madeBy r bs := by
  cases r with
  | none => rfl
  | some f => exact List.map_append

end CallSite

namespace DependencyGraph

/-! ## Edges between routines -/

/-- A routine calls another when some edge leads from a node of the first to one of the second. -/
theorem mem_calledFunctions {g : DependencyGraph} {f d : Text} :
    d ∈ g.calledFunctions f ↔
      ∃ x, ∃ e ∈ g.edgesFrom (Node.function f x).key, ∃ y, e.target = .function d y := by
  rw [calledFunctions, Table.mem_keys_ofList, List.map_map]
  simp only [Function.comp_def, List.map_id', List.mem_filterMap, List.mem_flatMap, List.mem_map]
  constructor
  · rintro ⟨n, ⟨x, -, e, he, rfl⟩, hn⟩
    refine ⟨x, e, he, ?_⟩
    cases htarget : e.target with
    | function name y =>
      rw [htarget] at hn
      cases hn
      exact ⟨y, rfl⟩
    | _ => rw [htarget] at hn; cases hn
  · rintro ⟨x, e, he, y, htarget⟩
    refine ⟨e.target, ⟨x, by cases x <;> simp, e, he, rfl⟩, ?_⟩
    rw [htarget]

/-- An edge brings one call, if it leads from a routine to a routine. -/
theorem mem_calledFunctions_addEdge {g : DependencyGraph} {e : Edge} {f d : Text} :
    d ∈ (g.addEdge e).calledFunctions f ↔
      d ∈ g.calledFunctions f ∨ (∃ x, e.source = .function f x) ∧
        ∃ y, e.target = .function d y := by
  have hedges : ∀ e' x, e' ∈ (g.addEdge e).edgesFrom (Node.function f x).key ↔
      e' ∈ g.edgesFrom (Node.function f x).key ∨ e.source = .function f x ∧ e' = e := by
    intro e' x
    have happend : (g.addEdge e).edgesFrom (Node.function f x).key =
        (append g.outgoing e.source.key e).getD (Node.function f x).key [] := rfl
    rw [happend, getD_append]
    by_cases hsource : e.source.key = (Node.function f x).key
    · rw [if_pos hsource, List.mem_append, List.mem_singleton]
      simp [edgesFrom, Node.key_eq_key_function_iff.1 hsource]
    · rw [if_neg hsource]
      have hne : e.source ≠ .function f x := fun h => hsource (by rw [h])
      simp [edgesFrom, hne]
  rw [mem_calledFunctions, mem_calledFunctions]
  simp only [hedges]
  constructor
  · rintro ⟨x, e', he' | ⟨hsource, rfl⟩, htarget⟩
    · exact .inl ⟨x, e', he', htarget⟩
    · exact .inr ⟨⟨x, hsource⟩, htarget⟩
  · rintro (⟨x, e', he', htarget⟩ | ⟨⟨x, hsource⟩, htarget⟩)
    · exact ⟨x, e', .inl he', htarget⟩
    · exact ⟨x, e, .inr ⟨hsource, rfl⟩, htarget⟩

/-- The name that a drawn call leads to. -/
def Site.target (s : Site) (c : CallSite) : Text :=
  if c.expectsValue then s.declared c.callee else c.callee

/-- The second graph has the edges between routines that the first has, and those of the calls. -/
def Draws (target : CallSite → Text) (calls : List (Text × CallSite))
    (g g' : DependencyGraph) : Prop :=
  ∀ f d, d ∈ g'.calledFunctions f ↔ d ∈ g.calledFunctions f ∨ ∃ c, (f, c) ∈ calls ∧ target c = d

namespace Draws

variable {target : CallSite → Text} {calls more : List (Text × CallSite)}
  {g g' g'' : DependencyGraph}

/-- A graph draws no calls to itself. -/
theorem refl (g : DependencyGraph) : Draws target [] g g := by
  intro f d
  simp

/-- A node draws no calls. -/
theorem addNode (g : DependencyGraph) (n : Node) : Draws target [] g (g.addNode n) := refl g

/-- Calls drawn one after another add up. -/
theorem trans (h : Draws target calls g g') (h' : Draws target more g' g'') :
    Draws target (calls ++ more) g g'' := by
  intro f d
  rw [h' f d, h f d, or_assoc]
  simp only [List.mem_append, or_and_right, exists_or]

/-- An edge out of something else than a routine draws no call. -/
theorem addEdge {e : Edge} (hsource : e.source.isFunction = false) (g : DependencyGraph) :
    Draws target [] g (g.addEdge e) := by
  intro f d
  have hne : ∀ x, e.source ≠ .function f x := by
    intro x h
    rw [h] at hsource
    cases hsource
  rw [mem_calledFunctions_addEdge]
  simp [hne]

end Draws

/-! ## Expressions -/

/-- A source of edges that is not a routine. -/
def Passive (source : Option Node) : Prop := ∀ n ∈ source, n.isFunction = false

/-- No source is passive. -/
theorem passive_none : Passive none := fun _ h => by cases h

/-- A source that is not a routine is passive. -/
theorem passive_some {n : Node} (h : n.isFunction = false) : Passive (some n) := by
  rintro _ ⟨⟩
  exact h

namespace Draws

variable {s : Site}

/-- No calls are drawn where there are none. -/
theorem nothing (s : Site) (g : DependencyGraph) :
    Draws s.target (CallSite.madeBy s.routine []) g g := by
  cases s.routine <;> exact refl g

/-- An edge from a passive source draws no call. -/
theorem link {source : Option Node} (hsource : Passive source) (target : Node) (kind : EdgeKind)
    (loc : Option Position) (g : DependencyGraph) :
    Draws s.target [] g (s.link source target kind loc g) := by
  cases source with
  | none => exact refl g
  | some n => exact addEdge (e := s.edge n target kind loc) (hsource n rfl) g

/-- The edge from the routine around to the one that a call leads to. -/
theorem linkCaller (c : CallSite) (kind : EdgeKind) (loc : Option Position) (g : DependencyGraph) :
    Draws s.target (CallSite.madeBy s.routine [c]) g
      (s.linkCaller (s.function (s.target c)) kind loc g) := by
  intro f d
  simp only [CallSite.mem_madeBy, List.mem_singleton]
  rw [Site.linkCaller]
  cases hr : s.routine with
  | none => simp [Site.link]
  | some r => simp [Site.link, mem_calledFunctions_addEdge, Site.edge, Site.function]

/-- The edge from the routine around to a method. -/
theorem linkMethod (object name : Text) (loc : Option Position) (g : DependencyGraph) :
    Draws s.target [] g (s.linkCaller (.method object name) .methodCall loc g) := by
  intro f d
  rw [Site.linkCaller]
  cases s.routine with
  | none => simp [Site.link]
  | some r => simp [Site.link, mem_calledFunctions_addEdge, Site.edge]

end Draws

mutual

/-- What is added for an expression draws its drawn calls. By recursion on the expression. -/
theorem draws_expression (s : Site) : (source : Option Node) → Passive source → (kind : EdgeKind) →
    (e : Expr) → (g : DependencyGraph) →
      Draws s.target (CallSite.madeBy s.routine e.drawn) g (expression s source kind e g)
  | _, hsource, kind, .ident name loc, g => by
    cases s.routine <;> exact .link hsource _ kind loc g
  | source, hsource, kind, .binary _ left right _, g => by
    rw [Expr.drawn, CallSite.madeBy_append]
    exact (draws_expression s source hsource kind left g).trans
      (draws_expression s source hsource kind right _)
  | source, hsource, kind, .unary _ operand _, g => draws_expression s source hsource kind operand g
  | source, hsource, _, .call callee args loc, g => by
    have hargs := draws_expressions s source hsource args
    cases callee with
    | ident name _ =>
      have hlink : Draws s.target [] g _ :=
        .link hsource (s.function (s.declared name)) .expression loc g
      have hcaller := hlink.trans (.linkCaller ⟨name, args.length, true, loc⟩ .expression loc _)
      rw [Expr.drawn, CallSite.madeBy_append]
      exact hcaller.trans (draws_arguments s (s.declared name) 0 args _)
    | member object name _ =>
      cases object with
      | ident o _ => exact (Draws.link hsource (.method o name) .methodCall loc g).trans (hargs _)
      | _ => exact hargs g
    | _ => exact hargs g
  | source, hsource, _, .member object name loc, g => by
    have hobject := draws_expression s none passive_none .expression object
    cases object with
    | ident o _ => exact (Draws.link hsource (.field o name) .fieldAccess loc g).trans (hobject _)
    | _ => exact hobject g
  | source, hsource, kind, .index object key _, g => by
    rw [Expr.drawn, CallSite.madeBy_append]
    exact (draws_expression s source hsource kind object g).trans
      (draws_expression s none passive_none .expression key _)
  | source, hsource, _, .choice condition whenTrue whenFalse _, g => by
    rw [Expr.drawn, CallSite.madeBy_append, CallSite.madeBy_append]
    exact ((draws_expression s none passive_none .expression condition g).trans
      (draws_expression s source hsource .conditional whenTrue _)).trans
        (draws_expression s source hsource .conditional whenFalse _)
  | _, _, _, .array elements _, g => draws_expressions s none passive_none elements g
  | _, _, _, .record fields _, g => draws_fieldValues s fields g
  | _, _, _, .new _ args _, g => draws_expressions s none passive_none args g
  | _, _, _, .number .., g | _, _, _, .string .., g | _, _, _, .boolean .., g | _, _, _, .date .., g
  | _, _, _, .undefined _, g | _, _, _, .null _, g => .nothing s g

/-- Expressions draw the calls they hold, by recursion on the list. -/
theorem draws_expressions (s : Site) (source : Option Node) (hsource : Passive source) :
    (es : List Expr) → (g : DependencyGraph) →
      Draws s.target (CallSite.madeBy s.routine (Expr.drawnIn es)) g (expressions s source es g)
  | [], g => .nothing s g
  | e :: rest, g => by
    rw [Expr.drawnIn, CallSite.madeBy_append]
    exact (draws_expression s source hsource .expression e g).trans
      (draws_expressions s source hsource rest _)

/-- The arguments of a call draw the calls they hold. -/
theorem draws_arguments (s : Site) (routine : Text) :
    (i : Nat) → (es : List Expr) → (g : DependencyGraph) →
    Draws s.target (CallSite.madeBy s.routine (Expr.drawnIn es)) g (arguments s routine i es g)
  | _, [], g => .nothing s g
  | i, e :: rest, g => by
    rw [Expr.drawnIn, CallSite.madeBy_append]
    exact (draws_expression s (some (.parameter routine (positional i))) (passive_some rfl)
      (.parameter i) e g).trans (draws_arguments s routine (i + 1) rest _)

/-- The values of fields draw the calls they hold. -/
theorem draws_fieldValues (s : Site) : (fields : List (Text × Expr)) → (g : DependencyGraph) →
    Draws s.target (CallSite.madeBy s.routine (Expr.drawnInFields fields)) g
      (fieldValues s fields g)
  | [], g => .nothing s g
  | (_, e) :: rest, g => by
    rw [Expr.drawnInFields, CallSite.madeBy_append]
    exact (draws_expression s none passive_none .expression e g).trans (draws_fieldValues s rest _)

end

/-! ## Statements -/

/-- An assignment draws the calls of its value. -/
theorem draws_assignment (s : Site) {node : Node} (hnode : node.isFunction = false) (value : Expr)
    (g : DependencyGraph) : Draws s.target (CallSite.madeBy s.routine value.drawn) g
      (assignment s node value g) :=
  (Draws.addNode g node).trans
    (draws_expression s (some node) (passive_some hnode) (assignedKind value) value _)

/-- An expression that may be absent draws the calls it holds. -/
theorem draws_optional (s : Site) (value : Option Expr) (g : DependencyGraph) :
    Draws s.target (CallSite.madeBy s.routine (Expr.drawnInOption value)) g
      (optional s value g) := by
  cases value with
  | none => exact .nothing s g
  | some e => exact draws_expression s none passive_none .expression e g

/-- Parameters draw the calls of their defaults. -/
theorem draws_parameters (s : Site) (routine : Text) (params : List Param) (g : DependencyGraph) :
    Draws s.target (CallSite.madeBy s.routine (Param.drawn params)) g
      (parameters s routine params g) := by
  induction params generalizing g with
  | nil => exact .nothing s g
  | cons p params ih =>
    have hdrawn : Param.drawn (p :: params) = Expr.drawnInOption p.default? ++ Param.drawn params :=
      List.flatMap_cons
    rw [hdrawn, CallSite.madeBy_append]
    refine Draws.trans ?_ (ih _)
    have hnode : Draws s.target [] g _ := .addNode g (.parameter routine p.name)
    dsimp only
    cases p.default? with
    | none => exact hnode.trans (.nothing s _)
    | some e => exact hnode.trans (draws_expression s _ (passive_some rfl) .expression e _)

mutual

/-- What is added for a statement draws its drawn calls. By recursion on the statement; the site
changes where a routine is entered, but what names stand for does not. -/
theorem draws_statement : (s : Site) → (st : Stmt) → (g : DependencyGraph) →
    Draws s.target (st.drawn s.routine) g (statement s st g)
  | s, .declare name exported value _, g => by
    have hnodes : Draws s.target [] g
        (if exported then (g.addNode (s.var name)).addNode (.var name .global)
          else g.addNode (s.var name)) := by
      cases exported <;> exact .refl g
    cases value with
    | none => exact hnodes.trans (.nothing s _)
    | some e => exact hnodes.trans (draws_assignment s rfl e _)
  | s, .routine _ name params body _ _, g => by
    have hnode : Draws s.target [] g _ := .addNode g (s.function name)
    exact (hnode.trans (draws_parameters { s with scope := .function name, routine := some name }
      name params _)).trans
      (draws_block { s with scope := .function name, routine := some name } body _)
  | s, .assign target value _, g => by
    cases target with
    | ident name _ => exact draws_assignment s rfl value g
    | member object name _ =>
      cases object with
      | ident o _ => exact draws_assignment s rfl value g
      | _ => exact .nothing s g
    | _ => exact .nothing s g
  | s, .call name none args loc, g => by
    have hnode : Draws s.target [] g _ := .addNode g (s.function name)
    have hcaller := hnode.trans (.linkCaller ⟨name, args.length, false, loc⟩ .expression loc _)
    rw [Stmt.drawn, CallSite.madeBy_append]
    exact hcaller.trans (draws_arguments s name 0 args _)
  | s, .call name (some object) args loc, g => by
    have hargs := draws_expressions s none passive_none args
    cases object with
    | ident o _ =>
      have hnode : Draws s.target [] g _ := .addNode g (.method o name)
      exact (hnode.trans (.linkMethod o name loc _)).trans (hargs _)
    | _ => exact hargs g
  | s, .ret value _, g => by
    cases value with
    | none => exact .nothing s g
    | some value =>
      obtain ⟨file, routines, scope, routine⟩ := s
      cases routine with
      | none => exact .refl g
      | some r =>
        have hnode : Draws (Site.target ⟨file, routines, scope, some r⟩) [] g _ :=
          .addNode g (.result r)
        exact hnode.trans (draws_expression _ (some (.result r)) (passive_some rfl) .result value _)
  | s, .conditional c body rest _, g =>
    ((draws_expression s none passive_none .expression c g).trans (draws_block s body _)).trans
      (draws_alternative s rest _)
  | s, .forTo name first last body _, g => by
    have hnode : Draws s.target [] g _ := .addNode g (s.var name)
    have hfirst := hnode.trans
      (draws_expression s (some (s.var name)) (passive_some rfl) .expression first _)
    rw [Stmt.drawn, CallSite.madeBy_append]
    exact (hfirst.trans (draws_expression s none passive_none .expression last _)).trans
      (draws_block s body _)
  | s, .forEach name collection body _, g => by
    have hnode : Draws s.target [] g _ := .addNode g (s.var name)
    have hcollection := hnode.trans
      (draws_expression s (some (s.var name)) (passive_some rfl) .expression collection _)
    exact hcollection.trans (draws_block s body _)
  | s, .whileDo c body _, g =>
    (draws_expression s none passive_none .expression c g).trans (draws_block s body _)
  | s, .attempt body handler _, g => (draws_block s body g).trans (draws_handlerBlock s handler _)
  | s, .raise message _, g => draws_optional s message g
  | _, .brk _, g | _, .cont _, g => .refl g

/-- A block draws the calls of its statements, by recursion along them. -/
theorem draws_block : (s : Site) → (body : List Stmt) → (g : DependencyGraph) →
    Draws s.target (Stmt.drawnIn s.routine body) g (block s body g)
  | _, [], g => .refl g
  | s, first :: rest, g => (draws_statement s first g).trans (draws_block s rest _)

theorem draws_handlerBlock : (s : Site) → (handler : Option (List Stmt)) → (g : DependencyGraph) →
    Draws s.target (Stmt.drawnInHandler s.routine handler) g (handlerBlock s handler g)
  | _, none, g => .refl g
  | s, some body, g => draws_block s body g

theorem draws_alternative : (s : Site) → (a : Alternative) → (g : DependencyGraph) →
    Draws s.target (a.drawn s.routine) g (alternative s a g)
  | _, .none, g => .refl g
  | s, .otherwise body, g => draws_block s body g
  | s, .elsif c body rest, g =>
    ((draws_expression s none passive_none .expression c g).trans (draws_block s body _)).trans
      (draws_alternative s rest _)

end

/-! ## Modules -/

/-- The table of flags is made under the names of the routines, in their order. -/
theorem map_fst_routineFlags (p : Program) :
    ∃ pairs, routineFlags p = .ofList pairs ∧ pairs.map Prod.fst = p.routineNames := by
  refine ⟨_, rfl, ?_⟩
  rw [List.map_filterMap, Program.routineNames]
  refine List.filterMap_congr fun s _ => ?_
  cases s <;> rfl

/-- A name is resolved in the table of flags as it is in the module. -/
theorem findKey?_routineFlags (p : Program) (name : Text) :
    (routineFlags p).findKey? name = p.resolve? name := by
  obtain ⟨pairs, hflags, hnames⟩ := map_fst_routineFlags p
  have hmem : name ∈ (routineFlags p).keys ↔ name ∈ p.routineNames := by
    rw [hflags, Table.mem_keys_ofList, hnames]
  rw [Table.findKey?_eq, Program.resolve?_eq, hflags, Table.find?_keys_ofList, hnames, ← hflags]
  by_cases h : name ∈ p.routineNames
  · rw [if_pos h, if_pos (hmem.2 h)]
  · rw [if_neg h, if_neg fun h' => h (hmem.1 h')]

end DependencyGraph

/-- The name that a drawn call leads to: from an expression to the routine it stands for, from a
statement to its own spelling. -/
def Program.target (p : Program) (c : CallSite) : Text :=
  if c.expectsValue then (p.resolve? c.callee).getD c.callee else c.callee

namespace DependencyGraph

/-- The edges between routines are those of the drawn calls, wherever in the module a routine is
declared. -/
theorem mem_calledFunctions_ofProgram {file : Text} {p : Program} {f d : Text} :
    d ∈ (ofProgram file p).calledFunctions f ↔ ∃ c, (f, c) ∈ Stmt.drawnIn none p ∧
      p.target c = d := by
  have htarget : Site.target ⟨file, routineFlags p, .module file, none⟩ = p.target := by
    funext c
    rw [Site.target, Site.declared, Program.target, findKey?_routineFlags]
  have hempty : d ∉ empty.calledFunctions f := by
    rw [mem_calledFunctions]
    rintro ⟨x, e, he, -⟩
    cases he
  have hdraws := draws_block ⟨file, routineFlags p, .module file, none⟩ p empty
  rw [htarget] at hdraws
  exact (hdraws f d).trans (or_iff_right hempty)

end DependencyGraph

end Gradual
