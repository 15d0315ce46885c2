import Mathlib.Data.Finset.Dedup
import Mathlib.Data.Finset.Option
import Gradual.Proofs.Flow.Variables

/-!
# What a walk visits

A walk calls and reads by name, and both can be seen in the text of a module without any types. The
visits of a statement are listed here in the order of the walk, each with the variables that have a
value at that point. These follow from the variables before the statement: both ways of a
conditional start from the same ones and their ends are united, a routine adds its parameters for
its own body only, and bodies of loops and attempts are passed once.

What a condition gives a value on the ways behind it is a parameter. With `Narrowing.subjects`, the
variables that a condition refines, the list is what a walk tells its followers about.

Main statement: `notes_block`.
-/

namespace Gradual

variable {ω α β : Type}

/-! ## Visits -/

/-- A use of a name that typing an expression comes across, whatever the types are. -/
inductive Use where
  | call (name : Text) (count : Nat) (loc : Option Position)
  | read (name : Text) (loc : Option Position)
deriving DecidableEq, Repr

/-- A point of a walk, with the variables that have a value there. -/
inductive Visit where
  | pass (u : Use) (names : Finset Text)
  /-- The ways of a conditional part here. -/
  | fork (condition : Expr) (names : Finset Text)

/-- Uses that are passed while the same variables have values. -/
def Use.visits (names : Finset Text) (ms : List Use) : List Visit := ms.map fun m => .pass m names

/-- What a walk tells about a use: every call, and reads of variables without a value. -/
def Use.told? (names : Finset Text) : Use → Option Use
  | .call name count loc => some (.call name count loc)
  | .read name loc => if name ∈ names then none else some (.read name loc)

/-- What a walk tells about a visit. -/
def Visit.told? : Visit → Option Use
  | .pass m names => m.told? names
  | .fork .. => none

mutual

/-- The uses of names in an expression. Arguments come before the call. -/
def Expr.uses : Expr → List Use
  | .ident name loc => [.read name loc]
  | .call callee args loc =>
    Expr.usesIn args ++
      match callee with
      | .ident name _ => [.call name args.length loc]
      | other => other.uses
  | .binary _ left right _ => left.uses ++ right.uses
  | .unary _ operand _ => operand.uses
  | .member object _ _ => object.uses
  | .index object key _ => object.uses ++ key.uses
  | .new _ args _ => Expr.usesIn args
  | .choice condition whenTrue whenFalse _ => condition.uses ++ (whenTrue.uses ++ whenFalse.uses)
  | .array elements _ => Expr.usesIn elements
  | .record fields _ => Expr.usesInFields fields
  | .number .. | .string .. | .boolean .. | .date .. | .undefined _ | .null _ => []

/-- The uses of names in expressions. -/
def Expr.usesIn : List Expr → List Use
  | [] => []
  | e :: rest => e.uses ++ Expr.usesIn rest

/-- The uses of names in the values of fields. -/
def Expr.usesInFields : List (Text × Expr) → List Use
  | [] => []
  | (_, e) :: rest => e.uses ++ Expr.usesInFields rest

end

/-- The uses of names in an expression that may be absent. -/
def Expr.usesInOption : Option Expr → List Use
  | some e => e.uses
  | none => []

/-- The uses of names in an assignment target: a variable that is assigned is not read. -/
def Expr.targetUses : Expr → List Use
  | .ident .. => []
  | e => e.uses

/-- The names of parameters. -/
def Param.names (params : List Param) : Finset Text := (params.map Param.name).toFinset

section

variable (given : Expr → Finset Text)

mutual

/-- The variables that have a value behind a statement, where `given` are those to which a condition
gives one. -/
def Stmt.valued : Stmt → Finset Text → Finset Text
  | .declare name _ _ _, names | .assign (.ident name _) _ _, names => insert name names
  | .conditional c body rest _, names =>
    Stmt.valuedIn body (names ∪ given c) ∪ rest.valued (given c) names
  | .forTo name _ _ body _, names
  | .forEach name _ body _, names => Stmt.valuedIn body (insert name names)
  | .whileDo _ body _, names => Stmt.valuedIn body names
  | .attempt body handler _, names => Stmt.valuedInHandler handler (Stmt.valuedIn body names)
  | .assign .., names | .routine .., names | .call .., names | .ret .., names | .raise .., names
  | .brk _, names
  | .cont _, names => names

/-- The variables that have a value behind a block. -/
def Stmt.valuedIn : List Stmt → Finset Text → Finset Text
  | [], names => names
  | s :: rest, names => Stmt.valuedIn rest (s.valued names)

/-- The variables that have a value behind the handler of an attempt. -/
def Stmt.valuedInHandler : Option (List Stmt) → Finset Text → Finset Text
  | none, names => names
  | some body, names => Stmt.valuedIn body names

/-- The variables that have a value behind the other ways of a conditional, given those that its
condition gives a value where something is to be done, and those before it. -/
def Alternative.valued : Alternative → Finset Text → Finset Text → Finset Text
  | .none, _, names => names
  | .otherwise body, gained, names => Stmt.valuedIn body (names ∪ gained)
  | .elsif c body rest, gained, names =>
    Stmt.valuedIn body (names ∪ gained ∪ given c) ∪ rest.valued (given c) (names ∪ gained)

end

mutual

/-- The visits of a statement, in the order of the walk. -/
def Stmt.visits : Stmt → Finset Text → List Visit
  | .declare _ _ value _, names | .ret value _, names | .raise value _, names =>
    Use.visits names (Expr.usesInOption value)
  | .assign target value _, names => Use.visits names (target.targetUses ++ value.uses)
  | .routine _ _ params body _ _, names => Stmt.visitsIn body (names ∪ Param.names params)
  | .call name none args loc, names =>
    Use.visits names (Expr.usesIn args ++ [.call name args.length loc])
  | .call _ (some object) args _, names => Use.visits names (object.uses ++ Expr.usesIn args)
  | .conditional c body rest _, names =>
    Use.visits names c.uses ++
      .fork c names :: (Stmt.visitsIn body (names ∪ given c) ++ rest.visits (given c) names)
  | .forTo name first last body _, names =>
    Use.visits names (first.uses ++ last.uses) ++ Stmt.visitsIn body (insert name names)
  | .forEach name collection body _, names =>
    Use.visits names collection.uses ++ Stmt.visitsIn body (insert name names)
  | .whileDo c body _, names => Use.visits names c.uses ++ Stmt.visitsIn body names
  | .attempt body handler _, names =>
    Stmt.visitsIn body names ++ Stmt.visitsInHandler handler (Stmt.valuedIn given body names)
  | .brk _, _ | .cont _, _ => []

/-- The visits of a block. -/
def Stmt.visitsIn : List Stmt → Finset Text → List Visit
  | [], _ => []
  | s :: rest, names => s.visits names ++ Stmt.visitsIn rest (s.valued given names)

/-- The visits of the handler of an attempt. -/
def Stmt.visitsInHandler : Option (List Stmt) → Finset Text → List Visit
  | none, _ => []
  | some body, names => Stmt.visitsIn body names

/-- The visits of the other ways of a conditional. -/
def Alternative.visits : Alternative → Finset Text → Finset Text → List Visit
  | .none, _, _ => []
  | .otherwise body, gained, names => Stmt.visitsIn body (names ∪ gained)
  | .elsif c body rest, gained, names =>
    Use.visits (names ∪ gained) c.uses ++
      .fork c (names ∪ gained) ::
        (Stmt.visitsIn body (names ∪ gained ∪ given c) ++ rest.visits (given c) (names ∪ gained))

end

end

/-- The variable that a condition refines, if it does. -/
def Narrowing.subjects (c : Expr) : Finset Text := ((ofCondition c).map Prod.fst).toFinset

/-- The subjects of a condition are the variables it refines. -/
theorem Narrowing.mem_subjects {c : Expr} {x : Text} : x ∈ subjects c ↔ Refines c x := by
  simp [subjects, Refines]

/-- Uses one after another are visited one after another. -/
theorem Use.visits_append (names : Finset Text) (ms ns : List Use) :
    Use.visits names (ms ++ ns) = Use.visits names ms ++ Use.visits names ns := List.map_append

/-- What is told of visits under fixed names is what is told of the uses. -/
theorem Use.told_visits (names : Finset Text) (ms : List Use) :
    (Use.visits names ms).filterMap Visit.told? = ms.filterMap (Use.told? names) := by
  rw [Use.visits, List.filterMap_map]
  rfl

/-! ## Uses that are told -/

/-- The use of a name that an event tells about. -/
def FlowEvent.toUse? : FlowEvent ω → Option Use
  | .undeclared name loc => some (.read name loc)
  | .call name count loc => some (.call name count loc)
  | .operator .. | .condition .. | .assignment .. => none

/-- The uses that events tell about. -/
def FlowEvent.uses (events : Array (FlowEvent ω)) : List Use := events.toList.filterMap toUse?

/-- An event brings at most one use, behind those before it. -/
theorem FlowEvent.uses_push (events : Array (FlowEvent ω)) (e : FlowEvent ω) :
    uses (events.push e) = uses events ++ (toUse? e).toList := by
  rw [uses, Array.toList_push, List.filterMap_append, uses, List.filterMap_cons, List.filterMap_nil]
  cases toUse? e <;> rfl

/-- A computation tells about the uses, where the variables have values. -/
def Tells (names : Finset Text) (m : StateM (Array (FlowEvent ω)) α) (ms : List Use) : Prop :=
  ∀ events, FlowEvent.uses (m events).2 =
    FlowEvent.uses events ++ ms.filterMap (Use.told? names)

namespace Tells

variable {names : Finset Text}

/-- A value alone tells nothing. -/
theorem pure (a : α) : Tells names (Pure.pure a : StateM (Array (FlowEvent ω)) α) [] := by
  intro events
  rw [List.filterMap_nil, List.append_nil]
  rfl

/-- Computations one after another tell about their uses one after another. -/
theorem bind {m : StateM (Array (FlowEvent ω)) α} {next : α → StateM (Array (FlowEvent ω)) β}
    {ms ns : List Use} (hm : Tells names m ms)
    (hnext : ∀ events, Tells names (next (m events).1) ns) :
    Tells names (m >>= next) (ms ++ ns) := by
  intro events
  have hstep := hnext events (m events).2
  rw [hm events, List.append_assoc, ← List.filterMap_append] at hstep
  exact hstep

/-- What follows without a use leaves the uses as they are. -/
theorem bind_silent {m : StateM (Array (FlowEvent ω)) α} {next : α → StateM (Array (FlowEvent ω)) β}
    {ms : List Use} (hm : Tells names m ms) (hnext : ∀ a, Tells names (next a) []) :
    Tells names (m >>= next) ms := by
  have hbind := bind hm fun events => hnext (m events).1
  rwa [List.append_nil] at hbind

/-- One event tells about the uses that it stands for. -/
theorem modify_push (e : FlowEvent ω) {ms : List Use}
    (h : e.toUse?.toList = ms.filterMap (Use.told? names)) :
    Tells names (modify fun events => events.push e : StateM (Array (FlowEvent ω)) PUnit) ms := by
  intro events
  rw [← h]
  exact FlowEvent.uses_push events e

end Tells

namespace Environment

variable [Weight ω] {σ : Type}

/-- As many types are inferred as there are expressions. -/
theorem length_inferAll (env : Environment ω σ) (es : List Expr) (s : σ) :
    (env.inferAll es s).1.length = es.length := by
  induction es generalizing s with
  | nil => rfl
  | cons e es ih => exact congrArg Nat.succ (ih _)

end Environment

namespace Flow

variable (f : Flow ω)

/-- The variables that have a value. -/
def names : Finset Text := f.current.vars.keys.toFinset

/-- The names of a walk are the keys of its variables. -/
theorem mem_names {f : Flow ω} {x : Text} : x ∈ f.names ↔ x ∈ f.current.vars.keys :=
  List.mem_toFinset

/-! ## Steps -/

/-- The walk went on over the visits and told about them, to a state in which the variables have
values. -/
structure Notes (f g : Flow ω) (visits : List Visit) (names : Finset Text) : Prop where
  uses : FlowEvent.uses g.events = FlowEvent.uses f.events ++ visits.filterMap Visit.told?
  names_eq : g.names = names

namespace Notes

variable {f g h : Flow ω} {vs ws : List Visit} {ns ms : Finset Text}

/-- A walk that stays visits nothing. -/
theorem refl (f : Flow ω) : f.Notes f [] f.names := ⟨(List.append_nil _).symm, rfl⟩

/-- Walks one after another make their visits one after another. -/
theorem trans (hfg : f.Notes g vs ns) (hgh : g.Notes h ws ms) : f.Notes h (vs ++ ws) ms := by
  refine ⟨?_, hgh.names_eq⟩
  rw [hgh.uses, hfg.uses, List.filterMap_append, List.append_assoc]

/-- An event that tells about no use passes nothing. -/
theorem emit (f : Flow ω) {e : FlowEvent ω} (h : e.toUse? = none) :
    f.Notes (f.emit e) [] f.names := by
  refine ⟨?_, rfl⟩
  show FlowEvent.uses (f.events.push e) = _
  rw [FlowEvent.uses_push, h]
  rfl

/-- A call told at a walk is visited under the names there. -/
theorem emit_call (f : Flow ω) (name : Text) (count : Nat) (loc : Option Position) :
    f.Notes (f.emit (.call name count loc)) (Use.visits f.names [.call name count loc]) f.names :=
  ⟨FlowEvent.uses_push f.events _, rfl⟩

/-- Entering a state visits nothing and takes the names of its variables. -/
theorem enter (f : Flow ω) (vars : Variables ω) (predecessors : List Nat) :
    f.Notes (f.enter vars predecessors) [] vars.keys.toFinset := by
  refine ⟨(List.append_nil _).symm, ?_⟩
  show (Table.map _ vars).keys.toFinset = _
  rw [Table.keys_map]

/-- Updating a variable visits nothing and gives the variable a value. -/
theorem update (f : Flow ω) (name : Text) (type : Resolution ω) :
    f.Notes (f.update name type) [] (insert name f.names) := by
  refine ⟨(enter f _ _).uses, (enter f _ _).names_eq.trans ?_⟩
  ext x
  rw [List.mem_toFinset, Table.mem_keys_insert, Finset.mem_insert, mem_names]

/-- Parameters are bound under their names, in their order. -/
theorem map_fst_mapIdx (params : List Param) (type : Nat → Param → Resolution ω) :
    (params.mapIdx fun i p => (p.name, type i p)).map Prod.fst = params.map Param.name := by
  refine List.ext_getElem? fun i => ?_
  simp [Function.comp_def]

/-- A routine passes its body with its parameters, and comes back to the variables around it. -/
theorem routine (f : Flow ω) (name : Text) (params : List Param) {body : Flow ω → Flow ω}
    {onBody : Finset Text → List Visit} {behindBody : Finset Text → Finset Text}
    (hbody : ∀ g : Flow ω, g.Notes (body g) (onBody g.names) (behindBody g.names)) :
    f.Notes (f.routine name params body) (onBody (f.names ∪ Param.names params)) f.names := by
  let inside := { f with context := f.context.enter (.function name) }.enter
    (f.parameters name params) [f.current.id]
  have hinside : inside.names = f.names ∪ Param.names params := by
    refine (enter _ _ _).names_eq.trans ?_
    ext x
    rw [List.mem_toFinset, parameters, Table.mem_keys_insertAll, map_fst_mapIdx, Finset.mem_union,
      mem_names, or_comm, Param.names, List.mem_toFinset]
  have hroutine := hbody inside
  rw [hinside] at hroutine
  exact ⟨hroutine.uses, rfl⟩

end Notes

/-! ## Expressions -/

variable [Weight ω]

/-- Looking up a variable tells one read of it. -/
theorem tells_lookup (name : Text) (loc : Option Position) :
    Tells f.names (f.environment.lookup name loc) [.read name loc] := by
  cases hget : f.typeOf? name with
  | some t =>
    have hmem : name ∈ f.names := mem_names.2 (Table.mem_keys_iff.2 ⟨t, hget⟩)
    intro events
    simp only [environment, hget, Use.told?, hmem, if_true, List.filterMap_cons, List.filterMap_nil,
      List.append_nil]
    rfl
  | none =>
    have hmem : name ∉ f.names := fun h => Table.get?_eq_none_iff.1 hget (mem_names.1 h)
    intro events
    simp only [environment, hget, Use.told?, hmem, if_false, List.filterMap_cons,
      List.filterMap_nil]
    exact FlowEvent.uses_push events (.undeclared name loc)

/-- A call tells itself, with the number of its arguments. -/
theorem tells_call (name : Text) (args : List (Resolution ω)) (loc : Option Position) :
    Tells f.names (f.environment.call name args loc) [.call name args.length loc] :=
  .bind_silent (.modify_push _ rfl) fun _ => .pure _

/-- An operator tells no use. -/
theorem tells_operator (operation : Operation) (operands : List (Resolution ω))
    (loc : Option Position) :
    Tells f.names (f.environment.operator operation operands loc) [] :=
  .modify_push _ rfl

mutual

/-- Typing an expression tells about its uses. -/
theorem tells_infer : (e : Expr) → Tells f.names (f.environment.infer e) e.uses
  | .number .. | .string .. | .boolean .. | .date .. | .undefined _ | .null _ => .pure _
  | .ident name loc => .bind_silent (f.tells_lookup name loc) fun _ => .pure _
  | .binary _ left right _ =>
    .bind (tells_infer left) fun _ => .bind_silent (tells_infer right) fun _ =>
      .bind_silent (f.tells_operator _ _ _) fun _ => .pure _
  | .unary _ operand _ =>
    .bind_silent (tells_infer operand) fun _ =>
      .bind_silent (f.tells_operator _ _ _) fun _ => .pure _
  | .call callee args loc => by
    have hcallee := tells_infer callee
    rw [Environment.infer.eq_def, Expr.uses.eq_def]
    refine .bind (tells_inferAll args) fun events => ?_
    cases callee with
    | ident name l =>
      -- A call is told with the number of types that were found, which is that of the arguments.
      have hcall := f.tells_call name (f.environment.inferAll args events).1 loc
      rwa [Environment.length_inferAll] at hcall
    | _ => exact .bind_silent hcallee fun _ => .pure _
  | .member object _ _ => .bind_silent (tells_infer object) fun _ => .pure _
  | .index object key _ =>
    .bind (tells_infer object) fun _ => .bind_silent (tells_infer key) fun _ => .pure _
  | .new _ args _ => .bind_silent (tells_inferAll args) fun _ => .pure _
  | .choice condition whenTrue whenFalse _ =>
    .bind (tells_infer condition) fun _ => .bind (tells_infer whenTrue) fun _ =>
      .bind_silent (tells_infer whenFalse) fun _ => .pure _
  | .array elements _ => .bind_silent (tells_inferAll elements) fun _ => .pure _
  | .record fields _ => .bind_silent (tells_inferFields fields) fun _ => .pure _

/-- Inferring expressions tells their uses, by recursion on the list. -/
theorem tells_inferAll : (es : List Expr) →
    Tells f.names (f.environment.inferAll es) (Expr.usesIn es)
  | [] => .pure _
  | e :: es => .bind (tells_infer e) fun _ => .bind_silent (tells_inferAll es) fun _ => .pure _

/-- Inferring the values of fields tells their uses. -/
theorem tells_inferFields : (fields : List (Text × Expr)) →
    Tells f.names (f.environment.inferFields fields) (Expr.usesInFields fields)
  | [] => .pure _
  | (_, e) :: rest => .bind (tells_infer e) fun _ => tells_inferFields rest

end

/-! ## Steps that type expressions -/

namespace Notes

/-- Visiting an expression makes the visits of its uses. -/
theorem visit (f : Flow ω) (e : Expr) :
    f.Notes (f.visit e) (Use.visits f.names e.uses) f.names := by
  refine ⟨?_, rfl⟩
  rw [Use.told_visits]
  exact f.tells_infer e f.events

/-- Visiting expressions makes the visits of their uses, in their order. -/
theorem visitAll (f : Flow ω) (es : List Expr) :
    f.Notes (f.visitAll es) (Use.visits f.names (Expr.usesIn es)) f.names := by
  induction es generalizing f with
  | nil => exact refl f
  | cons e es ih =>
    rw [Expr.usesIn, Use.visits_append]
    exact (visit f e).trans (ih (f.visit e))

/-- Visiting a condition makes the visits of its uses. -/
theorem condition (f : Flow ω) (c : Expr) :
    f.Notes (f.condition c) (Use.visits f.names c.uses) f.names := by
  have htold := (visit f c).trans (emit (f.visit c) (e := .condition c (f.expression c).1) rfl)
  rwa [List.append_nil] at htold

/-- An assignment makes the visits of its value before the variable has one. -/
theorem assign (f : Flow ω) (name : Text) (value : Expr) (loc : Option Position) :
    f.Notes (f.assign name value loc).2 (Use.visits f.names value.uses) (insert name f.names) := by
  have hemit := emit (f.visit value)
    (e := .assignment name ((f.visit value).typeOf? name) (f.expression value).1 loc) rfl
  have hassign := ((visit f value).trans hemit).trans (update _ name (f.expression value).1)
  rwa [List.append_nil, List.append_nil] at hassign

/-- Visiting the target of an assignment makes the visits of its uses. -/
theorem target (f : Flow ω) (e : Expr) :
    f.Notes (f.target e) (Use.visits f.names e.uses) f.names := by
  cases e with
  | index object key l =>
    rw [Expr.uses, Use.visits_append]
    exact (visit f object).trans (visit (f.visit object) key)
  | member object name l => exact visit f object
  | _ => exact visit f _

/-- Where two ways meet again, what has a value at the end of either has one. -/
theorem merge (f : Flow ω) (s t : FlowState ω) :
    f.Notes (f.merge [s, t]) [] (s.vars.keys.toFinset ∪ t.vars.keys.toFinset) := by
  have henter := enter f (Variables.join [s.vars, t.vars]) [s.id, t.id]
  refine ⟨henter.uses, henter.names_eq.trans ?_⟩
  ext x
  simp [Variables.mem_keys_join]

/-- A fork passes its condition and both ways. -/
theorem fork (f : Flow ω) (c : Expr) {body : Flow ω → Flow ω}
    {rest : FlowState ω → Variables ω → Flow ω → Flow ω} {onBody onRest : Finset Text → List Visit}
    {behindBody behindRest : Finset Text → Finset Text}
    (hbody : ∀ g : Flow ω, g.Notes (body g) (onBody g.names) (behindBody g.names))
    (hrest : ∀ (g : Flow ω) (origin : FlowState ω) (vars : Variables ω),
      vars.keys.toFinset = origin.vars.keys.toFinset ∪ Narrowing.subjects c →
        g.Notes (rest origin vars g) (onRest origin.vars.keys.toFinset)
        (behindRest origin.vars.keys.toFinset)) :
    f.Notes (f.fork c body rest)
      (Use.visits f.names c.uses ++
        .fork c f.names :: (onBody (f.names ∪ Narrowing.subjects c) ++ onRest f.names))
      (behindBody (f.names ∪ Narrowing.subjects c) ∪ behindRest f.names) := by
  -- Both ways start with the variables at the condition and those that it refines.
  have hrefined : ∀ rs : List (Refinement ω),
    (∀ x, x ∈ rs.map Refinement.subject ↔ Narrowing.Refines c x) →
      (Narrowing.apply f.current.vars rs).keys.toFinset = f.names ∪ Narrowing.subjects c := by
    intro rs hrs
    ext x
    rw [List.mem_toFinset, (Narrowing.rewrites_apply _ rs).mem_keys, hrs,
      Finset.mem_union, mem_names, Narrowing.mem_subjects]
  let holds := Narrowing.refinements f.current.vars c
  let inside := (f.condition c).enter (Narrowing.apply f.current.vars holds) [f.current.id]
  let fails := Narrowing.apply f.current.vars (Narrowing.invert f.current.vars holds)
  have henter : (f.condition c).Notes inside [.fork c f.names] (f.names ∪ Narrowing.subjects c) :=
    ⟨(enter _ _ _).uses, (enter _ _ _).names_eq.trans
      (hrefined _ fun _ => Narrowing.mem_subjects_refinements)⟩
  have hthen := hbody inside
  rw [henter.names_eq] at hthen
  have helse := hrest (body inside) f.current fails
    (hrefined _ fun _ => Narrowing.mem_subjects_invert)
  have hmeet := merge (rest f.current fails (body inside))
    (body inside).current (rest f.current fails (body inside)).current
  have hall := (((condition f c).trans henter).trans (hthen.trans helse)).trans hmeet
  rw [List.append_nil, List.append_assoc, List.singleton_append] at hall
  refine ⟨hall.uses, hall.names_eq.trans ?_⟩
  exact congrArg₂ (· ∪ ·) hthen.names_eq helse.names_eq

end Notes

/-! ## Statements -/

mutual

/-- A walk through a statement tells about its visits, where the conditions give values to the
variables that they refine. By recursion on the statement, with one lemma for each form of step. -/
theorem notes_statement : (s : Stmt) → (f : Flow ω) →
    f.Notes (statement s f) (s.visits Narrowing.subjects f.names)
      (s.valued Narrowing.subjects f.names)
  | .declare name _ (some value) loc, f => .assign f name value loc
  | .declare name _ none _, f => .update f name _
  | .assign target value loc, f => by
    have htarget := (Notes.target f target).trans (.visit (f.target target) value)
    rw [(Notes.target f target).names_eq, ← Use.visits_append] at htarget
    cases target with
    | ident name l => exact .assign f name value loc
    | _ => exact htarget
  | .routine _ name params body _ _, f => .routine f name params (notes_block body)
  | .call name none args loc, f => by
    have hcall := (Notes.visitAll f args).trans (.emit_call (f.visitAll args) name args.length loc)
    rwa [(Notes.visitAll f args).names_eq, ← Use.visits_append] at hcall
  | .call _ (some object) args _, f => by
    rw [Stmt.visits, Use.visits_append]
    exact (Notes.visit f object).trans (.visitAll (f.visit object) args)
  | .conditional c body rest _, f => .fork f c (notes_block body) (notes_alternative rest _)
  | .forTo name first last body _, f => by
    have hhead := ((Notes.visit f first).trans (.visit (f.visit first) last)).trans
      (.update _ name (.primitive .number))
    have hbody := hhead.trans (notes_block body _)
    rw [hhead.names_eq] at hbody
    rw [List.append_nil] at hbody
    rw [Stmt.visits, Use.visits_append]
    exact hbody
  | .forEach name collection body _, f => by
    have hhead := (Notes.visit f collection).trans
      (.update _ name (.unknownBecause "Collection element"))
    have hbody := hhead.trans (notes_block body _)
    rwa [hhead.names_eq, List.append_nil] at hbody
  | .whileDo c body _, f => (Notes.condition f c).trans (notes_block body (f.condition c))
  | .attempt body handler _, f => by
    have hboth := (notes_block body f).trans (notes_handlerBlock handler (block body f))
    rwa [(notes_block body f).names_eq] at hboth
  | .ret (some value) _, f => .visit f value
  | .raise (some message) _, f => .visit f message
  | .ret none _, f | .raise none _, f | .brk _, f | .cont _, f => .refl f

/-- A block makes the visits of its statements, by recursion along them. -/
theorem notes_block : (body : List Stmt) → (f : Flow ω) →
    f.Notes (block body f) (Stmt.visitsIn Narrowing.subjects body f.names)
      (Stmt.valuedIn Narrowing.subjects body f.names)
  | [], f => .refl f
  | s :: rest, f => by
    have hboth := (notes_statement s f).trans (notes_block rest (statement s f))
    rwa [(notes_statement s f).names_eq] at hboth

theorem notes_handlerBlock : (handler : Option (List Stmt)) → (f : Flow ω) →
    f.Notes (handlerBlock handler f) (Stmt.visitsInHandler Narrowing.subjects handler f.names)
      (Stmt.valuedInHandler Narrowing.subjects handler f.names)
  | none, f => .refl f
  | some body, f => notes_block body f

/-- The other ways start from the state at the condition, and with the variables that the condition
refines if there is something to do on them. -/
theorem notes_alternative : (a : Alternative) → (gained : Finset Text) → (f : Flow ω) →
    (origin : FlowState ω) → (vars : Variables ω) →
      vars.keys.toFinset = origin.vars.keys.toFinset ∪ gained →
    f.Notes (alternative a origin vars f)
      (a.visits Narrowing.subjects gained origin.vars.keys.toFinset)
        (a.valued Narrowing.subjects gained origin.vars.keys.toFinset)
  | .none, _, f, origin, _, _ => ⟨(List.append_nil _).symm, rfl⟩
  | .otherwise body, gained, f, origin, vars, hvars => by
    have henter := Notes.enter f vars [origin.id]
    have hbody := henter.trans (notes_block body _)
    rwa [henter.names_eq, hvars] at hbody
  | .elsif c body rest, gained, f, origin, vars, hvars => by
    have henter := Notes.enter f vars [origin.id]
    have hfork := henter.trans (Notes.fork _ c (notes_block body) (notes_alternative rest _))
    rwa [henter.names_eq, hvars] at hfork

end

end Flow

end Gradual
