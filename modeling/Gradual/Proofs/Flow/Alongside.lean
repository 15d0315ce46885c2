import Gradual.Flow.Walk
import Gradual.Proofs.Types.Comparison

/-!
# Two walks through one block

Two walks through the same statements, from flows whose variables and signatures are related, stay
side by side: they tell about related events, make related states and end in related ones, as long
as the blends on their way pass. What the flows hold besides, such as their numbers of states, does
not matter.

Main statement: `leads_block`.
-/

namespace Gradual

variable {ω : Type}

/-! ## Related events, states and contexts -/

/-- Events about the same place with related types. -/
inductive FlowEvent.Beside (R : Resolution ω → Resolution ω → Prop) :
    FlowEvent ω → FlowEvent ω → Prop
  | undeclared (name : Text) (loc : Option Position) : Beside R (.undeclared name loc)
    (.undeclared name loc)
  | call (name : Text) (count : Nat) (loc : Option Position) : Beside R (.call name count loc)
    (.call name count loc)
  | operator (operation : Operation) (loc : Option Position)
    {operands operands' : List (Resolution ω)} :
    List.Forall₂ R operands operands' →
      Beside R (.operator operation operands loc) (.operator operation operands' loc)
  | condition (c : Expr) {type type' : Resolution ω} :
    R type type' → Beside R (.condition c type) (.condition c type')
  | assignment (name : Text) (loc : Option Position) {previous previous' : Option (Resolution ω)}
    {next next' : Resolution ω} : Option.Rel R previous previous' → R next next' →
    Beside R (.assignment name previous next loc) (.assignment name previous' next' loc)

/-- Related variables in the same scope. -/
structure FlowState.Beside (R : Resolution ω → Resolution ω → Prop)
    (s s' : FlowState ω) : Prop where
  vars : Table.Beside R s.vars s'.vars
  scope : s.scope = s'.scope

/-- Related signatures in the same scope. -/
structure Context.Beside (R : Resolution ω → Resolution ω → Prop) (c c' : Context ω) : Prop where
  functions : Table.Beside (Signature.Beside R) c.functions c'.functions
  scope : c.scope = c'.scope
  outer : c.outer = c'.outer

section

variable {R S : Resolution ω → Resolution ω → Prop} (hRS : ∀ r s, R r s → S r s)

include hRS

/-- Signatures that lie beside each other do so under any larger relation. -/
theorem Signature.Beside.mono {s s' : Signature ω} (h : s.Beside R s') : s.Beside S s' :=
  ⟨h.params.imp fun _ _ => hRS _ _, hRS _ _ h.returns⟩

theorem FlowEvent.Beside.mono {e e' : FlowEvent ω} (h : e.Beside R e') : e.Beside S e' := by
  cases h with
  | undeclared name loc => exact .undeclared name loc
  | call name count loc => exact .call name count loc
  | operator operation loc hos => exact .operator operation loc (hos.imp hRS)
  | condition c ht => exact .condition c (hRS _ _ ht)
  | assignment name loc hprev hnext =>
    refine .assignment name loc ?_ (hRS _ _ hnext)
    cases hprev with
    | some hr => exact .some (hRS _ _ hr)
    | none => exact .none

theorem FlowState.Beside.mono {s s' : FlowState ω} (h : s.Beside R s') : s.Beside S s' :=
  ⟨h.vars.mono hRS, h.scope⟩

theorem Context.Beside.mono {c c' : Context ω} (h : c.Beside R c') : c.Beside S c' :=
  ⟨h.functions.mono fun _ _ => .mono hRS, h.scope, h.outer⟩

end

namespace Context.Beside

variable {R : Resolution ω → Resolution ω → Prop} {c c' : Context ω}

/-- Contexts stay beside each other when both enter a scope. -/
theorem enter (h : c.Beside R c') (scope : Scope) : (c.enter scope).Beside R (c'.enter scope) := by
  refine ⟨h.functions, rfl, ?_⟩
  show c.outer ++ [c.scope] = c'.outer ++ [c'.scope]
  rw [h.outer, h.scope]

/-- They stay so when both leave one. -/
theorem exit (h : c.Beside R c') : c.exit.Beside R c'.exit := by
  unfold Context.exit
  rw [h.outer]
  split
  · exact ⟨h.functions, rfl, rfl⟩
  · exact h

end Context.Beside

namespace Flow

/-! ## Parts of a walk -/

/-- The walk at the start of the body of a routine. -/
def inside (f : Flow ω) (name : Text) (params : List Param) : Flow ω :=
  { f with context := f.context.enter (.function name) }.enter (f.parameters name params)
    [f.current.id]

/-- A routine, as the walk over its body from the start inside. -/
theorem routine_eq (name : Text) (params : List Param) (body : Flow ω → Flow ω) (f : Flow ω) :
    f.routine name params body = { body (f.inside name params) with
      context := (body (f.inside name params)).context.exit, current := f.current } := rfl

variable [Weight ω]

/-- The walk at the start of the way on which a condition holds. -/
def whenHolds (f : Flow ω) (c : Expr) : Flow ω :=
  (f.condition c).enter (Narrowing.apply f.current.vars (Narrowing.refinements f.current.vars c))
    [f.current.id]

/-- The variables at the start of the way on which a condition fails. -/
def whenFails (f : Flow ω) (c : Expr) : Variables ω :=
  Narrowing.apply f.current.vars
    (Narrowing.invert f.current.vars (Narrowing.refinements f.current.vars c))

/-- A conditional, as the walks over its two ways and their merge. -/
theorem fork_eq (c : Expr) (body : Flow ω → Flow ω)
    (rest : FlowState ω → Variables ω → Flow ω → Flow ω) (f : Flow ω) :
    f.fork c body rest = (rest f.current (f.whenFails c) (body (f.whenHolds c))).merge
      [(body (f.whenHolds c)).current,
        (rest f.current (f.whenFails c) (body (f.whenHolds c))).current] := rfl

/-! ## Blends of a walk -/

/-- The blends of an expression in the current state. -/
def blendsOf (e : Expr) (f : Flow ω) : List (Blend ω) :=
  f.environment.blends (fun _ _ _ => []) e f.events

/-- The blends of expressions that are visited from left to right. -/
def blendsOfAll : List Expr → Flow ω → List (Blend ω)
  | [], _ => []
  | e :: es, f => f.blendsOf e ++ blendsOfAll es (f.visit e)

/-- The blends of an assignment target that is not a variable. -/
def blendsOfTarget : Expr → Flow ω → List (Blend ω)
  | .index object key _, f => f.blendsOf object ++ (f.visit object).blendsOf key
  | .member object _ _, f => f.blendsOf object
  | other, f => f.blendsOf other

/-- The blends of a fork, the last of which is that of the two ends. -/
def blendsOfFork (c : Expr) (body : Flow ω → Flow ω)
    (rest : FlowState ω → Variables ω → Flow ω → Flow ω) (inBody : Flow ω → List (Blend ω))
    (inRest : FlowState ω → Variables ω → Flow ω → List (Blend ω)) (f : Flow ω) :
    List (Blend ω) :=
  f.blendsOf c ++ (inBody (f.whenHolds c) ++
    (inRest f.current (f.whenFails c) (body (f.whenHolds c)) ++
    [.ways [(body (f.whenHolds c)).current.vars,
      (rest f.current (f.whenFails c) (body (f.whenHolds c))).current.vars]]))

mutual

/-- The blends that a walk through a statement comes across. -/
def statementBlends : Stmt → Flow ω → List (Blend ω)
  | .declare _ _ (some value) _, f => f.blendsOf value
  | .declare _ _ none _, _ => []
  | .assign (.ident _ _) value _, f => f.blendsOf value
  | .assign target value _, f => f.blendsOfTarget target ++ (f.target target).blendsOf value
  | .routine _ name params body _ _, f => blockBlends body (f.inside name params)
  | .call _ none args _, f => f.blendsOfAll args
  | .call _ (some object) args _, f => f.blendsOf object ++ (f.visit object).blendsOfAll args
  | .conditional c body rest _, f =>
    f.blendsOfFork c (block body) (alternative rest) (blockBlends body) (alternativeBlends rest)
  | .forTo name first last body _, f =>
    f.blendsOf first ++ ((f.visit first).blendsOf last ++
      blockBlends body (((f.visit first).visit last).update name (.primitive .number)))
  | .forEach name collection body _, f =>
    f.blendsOf collection ++
      blockBlends body ((f.visit collection).update name (.unknownBecause "Collection element"))
  | .whileDo c body _, f => f.blendsOf c ++ blockBlends body (f.condition c)
  | .attempt body handler _, f => blockBlends body f ++ handlerBlends handler (block body f)
  | .ret (some value) _, f => f.blendsOf value
  | .raise (some message) _, f => f.blendsOf message
  | .ret none _, _ | .raise none _, _ | .brk _, _ | .cont _, _ => []

/-- The blends of statements in order. -/
def blockBlends : List Stmt → Flow ω → List (Blend ω)
  | [], _ => []
  | s :: rest, f => statementBlends s f ++ blockBlends rest (statement s f)

/-- The blends of the handler of an attempt. -/
def handlerBlends : Option (List Stmt) → Flow ω → List (Blend ω)
  | none, _ => []
  | some body, f => blockBlends body f

/-- The blends of the way on which a condition fails. -/
def alternativeBlends : Alternative → FlowState ω → Variables ω → Flow ω → List (Blend ω)
  | .none, _, _, _ => []
  | .otherwise body, origin, vars, f => blockBlends body (f.enter vars [origin.id])
  | .elsif c body rest, origin, vars, f =>
    (f.enter vars [origin.id]).blendsOfFork c (block body) (alternative rest) (blockBlends body)
      (alternativeBlends rest)

end

/-! ## Single steps -/

/-- The walks came from two flows to two others, side by side: what they hold now is related, and so
is what they told and made on the way. -/
structure Alongside (C : Comparison ω) (w : C.World) (f₀ g₀ f g : Flow ω) : Prop where
  size : C.reached w f.states.size g.states.size
  vars : Table.Beside (C.rel w) f.current.vars g.current.vars
  context : f.context.Beside (C.rel w) g.context
  events : Grown (FlowEvent.Beside (C.rel w)) f₀.events f.events g₀.events g.events
  states : Grown (FlowState.Beside (C.rel w)) f₀.states f.states g₀.states g.states

/-- The walks come to two flows side by side, and the blends behind pass. -/
def Leads (C : Comparison ω) (w : C.World) (f₀ g₀ : Flow ω) (k k' : List (Blend ω))
    (f g : Flow ω) : Prop :=
  C.Passes k k' ∧ ∃ w', C.le w w' ∧ Alongside C w' f₀ g₀ f g

variable {C : Comparison ω} {w : C.World} {f₀ g₀ f g : Flow ω} {k k' : List (Blend ω)}

/-- Walks go on side by side in whatever world the first part of the way has led to. -/
theorem Leads.trans {l l' : List (Blend ω)} {f' g' : Flow ω} (h : Leads C w f₀ g₀ k k' f g)
    (hnext : ∀ {w' : C.World}, C.le w w' → Alongside C w' f₀ g₀ f g → C.Passes k k' →
      Leads C w' f₀ g₀ l l' f' g') :
    Leads C w f₀ g₀ l l' f' g' := by
  obtain ⟨hk, w', hle, hfg⟩ := h
  obtain ⟨hl, w'', hle', hfg'⟩ := hnext hle hfg hk
  exact ⟨hl, w'', C.le_trans hle hle', hfg'⟩

namespace Alongside

/-- Walks that are side by side have come there. -/
theorem leads (h : Alongside C w f₀ g₀ f g) (hk : C.Passes k k') : Leads C w f₀ g₀ k k' f g :=
  ⟨hk, w, C.le_refl w, h⟩

/-- Both walks tell about related events. -/
theorem emit (h : Alongside C w f₀ g₀ f g) {e e' : FlowEvent ω} (he : e.Beside (C.rel w) e') :
    Alongside C w f₀ g₀ (f.emit e) (g.emit e') :=
  ⟨h.size, h.vars, h.context, h.events.push he, h.states⟩

/-- Other states that are related can be gone to. -/
theorem moveTo (h : Alongside C w f₀ g₀ f g) {s s' : FlowState ω}
    (hs : Table.Beside (C.rel w) s.vars s'.vars) :
    Alongside C w f₀ g₀ { f with current := s } { g with current := s' } :=
  ⟨h.size, hs, h.context, h.events, h.states⟩

/-- Both walks make a state. -/
theorem enter (h : Alongside C w f₀ g₀ f g) (hk : C.Passes k k') {vars vars' : Variables ω}
    (hvars : Table.Beside (C.rel w) vars vars') (predecessors predecessors' : List Nat) :
    Leads C w f₀ g₀ k k' (f.enter vars predecessors) (g.enter vars' predecessors') := by
  obtain ⟨w', hle, hsize, hrecord⟩ := C.rel_enter h.size
  have hmono : ∀ r s, C.rel w r s → C.rel w' r s := fun _ _ => C.rel_mono hle
  have hnew : Table.Beside (C.rel w') (f.enter vars predecessors).current.vars
      (g.enter vars' predecessors').current.vars := hvars.map fun name r s => hrecord r s name
  refine ⟨hk, w', hle, ?_, hnew, h.context.mono hmono, h.events.mono fun _ _ => .mono hmono, ?_⟩
  · show C.reached w' (f.states.push _).size (g.states.push _).size
    rw [Array.size_push, Array.size_push]
    exact hsize
  · exact (h.states.mono fun _ _ => .mono hmono).push ⟨hnew, h.context.scope⟩

/-- Both walks give a variable related types. -/
theorem update (h : Alongside C w f₀ g₀ f g) (hk : C.Passes k k') (name : Text)
    {type type' : Resolution ω} (ht : C.rel w type type') :
    Leads C w f₀ g₀ k k' (f.update name type) (g.update name type') :=
  h.enter hk (h.vars.insert name ht) _ _

/-! ## Expressions -/

/-- The environments of walks that are side by side fit, so that inference over them can be
compared. -/
theorem fits_environment (h : Alongside C w f₀ g₀ f g) :
    Comparison.Fits w (fun s t => Grown (FlowEvent.Beside (C.rel w)) f₀.events s g₀.events t)
      f.environment (fun _ _ _ => []) g.environment (fun _ _ _ => []) := by
  constructor
  · intro name loc s t hst
    have hget : Option.Rel (C.rel w) (f.typeOf? name) (g.typeOf? name) := h.vars.get? name
    unfold environment
    dsimp only
    generalize f.typeOf? name = found, g.typeOf? name = found' at hget
    cases hget with
    | some hr => exact ⟨.some hr, hst⟩
    | none => exact ⟨.none, hst.push (.undeclared name loc)⟩
  · intro name loc args args' hargs s t k k' hst hk
    refine ⟨C.rel_callResult h.context.functions name hargs, hst.push ?_, hk⟩
    rw [hargs.length_eq]
    exact .call name _ loc
  · intro operation loc operands operands' hos s t hst
    exact hst.push (.operator operation loc hos)

/-- An expression has related types in both walks, and they stay side by side. -/
theorem expression (h : Alongside C w f₀ g₀ f g) {e : Expr}
    (hk : C.Passes (f.blendsOf e ++ k) (g.blendsOf e ++ k')) :
    C.rel w (f.expression e).1 (g.expression e).1 ∧
      Alongside C w f₀ g₀ (f.expression e).2 (g.expression e).2 ∧
      C.Passes k k' := by
  obtain ⟨htype, hevents, hk⟩ :=
    C.follows_infer h.fits_environment e f.events g.events k k' h.events hk
  exact ⟨htype, ⟨h.size, h.vars, h.context, hevents, h.states⟩, hk⟩

/-- Both walks visit an expression. -/
theorem visit (h : Alongside C w f₀ g₀ f g) {e : Expr}
    (hk : C.Passes (f.blendsOf e ++ k) (g.blendsOf e ++ k')) :
    Alongside C w f₀ g₀ (f.visit e) (g.visit e) ∧ C.Passes k k' := (h.expression hk).2

/-- Both walks visit a list of expressions. -/
theorem visitAll {es : List Expr} {f g : Flow ω} (h : Alongside C w f₀ g₀ f g)
    (hk : C.Passes (f.blendsOfAll es ++ k) (g.blendsOfAll es ++ k')) :
    Alongside C w f₀ g₀ (f.visitAll es) (g.visitAll es) ∧ C.Passes k k' := by
  induction es generalizing f g with
  | nil => exact ⟨h, hk⟩
  | cons e es ih =>
    simp only [blendsOfAll, List.append_assoc] at hk
    obtain ⟨h, hk⟩ := h.visit hk
    exact ih h hk

/-- Both walks visit a condition and tell about it. -/
theorem condition (h : Alongside C w f₀ g₀ f g) {c : Expr}
    (hk : C.Passes (f.blendsOf c ++ k) (g.blendsOf c ++ k')) :
    Alongside C w f₀ g₀ (f.condition c) (g.condition c) ∧ C.Passes k k' := by
  obtain ⟨htype, h, hk⟩ := h.expression hk
  exact ⟨h.emit (.condition c htype), hk⟩

/-- Both walks assign the value of an expression. -/
theorem assign (h : Alongside C w f₀ g₀ f g) (name : Text) {value : Expr} (loc : Option Position)
    (hk : C.Passes (f.blendsOf value ++ k) (g.blendsOf value ++ k')) :
    Leads C w f₀ g₀ k k' (f.assign name value loc).2 (g.assign name value loc).2 := by
  obtain ⟨htype, h, hk⟩ := h.expression hk
  have hevent := h.emit (.assignment name loc (h.vars.get? name) htype)
  exact hevent.update hk name htype

/-- Both walks visit the target of an assignment. -/
theorem target (h : Alongside C w f₀ g₀ f g) {e : Expr}
    (hk : C.Passes (f.blendsOfTarget e ++ k) (g.blendsOfTarget e ++ k')) :
    Alongside C w f₀ g₀ (f.target e) (g.target e) ∧ C.Passes k k' := by
  cases e with
  | index object key l =>
    simp only [blendsOfTarget, List.append_assoc] at hk
    obtain ⟨h, hk⟩ := h.visit hk
    exact h.visit hk
  | member object name l => exact h.visit hk
  | _ => exact h.visit hk

/-! ## Forks and routines -/

/-- Both walks start the way on which a condition holds. -/
theorem whenHolds (h : Alongside C w f₀ g₀ f g) {c : Expr}
    (hk : C.Passes (f.blendsOf c ++ k) (g.blendsOf c ++ k')) :
    Leads C w f₀ g₀ k k' (f.whenHolds c) (g.whenHolds c) := by
  obtain ⟨hcond, hk⟩ := h.condition hk
  exact hcond.enter hk (C.beside_apply_refinements h.vars c) _ _

/-- Two states of each walk are joined. -/
theorem merge (h : Alongside C w f₀ g₀ f g) {s s' t t' : FlowState ω}
    (hs : Table.Beside (C.rel w) s.vars s'.vars) (ht : Table.Beside (C.rel w) t.vars t'.vars)
    (hk : C.Passes (.ways [s.vars, t.vars] :: k) (.ways [s'.vars, t'.vars] :: k')) :
    Leads C w f₀ g₀ k k' (f.merge [s, t]) (g.merge [s', t']) := by
  obtain ⟨hkeeps, hk⟩ := hk.cons
  have hways := C.beside_join (.cons hs (.cons ht .nil)) hkeeps
  obtain ⟨hk, w', hle, hjoin⟩ := h.enter hk hways [s.id, t.id] [s'.id, t'.id]
  exact ⟨hk, w', hle, hjoin.size, hjoin.vars, hjoin.context, hjoin.events, hjoin.states⟩

/-- A fork, from what both of its ways lead to. The way on which the condition fails starts from the
state at the condition again, and the ends of both ways are joined. -/
theorem fork (h : Alongside C w f₀ g₀ f g) {c : Expr} {body : Flow ω → Flow ω}
    {rest : FlowState ω → Variables ω → Flow ω → Flow ω} {inBody : Flow ω → List (Blend ω)}
    {inRest : FlowState ω → Variables ω → Flow ω → List (Blend ω)}
    (hbody : ∀ {w : C.World} {f g : Flow ω} {k k' : List (Blend ω)}, Alongside C w f₀ g₀ f g →
      C.Passes (inBody f ++ k) (inBody g ++ k') → Leads C w f₀ g₀ k k' (body f) (body g))
    (hrest : ∀ {w : C.World} {f g : Flow ω} {k k' : List (Blend ω)} {origin origin' : FlowState ω}
      {vars vars' : Variables ω}, Alongside C w f₀ g₀ { f with current := origin }
      { g with current := origin' } → Table.Beside (C.rel w) vars vars' →
      C.Passes (inRest origin vars f ++ k) (inRest origin' vars' g ++ k') →
      Leads C w f₀ g₀ k k' (rest origin vars f) (rest origin' vars' g))
    (hk : C.Passes (f.blendsOfFork c body rest inBody inRest ++ k)
      (g.blendsOfFork c body rest inBody inRest ++ k')) :
    Leads C w f₀ g₀ k k' (f.fork c body rest) (g.fork c body rest) := by
  simp only [blendsOfFork, List.append_assoc] at hk
  rw [fork_eq, fork_eq]
  refine (h.whenHolds hk).trans fun hle₁ hholds hk => ?_
  refine (hbody hholds hk).trans fun hle₂ hend hk => ?_
  have hvars := h.vars.mono fun _ _ => C.rel_mono (C.le_trans hle₁ hle₂)
  refine (hrest (hend.moveTo hvars) (C.beside_apply_invert hvars c) hk).trans fun hle₃ hother hk =>
    ?_
  exact hother.merge (hend.vars.mono fun _ _ => C.rel_mono hle₃) hother.vars hk

/-- At the start of a routine the variables are related: parameters are so by their defaults. -/
theorem parameters (h : Alongside C w f₀ g₀ f g) (name : Text) (params : List Param) :
    Table.Beside (C.rel w) (f.parameters name params) (g.parameters name params) := by
  have hdeclared : List.Forall₂ (fun p p' => C.rel w p.type p'.type)
      (((f.context.functions.get? name).map Signature.params).getD [])
      (((g.context.functions.get? name).map Signature.params).getD []) := by
    have hget := h.context.functions.get? name
    generalize f.context.functions.get? name = found, g.context.functions.get? name = found' at hget
    cases hget with
    | some hs => exact hs.params
    | none => exact .nil
  unfold Flow.parameters
  generalize ((f.context.functions.get? name).map Signature.params).getD [] = ps,
    ((g.context.functions.get? name).map Signature.params).getD [] = ps' at hdeclared
  refine h.vars.insertAll (List.forall₂_iff_get.2 ⟨?_, ?_⟩)
  · rw [List.length_mapIdx, List.length_mapIdx]
  · intro i hi hi'
    rw [List.get_eq_getElem, List.get_eq_getElem, List.getElem_mapIdx, List.getElem_mapIdx]
    refine ⟨rfl, ?_⟩
    dsimp only
    by_cases hlt : i < ps.length
    · have hlt' : i < ps'.length := hdeclared.length_eq ▸ hlt
      rw [List.getElem?_eq_getElem hlt, List.getElem?_eq_getElem hlt']
      exact hdeclared.get hlt hlt'
    · have hge' : ¬ i < ps'.length := hdeclared.length_eq ▸ hlt
      rw [List.getElem?_eq_none (Nat.le_of_not_lt hlt),
        List.getElem?_eq_none (Nat.le_of_not_lt hge')]
      exact C.rel_fresh w (Param.origin_type _)

/-- Both walks go inside of a routine. -/
theorem inside (h : Alongside C w f₀ g₀ f g) (name : Text) (params : List Param)
    (hk : C.Passes k k') :
    Leads C w f₀ g₀ k k' (f.inside name params) (g.inside name params) := by
  have hscope : Alongside C w f₀ g₀ { f with context := f.context.enter (.function name) }
      { g with context := g.context.enter (.function name) } :=
    ⟨h.size, h.vars, h.context.enter _, h.events, h.states⟩
  exact hscope.enter hk (h.parameters name params) _ _

/-- A routine, from what its body leads to; the walks come back to the states before it. -/
theorem routine (h : Alongside C w f₀ g₀ f g) (name : Text) (params : List Param)
    {body : Flow ω → Flow ω} {inBody : Flow ω → List (Blend ω)}
    (hbody : ∀ {w : C.World} {f g : Flow ω} {k k' : List (Blend ω)}, Alongside C w f₀ g₀ f g →
      C.Passes (inBody f ++ k) (inBody g ++ k') → Leads C w f₀ g₀ k k' (body f) (body g))
    (hk : C.Passes (inBody (f.inside name params) ++ k) (inBody (g.inside name params) ++ k')) :
    Leads C w f₀ g₀ k k' (f.routine name params body) (g.routine name params body) := by
  rw [routine_eq, routine_eq]
  refine (h.inside name params hk).trans fun hle₁ hinside hk => ?_
  refine (hbody hinside hk).trans fun hle₂ hend hk => ?_
  have hvars := h.vars.mono fun _ _ => C.rel_mono (C.le_trans hle₁ hle₂)
  exact leads ⟨hend.size, hvars, hend.context.exit, hend.events, hend.states⟩ hk

end Alongside

/-! ## Statements -/

mutual

/-- A statement leads walks side by side. By recursion on the statement; each form takes its blends
off the front. -/
theorem leads_statement : (s : Stmt) → {w : C.World} → {f g : Flow ω} → {k k' : List (Blend ω)} →
    Alongside C w f₀ g₀ f g → C.Passes (statementBlends s f ++ k) (statementBlends s g ++ k') →
    Leads C w f₀ g₀ k k' (statement s f) (statement s g)
  | .declare name _ (some value) loc, _, _, _, _, _, h, hk => h.assign name loc hk
  | .declare name _ none _, _, _, _, _, _, h, hk => h.update hk name (C.rel_fresh _ rfl)
  | .assign target value loc, _, _, _, _, _, h, hk => by
    cases target with
    | ident name l => exact h.assign name loc hk
    | _ =>
      simp only [statementBlends, List.append_assoc] at hk
      obtain ⟨h, hk⟩ := h.target hk
      obtain ⟨h, hk⟩ := h.visit hk
      exact h.leads hk
  | .routine _ name params body _ _, _, _, _, _, _, h, hk =>
    h.routine name params (leads_block body) hk
  | .call name none args loc, _, _, _, _, _, h, hk => by
    obtain ⟨h, hk⟩ := h.visitAll hk
    exact (h.emit (.call name _ loc)).leads hk
  | .call _ (some object) args _, _, _, _, _, _, h, hk => by
    simp only [statementBlends, List.append_assoc] at hk
    obtain ⟨h, hk⟩ := h.visit hk
    obtain ⟨h, hk⟩ := h.visitAll hk
    exact h.leads hk
  | .conditional c body rest _, _, _, _, _, _, h, hk =>
    h.fork (leads_block body) (leads_alternative rest) hk
  | .forTo name first last body _, _, _, _, _, _, h, hk => by
    simp only [statementBlends, List.append_assoc] at hk
    obtain ⟨h, hk⟩ := h.visit hk
    obtain ⟨h, hk⟩ := h.visit hk
    exact (h.update hk name (C.rel_fresh _ rfl)).trans fun _ h hk => leads_block body h hk
  | .forEach name collection body _, _, _, _, _, _, h, hk => by
    simp only [statementBlends, List.append_assoc] at hk
    obtain ⟨h, hk⟩ := h.visit hk
    exact (h.update hk name (C.rel_fresh _ rfl)).trans fun _ h hk => leads_block body h hk
  | .whileDo c body _, _, _, _, _, _, h, hk => by
    simp only [statementBlends, List.append_assoc] at hk
    obtain ⟨h, hk⟩ := h.condition hk
    exact leads_block body h hk
  | .attempt body handler _, _, _, _, _, _, h, hk => by
    simp only [statementBlends, List.append_assoc] at hk
    exact (leads_block body h hk).trans fun _ h hk => leads_handlerBlock handler h hk
  | .ret (some value) _, _, _, _, _, _, h, hk => by
    obtain ⟨h, hk⟩ := h.visit hk
    exact h.leads hk
  | .raise (some message) _, _, _, _, _, _, h, hk => by
    obtain ⟨h, hk⟩ := h.visit hk
    exact h.leads hk
  | .ret none _, _, _, _, _, _, h, hk | .raise none _, _, _, _, _, _, h, hk
  | .brk _, _, _, _, _, _, h, hk | .cont _, _, _, _, _, _, h, hk => h.leads hk

/-- Both walks go over a block, by recursion along the statements. -/
theorem leads_block : (body : List Stmt) → {w : C.World} → {f g : Flow ω} →
    {k k' : List (Blend ω)} →
    Alongside C w f₀ g₀ f g → C.Passes (blockBlends body f ++ k) (blockBlends body g ++ k') →
    Leads C w f₀ g₀ k k' (block body f) (block body g)
  | [], _, _, _, _, _, h, hk => h.leads hk
  | s :: rest, _, _, _, _, _, h, hk => by
    simp only [blockBlends, List.append_assoc] at hk
    exact (leads_statement s h hk).trans fun _ h hk => leads_block rest h hk

/-- Both walks go over the block of a handler, if there is one. -/
theorem leads_handlerBlock : (handler : Option (List Stmt)) → {w : C.World} → {f g : Flow ω} →
    {k k' : List (Blend ω)} → Alongside C w f₀ g₀ f g →
    C.Passes (handlerBlends handler f ++ k) (handlerBlends handler g ++ k') →
    Leads C w f₀ g₀ k k' (handlerBlock handler f) (handlerBlock handler g)
  | none, _, _, _, _, _, h, hk => h.leads hk
  | some body, _, _, _, _, _, h, hk => leads_block body h hk

/-- Both walks go over the other ways of a conditional, from related variables. -/
theorem leads_alternative : (a : Alternative) → {w : C.World} → {f g : Flow ω} →
    {k k' : List (Blend ω)} → {origin origin' : FlowState ω} → {vars vars' : Variables ω} →
    Alongside C w f₀ g₀ { f with current := origin } { g with current := origin' } →
    Table.Beside (C.rel w) vars vars' →
    C.Passes (alternativeBlends a origin vars f ++ k) (alternativeBlends a origin' vars' g ++ k') →
    Leads C w f₀ g₀ k k' (alternative a origin vars f) (alternative a origin' vars' g)
  | .none, _, _, _, _, _, _, _, _, _, h, _, hk => h.leads hk
  | .otherwise body, _, _, _, _, _, origin, origin', _, _, h, hvars, hk =>
    (h.enter hk hvars [origin.id] [origin'.id]).trans fun _ h hk => leads_block body h hk
  | .elsif _ body rest, _, _, _, _, _, origin, origin', _, _, h, hvars, hk =>
    (h.enter hk hvars [origin.id] [origin'.id]).trans fun _ h hk =>
      h.fork (leads_block body) (leads_alternative rest) hk

end

end Flow

end Gradual
