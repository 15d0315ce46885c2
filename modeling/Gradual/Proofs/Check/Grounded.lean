import Gradual.Proofs.Calls.Readings
import Gradual.Proofs.Check.Findings
import Gradual.Proofs.Types.Grounded

/-!
# Grounded checks

A check starts with nothing but the signatures of other modules. Reading the bodies of routines and
walking through the module only ever store types of expressions, refined types, joins, and the types
of parameters. All of these are grounded if the variables and signatures at hand are, so the
readings and the walk keep it that way: no type of a check comes from anywhere else than from the
built-in types and the given signatures.

Main statement: `Program.grounded_check`.
-/

namespace Gradual

variable {ω σ : Type} {given : List (Concrete ω)} {I : σ → Prop}

/-! ## Bodies of routines -/

namespace BodyState

variable {calls : Calls ω σ} {st : BodyState ω σ}

/-- Calls are answered with grounded types, and the state stays of a kind. -/
def Answers (given : List (Concrete ω)) (I : σ → Prop) (calls : Calls ω σ) : Prop :=
  ∀ name args, (∀ r ∈ args, r.Grounded given) → Yields I (·.Grounded given) (calls name args)

/-- All that is known at a point of a body is grounded. -/
structure Grounded (given : List (Concrete ω)) (I : σ → Prop) (st : BodyState ω σ) : Prop where
  state : I st.state
  locals : Variables.Grounded given st.locals
  returns : ∀ r ∈ st.returns, r.Grounded given

/-- The environment of a body is grounded where its variables and the answers to its calls are. -/
theorem grounded_environment (hcalls : Answers given I calls) {locals : Variables ω}
    (hlocals : Variables.Grounded given locals) : (environment calls locals).Grounded given I :=
  ⟨fun name _ => .pure (hlocals name), fun name args _ => hcalls name args,
    fun _ _ _ => .pure trivial⟩

namespace Grounded

/-- Binding a variable to a grounded type keeps a body state grounded. -/
theorem bind (h : st.Grounded given I) (routine name : Text) {type : Resolution ω}
    (htype : type.Grounded given) :
    (st.bind routine name type).Grounded given I :=
  ⟨h.state, h.locals.insert (htype.recordAt _), h.returns⟩

/-- Taking grounded variables in place of the current ones keeps a body state grounded. -/
theorem withLocals (h : st.Grounded given I) {locals : Variables ω}
    (hlocals : Variables.Grounded given locals) :
    Grounded given I { st with locals := locals } :=
  ⟨h.state, hlocals, h.returns⟩

variable [Weight ω]

/-- Joining grounded ways keeps a body state grounded. -/
theorem rejoin (h : st.Grounded given I) (routine : Text) {ways : List (Variables ω)}
    (hways : ∀ vs ∈ ways, Variables.Grounded given vs) :
    (st.rejoin routine ways).Grounded given I :=
  ⟨h.state, (Variables.grounded_join hways).recordAt _, h.returns⟩

/-- An expression of a body has a grounded type, and the state after it is grounded. -/
theorem typeOf (hcalls : Answers given I calls) (h : st.Grounded given I) (e : Expr) :
    (st.typeOf calls e).1.Grounded given ∧ (st.typeOf calls e).2.Grounded given I := by
  obtain ⟨htype, hstate⟩ :=
    Environment.yields_infer (grounded_environment hcalls h.locals) e st.state h.state
  exact ⟨htype, hstate, h.locals, h.returns⟩

/-- An assignment keeps a body state grounded. -/
theorem assign (hcalls : Answers given I calls) (h : st.Grounded given I) (routine name : Text)
    (value : Expr) :
    (st.assign routine calls name value).Grounded given I := by
  obtain ⟨htype, hst⟩ := h.typeOf hcalls value
  exact hst.bind routine name htype

/-- A return adds a grounded type to those returned. -/
theorem ret (hcalls : Answers given I calls) (h : st.Grounded given I) (value : Expr) :
    Grounded given I
      { (st.typeOf calls value).2 with
        returns := (st.typeOf calls value).2.returns ++ [(st.typeOf calls value).1] } := by
  obtain ⟨htype, hst⟩ := h.typeOf hcalls value
  refine ⟨hst.state, hst.locals, ?_⟩
  intro r hr
  rcases List.mem_append.1 hr with hr | hr
  · exact hst.returns r hr
  · rw [List.mem_singleton.1 hr]
    exact htype

end Grounded

variable [Weight ω]

section

variable (routine : Text)

mutual

/-- Reading a statement keeps what is known grounded. By recursion on the statement. -/
theorem grounded_statement (hcalls : Answers given I calls) :
    (s : Stmt) → {st : BodyState ω σ} → st.Grounded given I →
      (statement routine calls s st).Grounded given I
  | .declare name _ (some value) _, _, h => h.assign hcalls routine name value
  | .declare name _ none _, _, h => h.bind routine name (Resolution.grounded_unknownBecause _)
  | .assign target value _, _, h => by
    cases target with
    | ident name l => exact h.assign hcalls routine name value
    | _ => exact h
  | .ret (some value) _, _, h => h.ret hcalls value
  | .conditional _ body rest _, _, h => by
    have hbody := grounded_block hcalls body h
    obtain ⟨hways, hafter⟩ := grounded_alternative hcalls rest h.locals hbody
    exact hafter.rejoin routine (List.forall_mem_cons.2 ⟨hbody.locals, hways⟩)
  | .forTo _ _ _ body _, _, h | .forEach _ _ body _, _, h
  | .whileDo _ body _, _, h => grounded_block hcalls body h
  | .attempt body handler _, _, h =>
    grounded_handlerBlock hcalls handler (grounded_block hcalls body h)
  | .ret none _, _, h | .routine .., _, h | .call .., _, h | .brk _, _, h | .cont _, _, h
  | .raise .., _, h => h

/-- Blocks keep a body state grounded, by recursion along the statements. -/
theorem grounded_block (hcalls : Answers given I calls) :
    (body : List Stmt) → {st : BodyState ω σ} → st.Grounded given I →
      (block routine calls body st).Grounded given I
  | [], _, h => h
  | s :: rest, _, h => grounded_block hcalls rest (grounded_statement hcalls s h)

theorem grounded_handlerBlock (hcalls : Answers given I calls) : (handler : Option (List Stmt)) →
    {st : BodyState ω σ} → st.Grounded given I →
      (handlerBlock routine calls handler st).Grounded given I
  | none, _, h => h
  | some body, _, h => grounded_block hcalls body h

/-- The other ways of a conditional end in grounded variables. -/
theorem grounded_alternative (hcalls : Answers given I calls) :
    (a : Alternative) → {start : Variables ω} → {st : BodyState ω σ} →
      Variables.Grounded given start → st.Grounded given I →
    (∀ vs ∈ (alternative routine calls start a st).1, Variables.Grounded given vs) ∧
      (alternative routine calls start a st).2.Grounded given I
  | .none, _, _, hstart, h => ⟨List.forall_mem_singleton.2 hstart, h⟩
  | .otherwise body, _, _, hstart, h => by
    have hbody := grounded_block hcalls body (h.withLocals hstart)
    exact ⟨List.forall_mem_singleton.2 hbody.locals, hbody⟩
  | .elsif _ body rest, _, _, hstart, h => by
    have hbody := grounded_block hcalls body (h.withLocals hstart)
    obtain ⟨hways, hafter⟩ := grounded_alternative hcalls rest hstart hbody
    exact ⟨List.forall_mem_cons.2 ⟨hbody.locals, hways⟩, hafter⟩

end

end

end BodyState

/-! ## Readings -/

/-- The signatures made so far are grounded. -/
def Readings.Grounded (given : List (Concrete ω)) (readings : Readings ω) : Prop :=
  Signatures.Grounded given readings.analyzed

/-- Signatures read so far may stand beside the known ones. -/
theorem Readings.Grounded.extend {readings : Readings ω} (h : readings.Grounded given)
    {context : Context ω} (hfunctions : Signatures.Grounded given context.functions) :
    Signatures.Grounded given (readings.extend context).functions := by
  rw [Readings.extend_eq]
  exact hfunctions.insertAll fun e he => h e.1 e.2 (Table.get?_eq_some_iff.2 he)

namespace CallGraph

/-- The types of the parameters of all routines are grounded. -/
def Grounded (given : List (Concrete ω)) (g : CallGraph ω) : Prop :=
  g.routines.All fun _ r => ∀ p ∈ r.params, p.type.Grounded given

/-- The graph of a module starts with grounded parameters. -/
theorem grounded_ofProgram (p : Program) : (ofProgram p : CallGraph ω).Grounded given := by
  refine Table.All.ofList ?_
  intro e he
  obtain ⟨r, hr, rfl⟩ := List.mem_map.1 he
  obtain ⟨s, -, hs⟩ := List.mem_filterMap.1 hr
  cases s with
  | routine kind name params body exported loc =>
    cases hs
    intro q hq
    obtain ⟨i, hi, rfl⟩ := List.mem_mapIdx.1 hq
    exact (Param.grounded_type _).recordAt _
  | _ => cases hs

variable [Weight ω] {g : CallGraph ω} {context : Context ω}

/-- A reading keeps the signatures grounded, and what it gives is grounded. -/
def ReadsGrounded (given : List (Concrete ω))
    (read : Text → StateM (Readings ω) (Option (Signature ω))) : Prop :=
  ∀ name, Yields (Readings.Grounded given) (fun found => ∀ s ∈ found, s.Grounded given) (read name)

/-- A call is answered with a grounded type where the routine it names is read as one. -/
theorem answers_answer (hfunctions : Signatures.Grounded given context.functions)
    {read : Text → StateM (Readings ω) (Option (Signature ω))} (hread : ReadsGrounded given read) :
    BodyState.Answers given (Readings.Grounded given)
      (answer Readings.notebook g context read) := by
  intro name args hargs r hr
  cases hd : g.declaredName? name with
  | none =>
    rw [answer_of_undeclared Readings.notebook read args hd]
    exact ⟨grounded_callResult hfunctions name hargs, hr⟩
  | some d =>
    by_cases hin : d ∈ r.inProgress
    · rw [answer_of_mem Readings.notebook read args hd hin]
      exact ⟨Resolution.grounded_unknownBecause _, hr⟩
    · rw [answer_of_not_mem Readings.notebook read args hd hin]
      obtain ⟨hfound, hafter⟩ := hread d r hr
      refine ⟨Resolution.grounded_getD ?_ (Resolution.grounded_of_dynamic rfl), hafter⟩
      intro t ht
      obtain ⟨s, hs, rfl⟩ := Option.map_eq_some_iff.1 ht
      exact (hfound s hs).returns

/-- The signature that a routine's parameters and returns make is grounded. -/
theorem grounded_signatureOf (name : Text) {r : Routine ω}
    (hparams : ∀ p ∈ r.params, p.type.Grounded given) {returns : List (Resolution ω)}
    (hreturns : ∀ t ∈ returns, t.Grounded given) :
    (signatureOf name r returns).Grounded given := by
  have hresult : (returnType r returns).Grounded given := by
    unfold returnType
    split
    · exact Resolution.grounded_of_dynamic rfl
    · exact Resolution.grounded_of_dynamic rfl
    · exact Resolution.grounded_join hreturns
  intro t ht
  rcases List.mem_append.1 ht with ht | ht
  · obtain ⟨q, hq, rfl⟩ := List.mem_map.1 ht
    obtain ⟨p, hp, rfl⟩ := List.mem_map.1 hq
    exact hparams p hp
  · rw [List.mem_singleton.1 ht]
    exact hresult.recordAt _

section

variable (hg : g.Grounded given) (hvars : Variables.Grounded given context.vars)
  (hfunctions : Signatures.Grounded given context.functions)

include hg hvars hfunctions

/-- If reading one level deeper gives grounded signatures, so does reading here. -/
theorem readsGrounded_readWith {deeper : Text → StateM (Readings ω) (Option (Signature ω))}
    (hdeeper : ReadsGrounded given deeper) :
    ReadsGrounded given (readWith Readings.notebook g context deeper) := by
  intro name s hs
  cases hget : s.analyzed.get? name with
  | some signature =>
    rw [readWith_of_analyzed Readings.notebook g context deeper hget]
    refine ⟨?_, hs⟩
    rintro s' ⟨⟩
    exact hs name signature hget
  | none =>
    cases hr : g.routine? name with
    | none =>
      have hread : readWith Readings.notebook g context deeper name s = (none, s) := by
        unfold readWith
        rw [show (Readings.notebook.readings s).analyzed.get? name = none from hget, hr]
      rw [hread]
      exact ⟨by simp, hs⟩
    | some r =>
      rw [readWith_of_new Readings.notebook g context deeper hget hr]
      have hparams : ∀ p ∈ r.params, p.type.Grounded given := by
        obtain ⟨e, he, rfl⟩ := Option.map_eq_some_iff.1 hr
        exact hg e.1 e.2 (Table.get?_of_entry he)
      have hlocals : Variables.Grounded given
          (context.vars.insertAll (r.params.map fun p => (p.name, p.type))) := by
        refine hvars.insertAll ?_
        intro e he
        obtain ⟨p, hp, rfl⟩ := List.mem_map.1 he
        exact hparams p hp
      have hwalk : (walk Readings.notebook g context deeper name r s).Grounded given
          (Readings.Grounded given) :=
        BodyState.grounded_block name (answers_answer hfunctions hdeeper) r.body
          ⟨hs, hlocals, by simp⟩
      have hsignature := grounded_signatureOf name hparams hwalk.returns
      refine ⟨?_, hwalk.state.insert hsignature⟩
      rintro s' ⟨⟩
      exact hsignature

/-- Reading a routine gives a grounded signature at every depth, by induction on the depth. -/
theorem readsGrounded_read (n : Nat) :
    ReadsGrounded given (read Readings.notebook g context n) := by
  induction n with
  | zero => exact fun _ => .pure (by simp)
  | succ n ih => exact readsGrounded_readWith hg hvars hfunctions ih

/-- Reading all routines makes grounded signatures. -/
theorem grounded_analyzeAll {readings : Readings ω} (h : readings.Grounded given) :
    (g.analyzeAll context readings).Grounded given := by
  have hfold : ∀ (names : List Text) {r : Readings ω}, r.Grounded given →
      (names.foldl (fun r name => (g.analyze context name r).2) r).Grounded given := by
    intro names
    induction names with
    | nil => exact fun hr => hr
    | cons name names ih =>
      exact fun hr => ih (readsGrounded_read hg hvars hfunctions _ name _ hr).2
  exact hfold _ h

end

end CallGraph

/-! ## Walks -/

/-- Leaving a scope changes no signatures. -/
theorem Context.functions_exit (c : Context ω) : c.exit.functions = c.functions := by
  unfold exit
  split
  · rfl
  · rfl

namespace Flow

/-- All that a walk has stored is grounded. -/
structure Grounded (given : List (Concrete ω)) (f : Flow ω) : Prop where
  states : ∀ s ∈ f.states, Variables.Grounded given s.vars
  current : Variables.Grounded given f.current.vars
  functions : Signatures.Grounded given f.context.functions

variable {f : Flow ω}

/-- A flow starts grounded where its context is. -/
theorem grounded_start {context : Context ω} (hvars : Variables.Grounded given context.vars)
    (hfunctions : Signatures.Grounded given context.functions) :
    (start context).Grounded given := by
  have hfirst : Variables.Grounded given (start context).current.vars := hvars.recordAt _
  refine ⟨?_, hfirst, hfunctions⟩
  intro s hs
  rw [Array.mem_singleton.1 hs]
  exact hfirst

namespace Grounded

/-- What only tells about events stores nothing. -/
theorem events (h : f.Grounded given) (events : Array (FlowEvent ω)) :
    Grounded given { f with events := events } :=
  ⟨h.states, h.current, h.functions⟩

/-- Moving to a grounded state keeps a flow grounded. -/
theorem moveTo (h : f.Grounded given) {s : FlowState ω} (hs : Variables.Grounded given s.vars) :
    Grounded given { f with current := s } :=
  ⟨h.states, hs, h.functions⟩

/-- A state entered with grounded variables keeps a flow grounded. -/
theorem enter (h : f.Grounded given) {vars : Variables ω} (hvars : Variables.Grounded given vars)
    (predecessors : List Nat) : (f.enter vars predecessors).Grounded given := by
  have hnew : Variables.Grounded given (f.enter vars predecessors).current.vars := hvars.recordAt _
  refine ⟨?_, hnew, h.functions⟩
  intro s hs
  rcases Array.mem_push.1 hs with hs | rfl
  · exact h.states s hs
  · exact hnew

/-- Updating a variable to a grounded type keeps a flow grounded. -/
theorem update (h : f.Grounded given) (name : Text) {type : Resolution ω}
    (htype : type.Grounded given) :
    (f.update name type).Grounded given := h.enter (h.current.insert htype) _

/-- The variables at the start of a routine are grounded: its parameters stand over those outside.
-/
theorem parameters (h : f.Grounded given) (name : Text) (params : List Param) :
    Variables.Grounded given (f.parameters name params) := by
  refine h.current.insertAll ?_
  intro e he
  obtain ⟨i, hi, rfl⟩ := List.mem_mapIdx.1 he
  dsimp only
  split
  · rename_i d hd
    -- A declared parameter belongs to the signature under the exact name.
    cases hs : f.context.functions.get? name with
    | none =>
      rw [hs] at hd
      cases hd
    | some s =>
      rw [hs] at hd
      exact (h.functions name s hs).param (List.mem_of_getElem? hd)
  · exact Param.grounded_type _

/-- A routine is walked through with its parameters, and the walk comes back to where it was. -/
theorem routine (h : f.Grounded given) (name : Text) (params : List Param) {body : Flow ω → Flow ω}
    (hbody : ∀ {g : Flow ω}, g.Grounded given → (body g).Grounded given) :
    (f.routine name params body).Grounded given := by
  have hscope : Grounded given { f with context := f.context.enter (.function name) } :=
    ⟨h.states, h.current, h.functions⟩
  have hinside := hbody (hscope.enter (h.parameters name params) [f.current.id])
  refine ⟨hinside.states, h.current, ?_⟩
  show Signatures.Grounded given (Context.exit _).functions
  rw [Context.functions_exit]
  exact hinside.functions

variable [Weight ω]

/-- The environment of a grounded flow is grounded. -/
theorem environment (h : f.Grounded given) : f.environment.Grounded given fun _ => True := by
  refine ⟨?_, ?_, ?_⟩
  · intro name loc events _
    refine ⟨?_, trivial⟩
    intro r hr
    cases hget : f.typeOf? name with
    | none =>
      simp only [Flow.environment, hget] at hr
      cases hr
    | some t =>
      simp only [Flow.environment, hget] at hr
      cases hr
      exact h.current name _ hget
  · intro name args loc hargs events _
    exact ⟨grounded_callResult h.functions name hargs, trivial⟩
  · exact fun _ _ _ _ _ => ⟨trivial, trivial⟩

/-- An expression has a grounded type in a grounded flow. -/
theorem typeOf (h : f.Grounded given) (e : Expr) : (f.expression e).1.Grounded given :=
  (Environment.yields_infer h.environment e f.events trivial).1

/-- Visiting an expression adds events only. -/
theorem visit (h : f.Grounded given) (e : Expr) : (f.visit e).Grounded given := h.events _

theorem visitAll (h : f.Grounded given) (es : List Expr) : (f.visitAll es).Grounded given := by
  induction es generalizing f with
  | nil => exact h
  | cons e es ih => exact ih (h.visit e)

theorem condition (h : f.Grounded given) (e : Expr) : (f.condition e).Grounded given := h.events _

theorem target (h : f.Grounded given) (e : Expr) : (f.target e).Grounded given := by
  cases e with
  | member object name l => exact h.visit object
  | index object key l => exact (h.visit object).visit key
  | _ => exact h.visit _

/-- An assignment keeps a flow grounded. -/
theorem assign (h : f.Grounded given) (name : Text) (value : Expr) (loc : Option Position) :
    (f.assign name value loc).2.Grounded given :=
  update (f := (f.expression value).2.emit _) (h.events _) name (h.typeOf value)

/-- Merging grounded states keeps a flow grounded. -/
theorem merge (h : f.Grounded given) {inputs : List (FlowState ω)}
    (hinputs : ∀ s ∈ inputs, Variables.Grounded given s.vars) :
    (f.merge inputs).Grounded given := by
  match inputs, hinputs with
  | [], _ => exact h
  | [s], hinputs => exact h.moveTo (hinputs s List.mem_cons_self)
  | s :: t :: rest, hinputs =>
    have hjoin : Variables.Grounded given
        (Variables.join ((s :: t :: rest).map FlowState.vars)) := by
      refine Variables.grounded_join ?_
      intro vs hvs
      obtain ⟨u, hu, rfl⟩ := List.mem_map.1 hvs
      exact hinputs u hu
    have henter := h.enter hjoin ((s :: t :: rest).map FlowState.id)
    exact ⟨henter.states, henter.current, henter.functions⟩

/-- A fork stays grounded if both ways do; the other way starts from the state at the condition. -/
theorem fork (h : f.Grounded given) (c : Expr) {body : Flow ω → Flow ω}
    {rest : FlowState ω → Variables ω → Flow ω → Flow ω}
    (hbody : ∀ {g : Flow ω}, g.Grounded given → (body g).Grounded given)
    (hrest : ∀ {g : Flow ω} {origin : FlowState ω} {vars : Variables ω}, g.Grounded given →
      Variables.Grounded given origin.vars → Variables.Grounded given vars →
      (rest origin vars g).Grounded given) :
    (f.fork c body rest).Grounded given := by
  have hholds := Narrowing.grounded_apply h.current (Narrowing.grounded_refinements h.current c)
  have hfails := Narrowing.grounded_apply h.current
    (Narrowing.grounded_invert h.current (Narrowing.refinements f.current.vars c))
  have hthen := hbody ((h.condition c).enter hholds [f.current.id])
  have helse := hrest hthen h.current hfails
  dsimp only [Flow.fork]
  refine helse.merge ?_
  intro s hs
  rcases List.mem_cons.1 hs with rfl | hs
  · exact hthen.current
  · rw [List.mem_singleton.1 hs]
    exact helse.current

end Grounded

variable [Weight ω]

mutual

/-- A walk through a statement stays grounded. By recursion on the statement, with one lemma for
each form. -/
theorem grounded_statement : (s : Stmt) → {f : Flow ω} → f.Grounded given →
    (statement s f).Grounded given
  | .declare name _ (some value) loc, _, h => h.assign name value loc
  | .declare name _ none _, _, h => h.update name (Resolution.grounded_unknownBecause _)
  | .assign target value loc, _, h => by
    have htarget := (h.target target).visit value
    cases target with
    | ident name l => exact h.assign name value loc
    | _ => exact htarget
  | .routine _ name params body _ _, _, h => h.routine name params (grounded_block body)
  | .call _ none args _, _, h => (h.visitAll args).events _
  | .call _ (some object) args _, _, h => (h.visit object).visitAll args
  | .conditional c body rest _, _, h => h.fork c (grounded_block body) (grounded_alternative rest)
  | .forTo name first last body _, _, h =>
    grounded_block body (((h.visit first).visit last).update name
      (Resolution.grounded_primitive .number))
  | .forEach name collection body _, _, h =>
    grounded_block body ((h.visit collection).update name (Resolution.grounded_unknownBecause _))
  | .whileDo c body _, _, h => grounded_block body (h.condition c)
  | .attempt body handler _, _, h => grounded_handlerBlock handler (grounded_block body h)
  | .ret (some value) _, _, h => h.visit value
  | .raise (some message) _, _, h => h.visit message
  | .ret none _, _, h | .raise none _, _, h | .brk _, _, h | .cont _, _, h => h

/-- Blocks keep a flow grounded, by recursion along the statements. -/
theorem grounded_block : (body : List Stmt) → {f : Flow ω} → f.Grounded given →
    (block body f).Grounded given
  | [], _, h => h
  | s :: rest, _, h => grounded_block rest (grounded_statement s h)

theorem grounded_handlerBlock : (handler : Option (List Stmt)) → {f : Flow ω} → f.Grounded given →
    (handlerBlock handler f).Grounded given
  | none, _, h => h
  | some body, _, h => grounded_block body h

theorem grounded_alternative : (a : Alternative) → {f : Flow ω} → {origin : FlowState ω} →
    {vars : Variables ω} →
    f.Grounded given → Variables.Grounded given origin.vars → Variables.Grounded given vars →
    (alternative a origin vars f).Grounded given
  | .none, _, _, _, h, horigin, _ => h.moveTo horigin
  | .otherwise body, _, _, _, h, _, hvars => grounded_block body (h.enter hvars _)
  | .elsif c body rest, _, _, _, h, _, hvars =>
    (h.enter hvars _).fork c (grounded_block body) (grounded_alternative rest)

end

end Flow

/-! ## Checks -/

/-- **Grounded checks.** Let the types in the signatures of other modules be bounded. Then whatever
the module, every type that a check stores, for a variable in a state of its walk, in a signature
that it made or in the context at its end, is bounded too, and is built in or one of the types in
those signatures. -/
theorem Program.grounded_check [Weight ω] (file : Text) (externals : Signatures ω)
    (h : ∀ s ∈ externals.values, ∀ r ∈ s.resolutions, r.shape.Bounded) (p : Program) :
    let given := Signatures.types externals
    let result := p.check file externals
    let readings := (CallGraph.ofProgram p).analyzeAll (.make (.module file) externals) .empty
    (∀ s ∈ result.states, ∀ r ∈ s.vars.values, r.Grounded given) ∧
      (∀ s ∈ readings.analyzed.values, ∀ r ∈ s.resolutions, r.Grounded given) ∧
        (∀ r ∈ result.context.vars.values, r.Grounded given) ∧
          ∀ s ∈ result.context.functions.values, ∀ r ∈ s.resolutions, r.Grounded given := by
  intro given result readings
  let initial : Context ω := .make (.module file) externals
  have hexternals : Signatures.Grounded given externals := Signatures.grounded_types h
  have hinitial : Variables.Grounded given initial.vars := .empty
  have hreadings : readings.Grounded given :=
    CallGraph.grounded_analyzeAll (CallGraph.grounded_ofProgram p) hinitial hexternals .empty
  have hfunctions : Signatures.Grounded given (readings.extend initial).functions :=
    hreadings.extend hexternals
  have hvars : Variables.Grounded given (readings.extend initial).vars := by
    rw [Readings.extend_eq]
    exact hinitial
  have hwalk := Flow.grounded_block p (Flow.grounded_start hvars hfunctions)
  refine ⟨?_, ?_, ?_, ?_⟩
  · intro s hs r hr
    exact (hwalk.states s hs).of_mem_values hr
  · intro s hs
    exact hreadings.of_mem_values hs
  · intro r hr
    exact hwalk.current.of_mem_values hr
  · intro s hs
    rw [Program.functions_check] at hs
    exact hfunctions.of_mem_values hs

/-- A variable takes the result of a function of another module, which returns one of two types. -/
theorem Program.grounded_check_union :
    let found : Resolution Float :=
      .inferred 0.9 (.union [(.primitive .string, 0.5),
        (.configuration .catalog "Товары" [] [], 0.5)])
    let externals : Signatures Float :=
      .ofList [("Найти", ⟨[⟨"код", .unknown, false⟩], found, true⟩)]
    let p : Program :=
      [.assign (.ident "а" none) (.call (.ident "Найти" none) [.number 1 none] none) none]
    let given := Signatures.types externals
    let result := p.check "м" externals
    let readings := (CallGraph.ofProgram p).analyzeAll (.make (.module "м") externals) .empty
    (∀ s ∈ externals.values, ∀ r ∈ s.resolutions, r.shape.Bounded) ∧
      (result.context.vars.get? "а").map Resolution.shape = some found.shape ∧
        (∀ s ∈ result.states, ∀ r ∈ s.vars.values, r.Grounded given) ∧
          (∀ s ∈ readings.analyzed.values, ∀ r ∈ s.resolutions, r.Grounded given) ∧
            (∀ r ∈ result.context.vars.values, r.Grounded given) ∧
              ∀ s ∈ result.context.functions.values, ∀ r ∈ s.resolutions, r.Grounded given := by
  refine (fun hbounded => ⟨hbounded, by rfl, Program.grounded_check "м" _ hbounded _⟩) ?_
  intro s hs r hr
  rw [List.mem_singleton.1 hs] at hr
  rcases List.mem_cons.1 hr with rfl | hr
  · trivial
  · rw [List.mem_singleton.1 hr]
    refine ⟨by decide, by decide, ?_⟩
    unfold Members.Distinct
    decide

end Gradual
