import Gradual.Flow.Walk
import Gradual.Proofs.Keys

/-!
# The states of a walk

A walk only adds states, each behind the states that it comes from. Bodies of routines and the ways
of a conditional are walked from a state that is put back afterwards, and a scope that is entered
for a body is left again. So whatever is asked of a walk, and in whatever order, its states stay
numbered and linked backwards, its merge points stay true, and its context is the one it started
with.

Main statement: `after_spec`.
-/

namespace Gradual

variable {ω : Type}

/-- Leaving a scope that was entered gives the context before. -/
theorem Context.exit_enter (c : Context ω) (scope : Scope) : (c.enter scope).exit = c := by
  have hlast : (c.outer ++ [c.scope]).getLast? = some c.scope := by simp
  rw [exit, enter]
  dsimp only
  rw [hlast]
  simp

namespace Flow

/-! ## Invariant -/

/-- The states are numbered in their order and linked to earlier ones, the merge points are those of
joined states, and the walk stands in one of the states. -/
structure WellFormed (f : Flow ω) : Prop where
  id_eq : ∀ (i : Nat) (s : FlowState ω), f.states[i]? = some s → s.id = i
  predecessors_eq_nil_iff : ∀ (i : Nat) (s : FlowState ω), f.states[i]? = some s →
    (s.predecessors = [] ↔ i = 0)
  predecessors_lt : ∀ (i : Nat) (s : FlowState ω), f.states[i]? = some s →
    ∀ j ∈ s.predecessors, j < i
  merged : ∀ m ∈ f.merges, ∃ s, f.states[m.merged]? = some s ∧ s.predecessors = m.states
  current : f.states[f.current.id]? = some f.current

/-- A walk went on: states and merge points were added, those that were there are kept, and the
context is the same. -/
structure Advances (f g : Flow ω) : Prop where
  wellFormed : g.WellFormed
  states : ∀ (i : Nat) (s : FlowState ω), f.states[i]? = some s → g.states[i]? = some s
  merges : ∀ (i : Nat) (m : MergePoint), f.merges[i]? = some m → g.merges[i]? = some m
  context : g.context = f.context

/-- The walk stands at a number below the count of its states. -/
theorem WellFormed.current_lt {f : Flow ω} (h : f.WellFormed) : f.current.id < f.states.size :=
  (Array.getElem?_eq_some_iff.1 h.current).1

/-- States and merge points alone decide whether the walk is well formed. -/
theorem WellFormed.congr {f g : Flow ω} (h : f.WellFormed) (hstates : g.states = f.states)
    (hmerges : g.merges = f.merges) (hcurrent : f.states[g.current.id]? = some g.current) :
    g.WellFormed := by
  refine ⟨?_, ?_, ?_, ?_, ?_⟩
  · rw [hstates]; exact h.id_eq
  · rw [hstates]; exact h.predecessors_eq_nil_iff
  · rw [hstates]; exact h.predecessors_lt
  · rw [hstates, hmerges]; exact h.merged
  · rw [hstates]; exact hcurrent

/-- A walk starts well formed, in a state without predecessors. -/
theorem wellFormed_start (context : Context ω) : (start context).WellFormed := by
  have hstates : ∀ (i : Nat) (s : FlowState ω), (start context).states[i]? = some s →
      i = 0 ∧ s = FlowState.make 0 context.vars [] context.scope := by
    intro i s hs
    obtain ⟨hi, hs⟩ := Array.getElem?_eq_some_iff.1 hs
    have hzero : i = 0 := Nat.lt_one_iff.1 hi
    subst hzero
    exact ⟨rfl, hs.symm⟩
  refine ⟨?_, ?_, ?_, ?_, rfl⟩
  · intro i s hs
    obtain ⟨rfl, rfl⟩ := hstates i s hs
    rfl
  · intro i s hs
    obtain ⟨rfl, rfl⟩ := hstates i s hs
    exact ⟨fun _ => rfl, fun _ => rfl⟩
  · intro i s hs j hj
    obtain ⟨rfl, rfl⟩ := hstates i s hs
    cases hj
  · intro m hm
    simp [start] at hm

namespace Advances

variable {f g h : Flow ω}

/-- A walk that stays advances. -/
theorem refl (hf : f.WellFormed) : f.Advances f := ⟨hf, fun _ _ hs => hs, fun _ _ hm => hm, rfl⟩

/-- Advances follow each other. -/
theorem trans (hfg : f.Advances g) (hgh : g.Advances h) : f.Advances h :=
  ⟨hgh.wellFormed, fun i s hs => hgh.states i s (hfg.states i s hs),
    fun i m hm => hgh.merges i m (hfg.merges i m hm), hgh.context.trans hfg.context⟩

/-! ## Single steps -/

/-- What only tells about events leaves the rest. -/
theorem events (hf : f.WellFormed) (events : Array (FlowEvent ω)) :
    f.Advances { f with events := events } :=
  ⟨hf.congr rfl rfl hf.current, fun _ _ hs => hs, fun _ _ hm => hm, rfl⟩

/-- An event advances a walk, as no state is touched. -/
theorem emit (hf : f.WellFormed) (e : FlowEvent ω) : f.Advances (f.emit e) := events hf _

/-- Going back to a state. -/
theorem moveTo (hf : f.WellFormed) {s : FlowState ω} (hs : f.states[s.id]? = some s) :
    f.Advances { f with current := s } :=
  ⟨hf.congr rfl rfl hs, fun _ _ hs => hs, fun _ _ hm => hm, rfl⟩

/-- A new state behind earlier ones. -/
theorem enter (hf : f.WellFormed) (vars : Variables ω) {predecessors : List Nat}
    (hne : predecessors ≠ []) (hlt : ∀ i ∈ predecessors, i < f.states.size) :
    f.Advances (f.enter vars predecessors) := by
  have hkept : ∀ (i : Nat) (s : FlowState ω), f.states[i]? = some s →
      (f.enter vars predecessors).states[i]? = some s := by
    intro i s hs
    obtain ⟨hi, -⟩ := Array.getElem?_eq_some_iff.1 hs
    show (f.states.push _)[i]? = some s
    rw [Array.getElem?_push, if_neg (Nat.ne_of_lt hi), hs]
  have hnew : ∀ (i : Nat) (s : FlowState ω), (f.enter vars predecessors).states[i]? = some s →
      f.states[i]? = some s ∨ i = f.states.size ∧
        s = FlowState.make i vars predecessors f.context.scope := by
    intro i s hs
    have hpush : (f.states.push _)[i]? = some s := hs
    rw [Array.getElem?_push] at hpush
    by_cases hi : i = f.states.size
    · rw [if_pos hi, Option.some.injEq] at hpush
      exact .inr ⟨hi, by rw [hi]; exact hpush.symm⟩
    · rw [if_neg hi] at hpush
      exact .inl hpush
  have hpos : 0 < f.states.size := Nat.lt_of_le_of_lt (Nat.zero_le _) hf.current_lt
  refine ⟨⟨?_, ?_, ?_, ?_, ?_⟩, hkept, fun _ _ hm => hm, rfl⟩
  · intro i s hs
    rcases hnew i s hs with hs | ⟨-, rfl⟩
    · exact hf.id_eq i s hs
    · rfl
  · intro i s hs
    rcases hnew i s hs with hs | ⟨hi, rfl⟩
    · exact hf.predecessors_eq_nil_iff i s hs
    · exact ⟨fun hnil => absurd hnil hne, fun hzero => by omega⟩
  · intro i s hs
    rcases hnew i s hs with hs | ⟨hi, rfl⟩
    · exact hf.predecessors_lt i s hs
    · rw [hi]
      exact hlt
  · intro m hm
    obtain ⟨s, hs, hpreds⟩ := hf.merged m hm
    exact ⟨s, hkept _ s hs, hpreds⟩
  · exact Array.getElem?_push_size

/-- A state entered from one that is there advances a walk. -/
theorem enter_one (hf : f.WellFormed) (vars : Variables ω) {s : FlowState ω}
    (hs : f.states[s.id]? = some s) :
    f.Advances (f.enter vars [s.id]) := by
  refine enter hf vars (by simp) ?_
  intro i hi
  rw [List.mem_singleton.1 hi]
  exact (Array.getElem?_eq_some_iff.1 hs).1

/-- An update advances a walk: the new state comes behind the current one. -/
theorem update (hf : f.WellFormed) (name : Text) (type : Resolution ω) :
    f.Advances (f.update name type) :=
  enter_one hf _ hf.current

/-- States are never taken away. -/
theorem size_le {f g : Flow ω} (h : f.Advances g) : f.states.size ≤ g.states.size := by
  apply Nat.le_of_not_lt
  intro hlt
  have hkept := h.states g.states.size _ (Array.getElem?_eq_getElem hlt)
  exact absurd (Array.getElem?_eq_some_iff.1 hkept).1 (Nat.lt_irrefl _)

section

variable [Weight ω]

/-- An expression advances a walk. -/
theorem expression (hf : f.WellFormed) (e : Expr) : f.Advances (f.expression e).2 := events hf _

/-- Visiting expressions advances a walk. -/
theorem visitAll (hf : f.WellFormed) (es : List Expr) : f.Advances (f.visitAll es) := by
  induction es generalizing f with
  | nil => exact refl hf
  | cons e es ih =>
    have he : f.Advances (f.visit e) := expression hf e
    exact he.trans (ih he.wellFormed)

/-- Visiting a condition advances a walk. -/
theorem condition (hf : f.WellFormed) (e : Expr) : f.Advances (f.condition e) := by
  have he := expression hf e
  exact he.trans (emit he.wellFormed _)

/-- An assignment advances a walk. -/
theorem assign (hf : f.WellFormed) (name : Text) (value : Expr) (loc : Option Position) :
    f.Advances (f.assign name value loc).2 := by
  have hvalue := expression hf value
  have hevent := emit hvalue.wellFormed
    (.assignment name ((f.expression value).2.typeOf? name) (f.expression value).1 loc)
  exact hvalue.trans (hevent.trans (update hevent.wellFormed name (f.expression value).1))

/-- Visiting the target of an assignment advances a walk. -/
theorem target (hf : f.WellFormed) (e : Expr) : f.Advances (f.target e) := by
  cases e with
  | index object key l =>
    have hobject := expression hf object
    exact hobject.trans (expression hobject.wellFormed key)
  | member object name l => exact expression hf object
  | _ => exact expression hf _

/-- Joining states of the walk. -/
theorem merge (hf : f.WellFormed) {inputs : List (FlowState ω)}
    (hin : ∀ s ∈ inputs, f.states[s.id]? = some s) :
    f.Advances (f.merge inputs) := by
  match inputs, hin with
  | [], _ => exact refl hf
  | [s], hin => exact moveTo hf (hin s List.mem_cons_self)
  | s :: t :: rest, hin =>
    have henter : f.Advances (f.enter (Variables.join ((s :: t :: rest).map FlowState.vars))
        ((s :: t :: rest).map FlowState.id)) := by
      refine enter hf _ (by simp) ?_
      intro i hi
      obtain ⟨u, hu, rfl⟩ := List.mem_map.1 hi
      exact (Array.getElem?_eq_some_iff.1 (hin u hu)).1
    -- The merge point names the new state, which has the joined states before it.
    refine henter.trans ⟨⟨henter.wellFormed.id_eq, henter.wellFormed.predecessors_eq_nil_iff,
      henter.wellFormed.predecessors_lt, ?_, henter.wellFormed.current⟩, fun _ _ hs => hs, ?_, rfl⟩
    · intro m hm
      rcases Array.mem_push.1 hm with hm | rfl
      · exact henter.wellFormed.merged m hm
      · exact ⟨_, henter.wellFormed.current, rfl⟩
    · intro i m hm
      obtain ⟨hi, -⟩ := Array.getElem?_eq_some_iff.1 hm
      show (Array.push _ _)[i]? = some m
      rw [Array.getElem?_push, if_neg (Nat.ne_of_lt hi), hm]

/-! ## Forks and routines -/

/-- A fork goes on if both ways do; the other way starts from a state that is there already. -/
theorem fork (hf : f.WellFormed) (c : Expr) {body : Flow ω → Flow ω}
    {rest : FlowState ω → Variables ω → Flow ω → Flow ω}
    (hbody : ∀ {g : Flow ω}, g.WellFormed → g.Advances (body g))
    (hrest : ∀ {g : Flow ω} {origin : FlowState ω} (vars : Variables ω), g.WellFormed →
      g.states[origin.id]? = some origin → g.Advances (rest origin vars g)) :
    f.Advances (f.fork c body rest) := by
  have hcond := condition hf c
  have henter := enter_one hcond.wellFormed
    (Narrowing.apply (f.condition c).current.vars
      (Narrowing.refinements (f.condition c).current.vars c))
    hcond.wellFormed.current
  have hthen := hbody henter.wellFormed
  have horigin := hthen.states _ _ (henter.states _ _ hcond.wellFormed.current)
  have helse := hrest (Narrowing.apply (f.condition c).current.vars
    (Narrowing.invert (f.condition c).current.vars
    (Narrowing.refinements (f.condition c).current.vars c))) hthen.wellFormed horigin
  have hends := hcond.trans (henter.trans (hthen.trans helse))
  dsimp only [Flow.fork]
  refine hends.trans (merge hends.wellFormed ?_)
  intro s hs
  rcases List.mem_cons.1 hs with rfl | hs
  · exact helse.states _ _ hthen.wellFormed.current
  · rw [List.mem_singleton.1 hs]
    exact helse.wellFormed.current

end

/-- A routine is walked through in its scope, and the walk comes back to where it was. -/
theorem routine (hf : f.WellFormed) (name : Text) (params : List Param) {body : Flow ω → Flow ω}
    (hbody : ∀ {g : Flow ω}, g.WellFormed → g.Advances (body g)) :
    f.Advances (f.routine name params body) := by
  have hscope : WellFormed { f with context := f.context.enter (.function name) } :=
    hf.congr rfl rfl hf.current
  have henter := enter_one hscope (f.parameters name params) hf.current
  have hinside := henter.trans (hbody henter.wellFormed)
  refine ⟨hinside.wellFormed.congr rfl rfl (hinside.states _ _ hf.current), hinside.states,
    hinside.merges, ?_⟩
  show (body _).context.exit = f.context
  rw [hinside.context]
  exact Context.exit_enter _ _

end Advances

/-! ## Statements -/

section

variable [Weight ω]

mutual

/-- A walk goes on through a statement. By recursion on the statement, with one lemma for each
form. -/
theorem advances_statement : (s : Stmt) → {f : Flow ω} → f.WellFormed → f.Advances (statement s f)
  | .declare name _ (some value) loc, _, hf => .assign hf name value loc
  | .declare name _ none _, _, hf => .update hf name _
  | .assign target value loc, _, hf => by
    have htarget := Advances.target hf target
    cases target with
    | ident name l => exact .assign hf name value loc
    | _ => exact htarget.trans (.expression htarget.wellFormed value)
  | .routine _ name params body _ _, _, hf => .routine hf name params (advances_block body)
  | .call name none args loc, _, hf => by
    have hargs := Advances.visitAll hf args
    exact hargs.trans (.emit hargs.wellFormed _)
  | .call _ (some object) args _, _, hf => by
    have hobject := Advances.expression hf object
    exact hobject.trans (.visitAll hobject.wellFormed args)
  | .conditional c body rest _, _, hf =>
    .fork hf c (advances_block body) (advances_alternative rest)
  | .forTo name first last body _, _, hf => by
    have hfirst := Advances.expression hf first
    have hlast := hfirst.trans (.expression hfirst.wellFormed last)
    have hvar := hlast.trans (.update hlast.wellFormed name (.primitive .number))
    exact hvar.trans (advances_block body hvar.wellFormed)
  | .forEach name collection body _, _, hf => by
    have hcollection := Advances.expression hf collection
    have hvar := hcollection.trans
      (.update hcollection.wellFormed name (.unknownBecause "Collection element"))
    exact hvar.trans (advances_block body hvar.wellFormed)
  | .whileDo c body _, _, hf => by
    have hcond := Advances.condition hf c
    exact hcond.trans (advances_block body hcond.wellFormed)
  | .attempt body handler _, _, hf => by
    have hbody := advances_block body hf
    exact hbody.trans (advances_handlerBlock handler hbody.wellFormed)
  | .ret (some value) _, _, hf => .expression hf value
  | .raise (some message) _, _, hf => .expression hf message
  | .ret none _, _, hf | .raise none _, _, hf | .brk _, _, hf | .cont _, _, hf => .refl hf

/-- A block advances a walk, by recursion along the statements. -/
theorem advances_block : (body : List Stmt) → {f : Flow ω} → f.WellFormed →
    f.Advances (block body f)
  | [], _, hf => .refl hf
  | s :: rest, _, hf => by
    have hs := advances_statement s hf
    exact hs.trans (advances_block rest hs.wellFormed)

theorem advances_handlerBlock : (handler : Option (List Stmt)) → {f : Flow ω} → f.WellFormed →
    f.Advances (handlerBlock handler f)
  | none, _, hf => .refl hf
  | some body, _, hf => advances_block body hf

/-- So do the other ways of a conditional, which start from a state that is there. -/
theorem advances_alternative : (a : Alternative) → {f : Flow ω} → {origin : FlowState ω} →
    (vars : Variables ω) →
    f.WellFormed → f.states[origin.id]? = some origin → f.Advances (alternative a origin vars f)
  | .none, _, _, _, hf, horigin => .moveTo hf horigin
  | .otherwise body, _, _, vars, hf, horigin => by
    have henter := Advances.enter_one hf vars horigin
    exact henter.trans (advances_block body henter.wellFormed)
  | .elsif c body rest, _, _, vars, hf, horigin => by
    have henter := Advances.enter_one hf vars horigin
    exact henter.trans (.fork henter.wellFormed c (advances_block body) (advances_alternative rest))

end

end

end Flow

/-! ## Whatever is asked of a walk -/

/-- What can be asked of a walk. -/
inductive FlowRequest (ω : Type) where
  | statement (s : Stmt)
  | block (body : List Stmt)
  | assign (name : Text) (value : Expr) (loc : Option Position)
  | conditional (c : Expr) (body : List Stmt) (rest : Alternative)
  | expression (e : Expr)
  | update (name : Text) (type : Resolution ω)
  /-- Joins states, given by their numbers; the walk stays where it is. -/
  | merge (ids : List Nat)

namespace Flow

/-- The context at a state has its variables and its scope. -/
theorem contextAt?_of_state (f : Flow ω) {i : Nat} {s : FlowState ω} (hs : f.states[i]? = some s) :
    ∃ c, f.contextAt? i = some c ∧ c.vars = s.vars ∧ c.scope = s.scope ∧
      c.functions = f.context.functions := by
  rw [contextAt?, hs]
  refine ⟨_, rfl, ?_⟩
  dsimp only
  by_cases hkey : s.scope.key = (f.context.withVariables s.vars).scope.key
  · rw [if_pos (beq_iff_eq.2 hkey)]
    exact ⟨rfl, (Scope.key_injective hkey).symm, rfl⟩
  · rw [if_neg fun h => hkey (beq_iff_eq.1 h)]
    exact ⟨rfl, rfl, rfl⟩

variable [Weight ω]

/-- Does what is asked. -/
def answer (f : Flow ω) : FlowRequest ω → Flow ω
  | .statement s => f.statement s
  | .block body => f.block body
  | .assign name value loc => (f.assign name value loc).2
  | .conditional c body rest => f.conditional c body rest
  | .expression e => (f.expression e).2
  | .update name type => f.update name type
  | .merge ids => { f.merge (ids.filterMap fun i => f.states[i]?) with current := f.current }

/-- The walk in a context after requests. -/
def after (context : Context ω) (requests : List (FlowRequest ω)) : Flow ω :=
  requests.foldl answer (start context)

/-- An answer to a request advances a walk. -/
theorem advances_answer {f : Flow ω} (hf : f.WellFormed) (r : FlowRequest ω) :
    f.Advances (f.answer r) := by
  cases r with
  | statement s => exact advances_statement s hf
  | block body => exact advances_block body hf
  | assign name value loc => exact .assign hf name value loc
  | conditional c body rest => exact .fork hf c (advances_block body) (advances_alternative rest)
  | expression e => exact .expression hf e
  | update name type => exact .update hf name type
  | merge ids =>
    have hinputs : ∀ s ∈ ids.filterMap (fun i => f.states[i]?), f.states[s.id]? = some s := by
      intro s hs
      obtain ⟨i, -, hi⟩ := List.mem_filterMap.1 hs
      rw [hf.id_eq i s hi]
      exact hi
    have hmerge := Advances.merge hf hinputs
    exact hmerge.trans (.moveTo hmerge.wellFormed (hmerge.states _ _ hf.current))

/-- Any requests advance the walk from its start, by induction on them. -/
theorem advances_after (context : Context ω) (requests : List (FlowRequest ω)) :
    (start context).Advances (after context requests) := by
  have hrun : ∀ {f : Flow ω}, f.WellFormed → f.Advances (requests.foldl answer f) := by
    induction requests with
    | nil => exact fun hf => .refl hf
    | cons r requests ih =>
      intro f hf
      have hr := advances_answer hf r
      exact hr.trans (ih hr.wellFormed)
  exact hrun (wellFormed_start context)

/-- **The states of a walk.** Whatever was asked of a walk: its states are numbered and linked
backwards, its merge points are those of joined states, it stands in one of its states and has the
context that it started with; the context at a state has its variables and its scope; and whatever
is asked next keeps all states and the context. -/
theorem after_spec (context : Context ω) (requests : List (FlowRequest ω)) :
    let f := after context requests
    f.WellFormed ∧ f.context = context ∧
      (∀ (i : Nat) (s : FlowState ω), f.states[i]? = some s →
        ∃ c, f.contextAt? i = some c ∧ c.vars = s.vars ∧ c.scope = s.scope ∧
          c.functions = context.functions) ∧
      ∀ r, f.Advances (f.answer r) := by
  intro f
  have hafter : (start context).Advances f := advances_after context requests
  have hcontext : f.context = context := hafter.context
  refine ⟨hafter.wellFormed, hcontext, ?_, advances_answer hafter.wellFormed⟩
  intro i s hs
  rw [← hcontext]
  exact f.contextAt?_of_state hs

end Flow

end Gradual
