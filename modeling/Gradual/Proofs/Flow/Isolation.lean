import Gradual.Proofs.Flow.Renaming

/-!
# Branches and routines do not see each other

A walk is one object that is moved back and forth: to the start of each way of a conditional, into
the bodies of routines and back again. Still no way of a conditional sees what is assigned on
another one, and nothing outside of a routine sees what is done inside. Whatever the first branch of
a conditional is, its other branches are walked through in the same way; and a block without its
routine declarations does to the variables what the block does, and tells about the same events
outside of routines.

Main statement: `isolated`.
-/

namespace Gradual

variable {ω : Type}

/-! ## Replacing a branch -/

/-- A conditional whose first branch is replaced. -/
structure BranchSwap where
  condition : Expr
  body : List Stmt
  body' : List Stmt
  rest : Alternative

namespace Flow

/-- The walk that a routine is walked through with is well formed. -/
theorem WellFormed.inside {f : Flow ω} (hf : f.WellFormed) (name : Text) (params : List Param) :
    (f.inside name params).WellFormed := by
  have hscope : WellFormed { f with context := f.context.enter (.function name) } :=
    hf.congr rfl rfl hf.current
  exact (Advances.enter_one hscope (f.parameters name params) hf.current).wellFormed

variable [Weight ω]

mutual

/-- Two blocks are the same but for one conditional, at any depth, whose first branch is replaced in
the second; and walks through them from `f` come to this conditional in `g`. -/
inductive SwapsIn (w : BranchSwap) (g : Flow ω) : Flow ω → List Stmt → List Stmt → Prop
  | here (loc : Option Position) (more : List Stmt) :
    SwapsIn w g g (.conditional w.condition w.body w.rest loc :: more)
      (.conditional w.condition w.body' w.rest loc :: more)
  | within {f : Flow ω} {s s' : Stmt} (more : List Stmt) : SwapsAt w g f s s' →
    SwapsIn w g f (s :: more) (s' :: more)
  | later {f : Flow ω} {b b' : List Stmt} (s : Stmt) :
    SwapsIn w g (statement s f) b b' → SwapsIn w g f (s :: b) (s :: b')

/-- The conditional stands inside of a statement. -/
inductive SwapsAt (w : BranchSwap) (g : Flow ω) : Flow ω → Stmt → Stmt → Prop
  | routine {f : Flow ω} {b b' : List Stmt} (kind : RoutineKind) (name : Text) (params : List Param)
    (exported : Bool) (loc : Option Position) : SwapsIn w g (f.inside name params) b b' →
    SwapsAt w g f (.routine kind name params b exported loc)
      (.routine kind name params b' exported loc)
  | holds {f : Flow ω} {c : Expr} {b b' : List Stmt} (rest : Alternative) (loc : Option Position) :
    SwapsIn w g (f.whenHolds c) b b' →
      SwapsAt w g f (.conditional c b rest loc) (.conditional c b' rest loc)
  | fails {f : Flow ω} {a a' : Alternative} (c : Expr) (body : List Stmt) (loc : Option Position) :
    SwapsBeside w g f.current (f.whenFails c) (block body (f.whenHolds c)) a a' →
    SwapsAt w g f (.conditional c body a loc) (.conditional c body a' loc)
  | forTo {f : Flow ω} {first last : Expr} {b b' : List Stmt} (name : Text)
    (loc : Option Position) :
    SwapsIn w g (((f.visit first).visit last).update name (.primitive .number)) b b' →
    SwapsAt w g f (.forTo name first last b loc) (.forTo name first last b' loc)
  | forEach {f : Flow ω} {collection : Expr} {b b' : List Stmt} (name : Text)
    (loc : Option Position) :
    SwapsIn w g ((f.visit collection).update name (.unknownBecause "Collection element")) b b' →
    SwapsAt w g f (.forEach name collection b loc) (.forEach name collection b' loc)
  | whileDo {f : Flow ω} {c : Expr} {b b' : List Stmt} (loc : Option Position) :
    SwapsIn w g (f.condition c) b b' → SwapsAt w g f (.whileDo c b loc) (.whileDo c b' loc)
  | tried {f : Flow ω} {b b' : List Stmt} (handler : Option (List Stmt)) (loc : Option Position) :
    SwapsIn w g f b b' → SwapsAt w g f (.attempt b handler loc) (.attempt b' handler loc)
  | handled {f : Flow ω} {body b b' : List Stmt} (loc : Option Position) :
    SwapsIn w g (block body f) b b' →
      SwapsAt w g f (.attempt body (some b) loc) (.attempt body (some b') loc)

/-- The conditional stands on the way on which a condition fails. -/
inductive SwapsBeside (w : BranchSwap) (g : Flow ω) :
    FlowState ω → Variables ω → Flow ω → Alternative → Alternative → Prop
  | otherwise {origin : FlowState ω} {vars : Variables ω} {f : Flow ω} {b b' : List Stmt} :
    SwapsIn w g (f.enter vars [origin.id]) b b' →
      SwapsBeside w g origin vars f (.otherwise b) (.otherwise b')
  | holds {origin : FlowState ω} {vars : Variables ω} {f : Flow ω} {c : Expr} {b b' : List Stmt}
    (rest : Alternative) :
    SwapsIn w g ((f.enter vars [origin.id]).whenHolds c) b b' →
    SwapsBeside w g origin vars f (.elsif c b rest) (.elsif c b' rest)
  | fails {origin : FlowState ω} {vars : Variables ω} {f : Flow ω} {a a' : Alternative} (c : Expr)
    (body : List Stmt) :
    SwapsBeside w g (f.enter vars [origin.id]).current ((f.enter vars [origin.id]).whenFails c)
      (block body ((f.enter vars [origin.id]).whenHolds c)) a a' →
    SwapsBeside w g origin vars f (.elsif c body a) (.elsif c body a')

end

/-! ## Founded walks stay founded -/

/-- Starting the way on which a condition holds advances a well-formed walk. -/
theorem Advances.whenHolds {f : Flow ω} (hf : f.WellFormed) (c : Expr) :
    f.Advances (f.whenHolds c) := by
  have hcond := Advances.condition hf c
  exact hcond.trans (.enter_one hcond.wellFormed _ hcond.wellFormed.current)

/-- Walking over a branch advances a well-formed walk. -/
theorem Advances.branch {f : Flow ω} (hf : f.WellFormed) (c : Expr) (body : List Stmt) :
    f.Advances (block body (f.whenHolds c)) := by
  have hholds := Advances.whenHolds hf c
  exact hholds.trans (advances_block body hholds.wellFormed)

namespace Founded

variable {f : Flow ω}

/-- A walk that one walk leads to beside itself is founded. -/
theorem of_leads {M : Matching} {f₀ g₀ f g : Flow ω} {k k' : List (Blend ω)}
    (h : Leads (.renaming ω) M f₀ g₀ k k' f g) (hf : f.WellFormed) : f.Founded := by
  obtain ⟨-, N, -, hfg⟩ := h
  exact hfg.founded hf

/-- A statement keeps a walk founded. -/
theorem statement (hf : f.Founded) (s : Stmt) : (Flow.statement s f).Founded :=
  of_leads (leads_statement s hf.alongside (passes_renaming (_ ++ []) (_ ++ [])))
    (advances_statement s hf.wellFormed).wellFormed

/-- A block keeps a walk founded. -/
theorem block (hf : f.Founded) (body : List Stmt) : (Flow.block body f).Founded :=
  of_leads (leads_block body hf.alongside (passes_renaming (_ ++ []) (_ ++ [])))
    (advances_block body hf.wellFormed).wellFormed

/-- The way on which a condition holds is founded. -/
theorem whenHolds (hf : f.Founded) (c : Expr) : (f.whenHolds c).Founded :=
  of_leads (hf.alongside.whenHolds (passes_renaming (_ ++ []) (_ ++ [])))
    (Advances.whenHolds hf.wellFormed c).wellFormed

/-- Inside of a routine a walk is founded. -/
theorem inside (hf : f.Founded) (name : Text) (params : List Param) :
    (f.inside name params).Founded :=
  of_leads (hf.alongside.inside name params (passes_renaming [] []))
    (hf.wellFormed.inside name params)

/-- Visiting an expression keeps a walk founded. -/
theorem visit (hf : f.Founded) (e : Expr) : (f.visit e).Founded :=
  (hf.alongside.visit (passes_renaming (_ ++ []) (_ ++ []))).1.founded
    (Advances.expression hf.wellFormed e).wellFormed

/-- Visiting a condition keeps a walk founded. -/
theorem condition (hf : f.Founded) (c : Expr) : (f.condition c).Founded :=
  (hf.alongside.condition (passes_renaming (_ ++ []) (_ ++ []))).1.founded
    (Advances.condition hf.wellFormed c).wellFormed

/-- An update to a type that was held before keeps a walk founded. -/
theorem update (hf : f.Founded) (name : Text) {type : Resolution ω}
    (ht : type.origin.Before f.states.size) :
    (f.update name type).Founded :=
  of_leads (hf.alongside.update (passes_renaming [] []) name (Resolution.renamed_self ht))
    (Advances.update hf.wellFormed name type).wellFormed

/-- A state entered again at a fork, with variables known there, makes a founded walk. -/
theorem enter {M : Matching} {origin : FlowState ω} {vars : Variables ω}
    (h : Alongside (.renaming ω) M f f { f with current := origin } { f with current := origin })
    (hvars : Table.Beside (Resolution.Renamed M) vars vars) (hf : f.WellFormed)
    (horigin : f.states[origin.id]? = some origin) : (f.enter vars [origin.id]).Founded :=
  of_leads (h.enter (passes_renaming [] []) hvars [origin.id] [origin.id])
    (Advances.enter_one hf vars horigin).wellFormed

/-- Wherever walks from a fork have gone, they can start again from the fork. -/
theorem alongside_fork {e e' : Flow ω} (hf : f.Founded) (he : f.Advances e) (he' : f.Advances e') :
    Alongside (.renaming ω) (.diagonal f.states.size) e e' { e with current := f.current }
      { e' with current := f.current } := by
  refine ⟨Matching.below_diagonal he.size_le he'.size_le, hf.alongside.vars, ?_,
    .refl _ _, .refl _ _⟩
  show e.context.Beside _ e'.context
  rw [he.context, he'.context]
  exact hf.alongside.context

end Founded

end Flow

/-- A request from outside of the walk: what it brings along was not first held in one of its
states. -/
def FlowRequest.Outside : FlowRequest ω → Prop
  | .update _ type => type.origin.Before 0
  | _ => True

namespace Flow

variable [Weight ω]

/-- An answer to a request from outside is founded. -/
theorem Founded.answer {f : Flow ω} (hf : f.Founded) {r : FlowRequest ω} (hr : r.Outside) :
    (f.answer r).Founded := by
  have hadvances := advances_answer hf.wellFormed r
  cases r with
  | statement s => exact hf.statement s
  | block body => exact hf.block body
  | assign name value loc => exact hf.statement (.assign (.ident name none) value loc)
  | conditional c body rest => exact hf.statement (.conditional c body rest none)
  | expression e => exact hf.visit e
  | update name type => exact hf.update name (hr.mono (Nat.zero_le _))
  | merge ids =>
    -- The walk stays where it is; only a state is made.
    refine ⟨hadvances.wellFormed, ?_, ?_⟩
    · exact fun name t ht => (hf.vars name t ht).mono hadvances.size_le
    · rw [hadvances.context]
      exact fun name s hs => (hf.functions name s hs).mono hadvances.size_le

/-- Whatever is asked of a walk from outside, it is founded. -/
theorem founded_after {context : Context ω} (hvars : context.vars.All fun _ r => r.origin.Before 0)
    (hfunctions : context.functions.All fun _ s => s.Before 0) (requests : List (FlowRequest ω))
    (hrequests : ∀ r ∈ requests, r.Outside) : (after context requests).Founded := by
  have hrun : ∀ {f : Flow ω}, f.Founded → (requests.foldl Flow.answer f).Founded := by
    induction requests with
    | nil => exact fun hf => hf
    | cons r requests ih =>
      rw [List.forall_mem_cons] at hrequests
      exact fun hf => ih hrequests.2 (hf.answer hrequests.1)
  exact hrun (founded_start hvars hfunctions)

section

variable {w : BranchSwap} {g : Flow ω}

mutual

/-- A founded walk is founded where it comes to the conditional. -/
theorem SwapsIn.founded : {f : Flow ω} → {b b' : List Stmt} → SwapsIn w g f b b' →
    f.Founded → g.Founded
  | _, _, _, .here .., hf => hf
  | _, _, _, .within _ h, hf => h.founded hf
  | _, _, _, .later s h, hf => h.founded (hf.statement s)

/-- So is a walk that stands at the conditional inside of a statement. -/
theorem SwapsAt.founded : {f : Flow ω} → {s s' : Stmt} → SwapsAt w g f s s' → f.Founded → g.Founded
  | _, _, _, .routine _ name params _ _ h, hf => h.founded (hf.inside name params)
  | _, _, _, .holds _ _ h, hf => h.founded (hf.whenHolds _)
  | f, _, _, .fails c body _ h, hf => by
    have hbody := Advances.branch hf.wellFormed c body
    have hfork := hf.alongside_fork hbody hbody
    exact h.founded hfork (Comparison.beside_apply_invert hfork.vars c) hbody.wellFormed
      (hbody.states _ _ hf.wellFormed.current)
  | _, _, _, .forTo name _ h, hf => h.founded (((hf.visit _).visit _).update name trivial)
  | _, _, _, .forEach name _ h, hf => h.founded ((hf.visit _).update name trivial)
  | _, _, _, .whileDo _ h, hf => h.founded (hf.condition _)
  | _, _, _, .tried _ _ h, hf => h.founded hf
  | _, _, _, .handled _ h, hf => h.founded (hf.block _)

/-- So is one at the conditional on the way on which a condition fails. -/
theorem SwapsBeside.founded : {origin : FlowState ω} → {vars : Variables ω} → {f : Flow ω} →
    {a a' : Alternative} → {M : Matching} → SwapsBeside w g origin vars f a a' →
    Alongside (.renaming ω) M f f { f with current := origin } { f with current := origin } →
    Table.Beside (Resolution.Renamed M) vars vars → f.WellFormed →
      f.states[origin.id]? = some origin → g.Founded
  | _, _, _, _, _, _, .otherwise h, hf, hvars, hwf, horigin =>
    h.founded (.enter hf hvars hwf horigin)
  | _, _, _, _, _, _, .holds _ h, hf, hvars, hwf, horigin =>
    h.founded ((Founded.enter hf hvars hwf horigin).whenHolds _)
  | _, _, _, _, _, _, .fails c body h, hf, hvars, hwf, horigin => by
    have hfounded := Founded.enter hf hvars hwf horigin
    have hbody := Advances.branch hfounded.wellFormed c body
    have hfork := hfounded.alongside_fork hbody hbody
    exact h.founded hfork (Comparison.beside_apply_invert hfork.vars c) hbody.wellFormed
      (hbody.states _ _ hfounded.wellFormed.current)

end

end

/-- What stands on the way on which a condition fails is walked through in the same way, whatever
stands on the other. -/
theorem Founded.sameCourse_alternative {f : Flow ω} (hf : f.Founded) (c : Expr)
    (body body' : List Stmt) (rest : Alternative) :
    SameCourse (Flow.block body (f.whenHolds c))
      (alternative rest f.current (f.whenFails c) (Flow.block body (f.whenHolds c)))
      (Flow.block body' (f.whenHolds c))
      (alternative rest f.current (f.whenFails c) (Flow.block body' (f.whenHolds c))) := by
  have hfork := hf.alongside_fork (.branch hf.wellFormed c body) (.branch hf.wellFormed c body')
  obtain ⟨-, M, -, hend⟩ := leads_alternative rest hfork
    (Comparison.beside_apply_invert hfork.vars c) (passes_renaming (_ ++ []) (_ ++ []))
  exact .of_alongside hend

end Flow

/-! ## Leaving out routines -/

mutual

/-- What is left of a statement without the routines that are declared in it, at any depth. -/
def Stmt.withoutRoutines : Stmt → List Stmt
  | .routine .. => []
  | .conditional c body rest loc =>
    [.conditional c (Stmt.blockWithoutRoutines body) rest.withoutRoutines loc]
  | .forTo name first last body loc => [.forTo name first last (Stmt.blockWithoutRoutines body) loc]
  | .forEach name collection body loc =>
    [.forEach name collection (Stmt.blockWithoutRoutines body) loc]
  | .whileDo c body loc => [.whileDo c (Stmt.blockWithoutRoutines body) loc]
  | .attempt body handler loc =>
    [.attempt (Stmt.blockWithoutRoutines body) (Stmt.handlerWithoutRoutines handler) loc]
  | s => [s]

/-- A block without the routines that are declared in it. -/
def Stmt.blockWithoutRoutines : List Stmt → List Stmt
  | [] => []
  | s :: rest => s.withoutRoutines ++ Stmt.blockWithoutRoutines rest

/-- A handler without the routines that are declared in it. -/
def Stmt.handlerWithoutRoutines : Option (List Stmt) → Option (List Stmt)
  | none => none
  | some body => some (Stmt.blockWithoutRoutines body)

/-- An alternative without the routines that are declared in it. -/
def Alternative.withoutRoutines : Alternative → Alternative
  | .none => .none
  | .otherwise body => .otherwise (Stmt.blockWithoutRoutines body)
  | .elsif c body rest => .elsif c (Stmt.blockWithoutRoutines body) rest.withoutRoutines

end

namespace Flow

/-- The events since a point, marked as told inside of a routine declaration or not. -/
def markedSince (inRoutine : Bool) (f g : Flow ω) : List (Bool × FlowEvent ω) :=
  (f.toldSince g).map fun e => (inRoutine, e)

/-- The events that were told outside of routine declarations. -/
def outside (told : List (Bool × FlowEvent ω)) : List (FlowEvent ω) :=
  (told.filter fun e => !e.1).map Prod.snd

/-- The events since a point are those appended since. -/
theorem toldSince_eq {f g : Flow ω} {events : List (FlowEvent ω)}
    (h : g.events.toList = f.events.toList ++ events) : f.toldSince g = events := by
  rw [toldSince, h, ← Array.length_toList, List.drop_left]

/-- Marks on events do not change what is appended. -/
theorem events_markedSince {f g : Flow ω} {events : List (FlowEvent ω)}
    (h : g.events.toList = f.events.toList ++ events) (inRoutine : Bool) :
    g.events.toList = f.events.toList ++ (f.markedSince inRoutine g).map Prod.snd := by
  rw [h, markedSince, toldSince_eq h, List.map_map]
  exact congrArg _ (List.map_id' events).symm

/-- What is told outside of routines, part by part. -/
theorem outside_append (told told' : List (Bool × FlowEvent ω)) :
    outside (told ++ told') = outside told ++ outside told' := by
  rw [outside, List.filter_append, List.map_append]
  rfl

/-- Events marked as outside all stay. -/
theorem outside_map_false (events : List (FlowEvent ω)) :
    outside (events.map fun e => (false, e)) = events := by
  simp [outside, List.filter_map, Function.comp_def]

/-- Events marked as inside of a routine all go. -/
theorem outside_map_true (events : List (FlowEvent ω)) :
    outside (events.map fun e => (true, e)) = [] := by
  simp [outside, List.filter_map, Function.comp_def]

variable [Weight ω]

/-- The events of a fork. -/
def toldInFork (c : Expr) (body : Flow ω → Flow ω) (inBody : Flow ω → List (Bool × FlowEvent ω))
    (inRest : FlowState ω → Variables ω → Flow ω → List (Bool × FlowEvent ω)) (f : Flow ω) :
    List (Bool × FlowEvent ω) :=
  f.markedSince false (f.whenHolds c) ++
    (inBody (f.whenHolds c) ++ inRest f.current (f.whenFails c) (body (f.whenHolds c)))

mutual

/-- The events that a walk through a statement tells about, each with the mark of being told inside
of a routine declaration. -/
def toldInStatement : Stmt → Flow ω → List (Bool × FlowEvent ω)
  | .routine _ name params body _ _, f => f.markedSince true (f.routine name params (block body))
  | .conditional c body rest _, f =>
    toldInFork c (block body) (toldInBlock body) (toldInAlternative rest) f
  | .forTo name first last body _, f =>
    f.markedSince false (((f.visit first).visit last).update name (.primitive .number)) ++
      toldInBlock body (((f.visit first).visit last).update name (.primitive .number))
  | .forEach name collection body _, f =>
    f.markedSince false ((f.visit collection).update name (.unknownBecause "Collection element")) ++
      toldInBlock body ((f.visit collection).update name (.unknownBecause "Collection element"))
  | .whileDo c body _, f => f.markedSince false (f.condition c) ++ toldInBlock body (f.condition c)
  | .attempt body handler _, f => toldInBlock body f ++ toldInHandler handler (block body f)
  | s, f => f.markedSince false (statement s f)

/-- The events of a block, marked. -/
def toldInBlock : List Stmt → Flow ω → List (Bool × FlowEvent ω)
  | [], _ => []
  | s :: rest, f => toldInStatement s f ++ toldInBlock rest (statement s f)

/-- The events of a handler, marked. -/
def toldInHandler : Option (List Stmt) → Flow ω → List (Bool × FlowEvent ω)
  | none, _ => []
  | some body, f => toldInBlock body f

/-- The events on the way on which a condition fails, marked. -/
def toldInAlternative : Alternative → FlowState ω → Variables ω → Flow ω → List (Bool × FlowEvent ω)
  | .none, _, _, _ => []
  | .otherwise body, origin, vars, f => toldInBlock body (f.enter vars [origin.id])
  | .elsif c body rest, origin, vars, f =>
    toldInFork c (block body) (toldInBlock body) (toldInAlternative rest) (f.enter vars [origin.id])

end

/-! ## A walk and its shadow -/

/-- A walk from `f` to `f'` tells about events, some of them inside of routines; one from `g` to
`g'`, through the same statements without routines, tells about the others, and both end side by
side. -/
structure Shadows (M : Matching) (told : List (Bool × FlowEvent ω))
    (f g f' g' : Flow ω) : Prop where
  alongside : Alongside (.renaming ω) M f' g' f' g'
  events : f'.events.toList = f.events.toList ++ told.map Prod.snd
  shadow : ∃ events, g'.events.toList = g.events.toList ++ events ∧
    List.Forall₂ (FlowEvent.Beside (Resolution.Renamed M)) (outside told) events

/-- Under some larger matching, the second walk goes like the first one without routines. -/
def Shadowed (M : Matching) (told : List (Bool × FlowEvent ω)) (f g f' g' : Flow ω) : Prop :=
  ∃ N : Matching, (∀ i j, M.rel i j → N.rel i j) ∧ Shadows N told f g f' g'

namespace Shadowed

variable {M : Matching} {told told' : List (Bool × FlowEvent ω)} {f g f' g' f'' g'' : Flow ω}

/-- Steps about which nothing is told. -/
theorem silent {N : Matching} (hMN : ∀ i j, M.rel i j → N.rel i j)
    (h : Alongside (.renaming ω) N f' g' f' g') (hf : f'.events = f.events)
    (hg : g'.events = g.events) : Shadowed M [] f g f' g' := by
  refine ⟨N, hMN, h, ?_, [], ?_, .nil⟩
  · rw [hf, List.map_nil, List.append_nil]
  · rw [hg, List.append_nil]

/-- Two walks that go alongside and stay where they are shadow each other. -/
theorem refl (h : Alongside (.renaming ω) M f g f g) : Shadowed M [] f g f g :=
  silent (fun _ _ hij => hij) h rfl rfl

/-- Both walks make a state on the way that starts from an earlier one. -/
theorem enter {origin origin' : FlowState ω} {vars vars' : Variables ω}
    (h : Alongside (.renaming ω) M f g { f with current := origin } { g with current := origin' })
    (hvars : Table.Beside (Resolution.Renamed M) vars vars')
    (predecessors predecessors' : List Nat) :
    Shadowed M [] f g (f.enter vars predecessors) (g.enter vars' predecessors') := by
  obtain ⟨-, N, hle, henter⟩ := h.enter (passes_renaming [] []) hvars predecessors predecessors'
  exact silent hle henter.restart rfl rfl

/-- Walks that shadow each other may go on, under any larger matching. -/
theorem trans (h : Shadowed M told f g f' g')
    (hnext : ∀ {N : Matching}, (∀ i j, M.rel i j → N.rel i j) →
      Alongside (.renaming ω) N f' g' f' g' →
      Shadowed N told' f' g' f'' g'') : Shadowed M (told ++ told') f g f'' g'' := by
  obtain ⟨N, hMN, h⟩ := h
  obtain ⟨O, hNO, h'⟩ := hnext hMN h.alongside
  obtain ⟨events, hevents, hrel⟩ := h.shadow
  obtain ⟨events', hevents', hrel'⟩ := h'.shadow
  have hmono : ∀ r s : Resolution ω, r.Renamed N s → r.Renamed O s :=
    fun _ _ => (Comparison.renaming ω).rel_mono hNO
  refine ⟨O, fun i j hij => hNO i j (hMN i j hij), h'.alongside, ?_, events ++ events', ?_, ?_⟩
  · rw [h'.events, h.events, List.map_append, List.append_assoc]
  · rw [hevents', hevents, List.append_assoc]
  · rw [outside_append]
    exact List.rel_append (hrel.imp fun _ _ => .mono hmono) hrel'

/-- Steps that both walks take. -/
theorem of_leads {k k' : List (Blend ω)} (h : Leads (.renaming ω) M f g k k' f' g') :
    Shadowed M (f.markedSince false f') f g f' g' := by
  obtain ⟨-, N, hMN, h⟩ := h
  obtain ⟨events, events', hevents, hevents', hrel⟩ := h.events
  refine ⟨N, hMN, h.restart, events_markedSince hevents false, events', hevents', ?_⟩
  rw [markedSince, outside_map_false, toldSince_eq hevents]
  exact hrel

/-- Walks that go alongside without a routine between shadow each other. -/
theorem of_alongside (h : Alongside (.renaming ω) M f g f' g') :
    Shadowed M (f.markedSince false f') f g f' g' :=
  of_leads (h.leads (passes_renaming [] []))

/-- A routine, which only the first walk goes through. It comes back to its state and its
context. -/
theorem routine (h : Alongside (.renaming ω) M f g f g) (hf : f.WellFormed) (kind : RoutineKind)
    (name : Text) (params : List Param) (body : List Stmt) (exported : Bool)
    (loc : Option Position) :
    Shadowed M (f.markedSince true (f.routine name params (block body))) f g
      (f.routine name params (block body)) g := by
  have hadvances := Advances.routine hf name params (advances_block body)
  have hself := leads_statement (.routine kind name params body exported loc)
    (h.founded hf).alongside (passes_renaming (_ ++ []) (_ ++ []))
  obtain ⟨-, N, -, hself⟩ := hself
  obtain ⟨added, -, hadded, -, -⟩ := hself.events
  have hevents : (f.routine name params (block body)).events.toList = f.events.toList ++ added :=
    hadded
  refine ⟨M, fun _ _ hij => hij, ?_, events_markedSince hevents true, [],
    (List.append_nil _).symm, ?_⟩
  · refine ⟨?_, h.vars, ?_, .refl _ _, .refl _ _⟩
    · intro i j hij
      have hlt := h.size i j hij
      exact ⟨Nat.lt_of_lt_of_le hlt.1 hadvances.size_le, hlt.2⟩
    · rw [hadvances.context]
      exact h.context
  · rw [markedSince, outside_map_true]
    exact .nil

/-- A fork, from what both of its ways do. -/
theorem fork (h : Alongside (.renaming ω) M f g f g) (hf : f.WellFormed) (c : Expr)
    {body body' : Flow ω → Flow ω} {rest rest' : FlowState ω → Variables ω → Flow ω → Flow ω}
    {inBody : Flow ω → List (Bool × FlowEvent ω)}
    {inRest : FlowState ω → Variables ω → Flow ω → List (Bool × FlowEvent ω)}
    (hadvances : ∀ {f : Flow ω}, f.WellFormed → f.Advances (body f))
    (hbody : ∀ {M : Matching} {f g : Flow ω}, f.WellFormed → Alongside (.renaming ω) M f g f g →
      Shadowed M (inBody f) f g (body f) (body' g))
    (hrest : ∀ {M : Matching} {f g : Flow ω} {origin origin' : FlowState ω}
      {vars vars' : Variables ω}, f.WellFormed → f.states[origin.id]? = some origin →
      Alongside (.renaming ω) M f g { f with current := origin } { g with current := origin' } →
      Table.Beside (Resolution.Renamed M) vars vars' →
      Shadowed M (inRest origin vars f) f g (rest origin vars f) (rest' origin' vars' g)) :
    Shadowed M (toldInFork c body inBody inRest f) f g (f.fork c body rest)
      (g.fork c body' rest') := by
  have hholds := Advances.whenHolds hf c
  have hend := hholds.trans (hadvances hholds.wellFormed)
  rw [fork_eq, fork_eq, toldInFork]
  refine (of_leads (h.whenHolds (passes_renaming (_ ++ []) (_ ++ [])))).trans fun hle₁ h₁ => ?_
  refine (hbody hholds.wellFormed h₁).trans fun hle₂ h₂ => ?_
  have hvars : Table.Beside (Resolution.Renamed _) f.current.vars g.current.vars :=
    h.vars.mono fun _ _ hr => (Comparison.renaming ω).rel_mono hle₂
      ((Comparison.renaming ω).rel_mono hle₁ hr)
  have hother := hrest hend.wellFormed (hend.states _ _ hf.current) (h₂.moveTo hvars)
    (Comparison.beside_apply_invert (C := .renaming ω) hvars c)
  -- The ends are joined without a word.
  rw [← List.append_nil (inRest _ _ _)]
  refine hother.trans fun hle₃ h₃ => ?_
  obtain ⟨-, N, hle, hjoin⟩ :=
    h₃.merge (h₂.vars.mono fun _ _ => (Comparison.renaming ω).rel_mono hle₃) h₃.vars
    (passes_renaming (_ :: []) (_ :: []))
  exact silent hle hjoin.restart rfl rfl

end Shadowed

/-- A block in two parts is walked part by part. -/
theorem block_append (body body' : List Stmt) (f : Flow ω) :
    block (body ++ body') f = block body' (block body f) := by
  induction body generalizing f with
  | nil => rfl
  | cons s body ih => exact ih (statement s f)

mutual

/-- A statement is followed by its shadow. By recursion on the statement: only a routine, which the
shadow leaves out, and the forms that can hold one differ from a step of both walks. -/
theorem shadowed_statement : (s : Stmt) → {M : Matching} → {f g : Flow ω} → f.WellFormed →
    Alongside (.renaming ω) M f g f g →
    Shadowed M (toldInStatement s f) f g (statement s f) (block s.withoutRoutines g)
  | .routine kind name params body exported loc, _, _, _, hf, h =>
    .routine h hf kind name params body exported loc
  | .conditional c body rest _, _, _, _, hf, h =>
    .fork h hf c (advances_block body) (shadowed_block body) (shadowed_alternative rest)
  | .forTo name first last body _, _, _, _, hf, h => by
    have hfirst := Advances.expression hf first
    have hlast := Advances.expression hfirst.wellFormed last
    have hvar := Advances.update hlast.wellFormed name (.primitive .number)
    obtain ⟨hvisit, -⟩ := h.visit (passes_renaming (_ ++ []) (_ ++ []))
    obtain ⟨hvisit, -⟩ := hvisit.visit (passes_renaming (_ ++ []) (_ ++ []))
    exact (Shadowed.of_leads (hvisit.update (passes_renaming [] []) name
      ((Comparison.renaming ω).rel_fresh _ rfl))).trans
      fun _ h => shadowed_block body hvar.wellFormed h
  | .forEach name collection body _, _, _, _, hf, h => by
    have hcollection := Advances.expression hf collection
    have hvar := Advances.update hcollection.wellFormed name (.unknownBecause "Collection element")
    obtain ⟨hvisit, -⟩ := h.visit (passes_renaming (_ ++ []) (_ ++ []))
    exact (Shadowed.of_leads (hvisit.update (passes_renaming [] []) name
      ((Comparison.renaming ω).rel_fresh _ rfl))).trans
      fun _ h => shadowed_block body hvar.wellFormed h
  | .whileDo c body _, _, _, _, hf, h => by
    obtain ⟨hcond, -⟩ := h.condition (passes_renaming (_ ++ []) (_ ++ []))
    exact (Shadowed.of_alongside hcond).trans fun _ h =>
      shadowed_block body (Advances.condition hf c).wellFormed h
  | .attempt body handler _, _, _, _, hf, h =>
    (shadowed_block body hf h).trans fun _ h =>
      shadowed_handlerBlock handler (advances_block body hf).wellFormed h
  | .declare .., _, _, _, _, h | .assign .., _, _, _, _, h | .call .., _, _, _, _, h
  | .ret .., _, _, _, _, h
  | .raise .., _, _, _, _, h | .brk _, _, _, _, _, h | .cont _, _, _, _, _, h =>
    .of_leads (leads_statement _ h (passes_renaming (_ ++ []) (_ ++ [])))

/-- A block and the block without routines shadow each other, by recursion along the statements. -/
theorem shadowed_block : (body : List Stmt) → {M : Matching} → {f g : Flow ω} → f.WellFormed →
    Alongside (.renaming ω) M f g f g →
    Shadowed M (toldInBlock body f) f g (block body f) (block (Stmt.blockWithoutRoutines body) g)
  | [], _, _, _, _, h => .refl h
  | s :: rest, _, _, _, hf, h => by
    rw [Stmt.blockWithoutRoutines, block_append]
    exact (shadowed_statement s hf h).trans fun _ h =>
      shadowed_block rest (advances_statement s hf).wellFormed h

theorem shadowed_handlerBlock : (handler : Option (List Stmt)) → {M : Matching} → {f g : Flow ω} →
    f.WellFormed → Alongside (.renaming ω) M f g f g →
    Shadowed M (toldInHandler handler f) f g (handlerBlock handler f)
      (handlerBlock (Stmt.handlerWithoutRoutines handler) g)
  | none, _, _, _, _, h => .refl h
  | some body, _, _, _, hf, h => shadowed_block body hf h

/-- So do the other ways of a conditional, from variables that go alongside. -/
theorem shadowed_alternative : (a : Alternative) → {M : Matching} → {f g : Flow ω} →
    {origin origin' : FlowState ω} → {vars vars' : Variables ω} → f.WellFormed →
      f.states[origin.id]? = some origin →
    Alongside (.renaming ω) M f g { f with current := origin } { g with current := origin' } →
    Table.Beside (Resolution.Renamed M) vars vars' →
    Shadowed M (toldInAlternative a origin vars f) f g (alternative a origin vars f)
      (alternative a.withoutRoutines origin' vars' g)
  | .none, _, _, _, _, _, _, _, _, _, h, _ => .silent (fun _ _ hij => hij) h.restart rfl rfl
  | .otherwise body, _, _, _, origin, origin', vars, _, hf, horigin, h, hvars => by
    have hwf := (Advances.enter_one hf vars horigin).wellFormed
    exact (Shadowed.enter h hvars [origin.id] [origin'.id]).trans fun _ h =>
      shadowed_block body hwf h
  | .elsif c body rest, _, _, _, origin, origin', vars, _, hf, horigin, h, hvars => by
    have hwf := (Advances.enter_one hf vars horigin).wellFormed
    exact (Shadowed.enter h hvars [origin.id] [origin'.id]).trans fun _ h =>
      .fork h hwf c (advances_block body) (shadowed_block body) (shadowed_alternative rest)

end

/-! ## Isolation -/

/-- **Branches and routines are isolated.** From every founded walk, and so from every state that a
walk in a context from outside can come to (`founded_after`), and for every block: if the first
branch of a conditional anywhere in it is replaced, the other branches are walked through in the
same way; and a block without its routine declarations leaves the same variables and tells about the
events of the block outside of routines. -/
theorem isolated (f : Flow ω) (hf : f.Founded) (b : List Stmt) :
    (∀ (w : BranchSwap) (g : Flow ω) (b' : List Stmt), SwapsIn w g f b b' →
      SameCourse (block w.body (g.whenHolds w.condition))
        (alternative w.rest g.current (g.whenFails w.condition)
          (block w.body (g.whenHolds w.condition)))
        (block w.body' (g.whenHolds w.condition))
        (alternative w.rest g.current (g.whenFails w.condition)
          (block w.body' (g.whenHolds w.condition)))) ∧
      (block (Stmt.blockWithoutRoutines b) f).current.vars.unrecorded =
        (block b f).current.vars.unrecorded ∧
      f.toldSince (block b f) = (toldInBlock b f).map Prod.snd ∧
      (f.toldSince (block (Stmt.blockWithoutRoutines b) f)).map FlowEvent.unrecorded =
        (outside (toldInBlock b f)).map FlowEvent.unrecorded := by
  refine ⟨?_, ?_⟩
  · intro w g b' hswap
    exact (hswap.founded hf).sameCourse_alternative w.condition w.body w.body' w.rest
  · obtain ⟨M, -, h⟩ := shadowed_block b hf.wellFormed hf.alongside
    obtain ⟨events, hevents, hrel⟩ := h.shadow
    refine ⟨(Variables.unrecorded_eq h.alongside.vars).symm, ?_, ?_⟩
    · exact toldSince_eq h.events
    · rw [toldSince_eq hevents]
      exact (map_eq_map_of_forall₂ (fun _ _ he => he.unrecorded_eq) hrel).symm

/-- A walk that was given a variable comes to a conditional inside of a routine, whose first branch
assigns the variable and whose other branch reads it. -/
theorem isolated_in_routine :
    let f : Flow Float := after (.make .global .empty) [.update "х" (.primitive .string)]
    let x : Expr := .ident "х" none
    let w : BranchSwap := ⟨x, [.assign x (.null none) none], [],
      .otherwise [.assign (.ident "у" none) x none]⟩
    let declaration (body : List Stmt) : List Stmt :=
      [.assign x (.undefined none) none,
        .routine .procedure "П" [] [.conditional x body w.rest none] false none,
        .call "Сообщить" none [x] none]
    let g := (statement (.assign x (.undefined none) none) f).inside "П" []
    f.Founded ∧ SwapsIn w g f (declaration w.body) (declaration w.body') ∧
      SameCourse (block w.body (g.whenHolds x))
        (alternative w.rest g.current (g.whenFails x) (block w.body (g.whenHolds x)))
        (block w.body' (g.whenHolds x))
        (alternative w.rest g.current (g.whenFails x) (block w.body' (g.whenHolds x))) ∧
      (block (Stmt.blockWithoutRoutines (declaration w.body)) f).current.vars.unrecorded =
        (block (declaration w.body) f).current.vars.unrecorded := by
  intro f x w declaration g
  have hf : f.Founded := founded_after .empty .empty _ (List.forall_mem_singleton.2 trivial)
  have hswap : SwapsIn w g f (declaration w.body) (declaration w.body') :=
    .later _ (.within _ (.routine _ _ _ _ _ (.here _ _)))
  exact ⟨hf, hswap, (isolated f hf (declaration w.body)).1 w g _ hswap,
    (isolated f hf (declaration w.body)).2.1⟩

end Flow

end Gradual
