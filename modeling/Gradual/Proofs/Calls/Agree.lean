import Gradual.Calls.Signatures

/-!
# Readings that agree

Of a body, only the values that are given to variables or returned are evaluated while it is read. A
call in a condition or in the bounds of a loop, or one that is a statement, stands in the body and
is not asked; all calls in those values are.

Two readings of the same body, whose calls are answered over different states, stay in step as long
as the answers to the asked calls do. With one state related to itself this says what a reading
preserves; with a state related to a part of it, that the rest makes no difference; and with a
relation that looks at the calls asked so far, that each was asked.

Main statement: `BodyState.asking_block`.
-/

namespace Gradual

variable {ω σ τ α β : Type}

/-! ## Asked calls -/

mutual

/-- The calls that reading a statement asks. -/
def Stmt.asked : Stmt → List CallSite
  | .declare _ _ (some value) _ => value.calls
  | .assign (.ident _ _) value _ => value.calls
  | .ret (some value) _ => value.calls
  | .conditional _ body rest _ => Stmt.askedIn body ++ rest.asked
  | .forTo _ _ _ body _ | .forEach _ _ body _ | .whileDo _ body _ => Stmt.askedIn body
  | .attempt body handler _ => Stmt.askedIn body ++ Stmt.askedInHandler handler
  | _ => []

/-- The calls that reading a block asks. -/
def Stmt.askedIn : List Stmt → List CallSite
  | [] => []
  | s :: rest => s.asked ++ Stmt.askedIn rest

/-- The calls that reading the handler of an attempt asks. -/
def Stmt.askedInHandler : Option (List Stmt) → List CallSite
  | some body => Stmt.askedIn body
  | none => []

/-- The calls that reading the other ways of a conditional asks. -/
def Alternative.asked : Alternative → List CallSite
  | .none => []
  | .otherwise body => Stmt.askedIn body
  | .elsif _ body rest => Stmt.askedIn body ++ rest.asked

end

mutual

/-- What a reading asks about a statement is among the calls that the statement holds. -/
theorem Stmt.asked_subset : (s : Stmt) → s.asked ⊆ s.calls
  | .declare _ _ (some _) _ | .ret (some _) _ => List.Subset.refl _
  | .assign target _ _ => by
    cases target with
    | ident name l => exact List.subset_append_right _ _
    | _ => exact List.nil_subset _
  | .conditional _ body rest _ => List.append_subset.2
    ⟨List.subset_append_of_subset_left
      _ (List.subset_append_of_subset_right _ (Stmt.askedIn_subset body)),
      List.subset_append_of_subset_right _ (Alternative.asked_subset rest)⟩
  | .forTo _ _ _ body _ | .forEach _ _ body _ | .whileDo _ body _ =>
    List.subset_append_of_subset_right _ (Stmt.askedIn_subset body)
  | .attempt body handler _ => List.append_subset.2
    ⟨List.subset_append_of_subset_left _ (Stmt.askedIn_subset body),
      List.subset_append_of_subset_right _ (Stmt.askedInHandler_subset handler)⟩
  | .declare _ _ none _ | .ret none _ | .call .. | .routine .. | .brk _ | .cont _
  | .raise .. => List.nil_subset _

theorem Stmt.askedIn_subset : (body : List Stmt) → Stmt.askedIn body ⊆ Stmt.callsIn body
  | [] => List.Subset.refl _
  | s :: rest => List.append_subset.2
    ⟨List.subset_append_of_subset_left _ (Stmt.asked_subset s),
      List.subset_append_of_subset_right _ (Stmt.askedIn_subset rest)⟩

theorem Stmt.askedInHandler_subset : (handler : Option (List Stmt)) →
    Stmt.askedInHandler handler ⊆ Stmt.callsInHandler handler
  | none => List.Subset.refl _
  | some body => Stmt.askedIn_subset body

theorem Alternative.asked_subset : (a : Alternative) → a.asked ⊆ a.calls
  | .none => List.Subset.refl _
  | .otherwise body => Stmt.askedIn_subset body
  | .elsif _ body rest => List.append_subset.2
    ⟨List.subset_append_of_subset_left
      _ (List.subset_append_of_subset_right _ (Stmt.askedIn_subset body)),
      List.subset_append_of_subset_right _ (Alternative.asked_subset rest)⟩

end

/-! ## Computations -/

/-- From related states the computations give the same value and related states. -/
def Agree (Q : σ → τ → Prop) (m : StateM σ α) (m' : StateM τ α) : Prop :=
  ∀ s t, Q s t → (m s).1 = (m' t).1 ∧ Q (m s).2 (m' t).2

/-- The computations agree, where the relation of states depends on the calls that were asked, and
the given ones are asked on the way. -/
def AgreeAsking (Q : List CallSite → σ → τ → Prop) (sites : List CallSite) (m : StateM σ α)
    (m' : StateM τ α) : Prop :=
  ∀ done s t, Q done s t →
    (m s).1 = (m' t).1 ∧ ∃ done', done ⊆ done' ∧ sites ⊆ done' ∧ Q done' (m s).2 (m' t).2

/-- A value alone agrees with itself. -/
theorem Agree.pure {Q : σ → τ → Prop} (a : α) : Agree Q (Pure.pure a) (Pure.pure a) :=
  fun _ _ h => ⟨rfl, h⟩

/-- A relation of states that does not look at the calls asked may claim any of them. -/
theorem Agree.asking {Q : σ → τ → Prop} {m : StateM σ α} {m' : StateM τ α} (h : Agree Q m m')
    (sites : List CallSite) : AgreeAsking (fun _ => Q) sites m m' := by
  intro done s t hst
  obtain ⟨hvalue, hstate⟩ := h s t hst
  exact ⟨hvalue, done ++ sites, List.subset_append_left _ _, List.subset_append_right _ _, hstate⟩

namespace AgreeAsking

variable {Q : List CallSite → σ → τ → Prop} {xs ys : List CallSite}

/-- A value alone asks nothing. -/
theorem pure (a : α) : AgreeAsking Q [] (Pure.pure a) (Pure.pure a) :=
  fun done _ _ h => ⟨rfl, done, List.Subset.refl _, List.nil_subset _, h⟩

/-- Fewer calls may be claimed. -/
theorem mono {m : StateM σ α} {m' : StateM τ α} (h : AgreeAsking Q ys m m') (hsub : xs ⊆ ys) :
    AgreeAsking Q xs m m' := by
  intro done s t hst
  obtain ⟨hvalue, done', hdone, hys, hstate⟩ := h done s t hst
  exact ⟨hvalue, done', hdone, List.Subset.trans hsub hys, hstate⟩

/-- Computations one after another agree and ask one after the other. -/
theorem bind {m : StateM σ α} {m' : StateM τ α} {f : α → StateM σ β} {f' : α → StateM τ β}
    (hm : AgreeAsking Q xs m m') (hf : ∀ a, AgreeAsking Q ys (f a) (f' a)) :
    AgreeAsking Q (xs ++ ys) (m >>= f) (m' >>= f') := by
  intro done s t hst
  obtain ⟨hvalue, done', hdone, hxs, hstate⟩ := hm done s t hst
  obtain ⟨hnext, done'', hdone', hys, hstate'⟩ := hf (m s).1 done' _ _ hstate
  have hall : xs ++ ys ⊆ done'' := List.append_subset.2 ⟨List.Subset.trans hxs hdone', hys⟩
  show (f (m s).1 (m s).2).1 = (f' (m' t).1 (m' t).2).1 ∧
    ∃ d, done ⊆ d ∧ xs ++ ys ⊆ d ∧ Q d (f (m s).1 (m s).2).2 (f' (m' t).1 (m' t).2).2
  rw [← hvalue]
  exact ⟨hnext, done'', List.Subset.trans hdone hdone', hall, hstate'⟩

/-- What comes last asks nothing. -/
theorem bind_last {m : StateM σ α} {m' : StateM τ α} {f : α → StateM σ β} {f' : α → StateM τ β}
    (hm : AgreeAsking Q xs m m') (hf : ∀ a, AgreeAsking Q [] (f a) (f' a)) :
    AgreeAsking Q xs (m >>= f) (m' >>= f') :=
  (hm.bind hf).mono (List.subset_append_left _ _)

end AgreeAsking

/-! ## Readings in step -/

namespace BodyState

variable {Q : List CallSite → σ → τ → Prop} {calls : Calls ω σ} {calls' : Calls ω τ}

/-- The calls are answered alike. -/
def AgreeOn (Q : List CallSite → σ → τ → Prop) (calls : Calls ω σ) (calls' : Calls ω τ)
    (sites : List CallSite) : Prop :=
  ∀ c ∈ sites, ∀ args, AgreeAsking Q [c] (calls c.callee args) (calls' c.callee args)

/-- Calls answered alike are so in part. -/
theorem AgreeOn.mono {xs ys : List CallSite} (h : AgreeOn Q calls calls' ys) (hsub : xs ⊆ ys) :
    AgreeOn Q calls calls' xs := fun c hc => h c (hsub hc)

/-- Calls answered alike are so in both parts of a list. -/
theorem AgreeOn.append {xs ys : List CallSite} (h : AgreeOn Q calls calls' (xs ++ ys)) :
    AgreeOn Q calls calls' xs ∧ AgreeOn Q calls calls' ys :=
  ⟨h.mono (List.subset_append_left xs ys), h.mono (List.subset_append_right xs ys)⟩

/-- The points of two readings are the same apart from the states, which are related. -/
structure InStep (Q : σ → τ → Prop) (st : BodyState ω σ) (st' : BodyState ω τ) : Prop where
  state : Q st.state st'.state
  locals : st.locals = st'.locals
  returns : st.returns = st'.returns
  step : st.step = st'.step

/-- Two readings have come on in step, and the given calls were asked on the way. -/
def Asking (Q : List CallSite → σ → τ → Prop) (done sites : List CallSite) (st : BodyState ω σ)
    (st' : BodyState ω τ) : Prop :=
  ∃ done', done ⊆ done' ∧ sites ⊆ done' ∧ InStep (Q done') st st'

/-- What is asked later is asked after what was asked before. -/
theorem Asking.andThen {done xs ys : List CallSite} {st u : BodyState ω σ} {st' u' : BodyState ω τ}
    (h : Asking Q done xs st st')
    (hnext : ∀ done', InStep (Q done') st st' → Asking Q done' ys u u') :
    Asking Q done (xs ++ ys) u u' := by
  obtain ⟨done', hdone, hxs, hstep⟩ := h
  obtain ⟨done'', hdone', hys, hlast⟩ := hnext done' hstep
  exact ⟨done'', List.Subset.trans hdone hdone',
    List.append_subset.2 ⟨List.Subset.trans hxs hdone', hys⟩, hlast⟩

/-- Readings in step have the same variables. -/
theorem Asking.locals {done sites : List CallSite} {st : BodyState ω σ} {st' : BodyState ω τ}
    (h : Asking Q done sites st st') : st.locals = st'.locals := by
  obtain ⟨_, _, _, hstep⟩ := h
  exact hstep.locals

/-- What keeps readings in step, whatever was asked, asks nothing. -/
theorem Asking.map {done sites : List CallSite} {st u : BodyState ω σ} {st' u' : BodyState ω τ}
    (h : Asking Q done sites st st')
    (hstep : ∀ done', InStep (Q done') st st' → InStep (Q done') u u') :
    Asking Q done sites u u' := by
  obtain ⟨done', hdone, hsites, hst⟩ := h
  exact ⟨done', hdone, hsites, hstep done' hst⟩

namespace InStep

variable {R : σ → τ → Prop} {done : List CallSite} {st : BodyState ω σ} {st' : BodyState ω τ}

/-- Readings in step ask nothing by standing still. -/
theorem asking_nil (h : InStep (Q done) st st') : Asking Q done [] st st' :=
  ⟨done, List.Subset.refl _, List.nil_subset _, h⟩

/-- Binding a variable keeps readings in step. -/
theorem bind (h : InStep R st st') (routine name : Text) (type : Resolution ω) :
    InStep R (st.bind routine name type) (st'.bind routine name type) := by
  refine ⟨h.state, ?_, h.returns, ?_⟩
  · show st.locals.insert name _ = st'.locals.insert name _
    rw [h.locals, h.step]
  · show st.step + 1 = st'.step + 1
    rw [h.step]

/-- Taking the same variables keeps readings in step. -/
theorem withLocals (h : InStep R st st') (locals : Variables ω) :
    InStep R { st with locals := locals } { st' with locals := locals } :=
  ⟨h.state, rfl, h.returns, h.step⟩

end InStep

/-! ## Expressions -/

variable [Weight ω]

section

variable (locals : Variables ω)

mutual

/-- The type of an expression is the same where its calls are answered alike, and they are all
asked. -/
theorem asking_infer : (e : Expr) → AgreeOn Q calls calls' e.calls →
    AgreeAsking Q e.calls ((environment calls locals).infer e) ((environment calls' locals).infer e)
  | .number .., _ | .string .., _ | .boolean .., _ | .date .., _ | .undefined _, _
  | .null _, _ => .pure _
  | .ident .., _ => .bind (.pure _) fun _ => .pure _
  | .binary _ left right _, h => by
    obtain ⟨hleft, hright⟩ := h.append
    exact .bind (asking_infer left hleft) fun _ => .bind_last (asking_infer right hright) fun _ =>
      .bind (.pure _) fun _ => .pure _
  | .unary _ operand _, h =>
    .bind_last (asking_infer operand h) fun _ => .bind (.pure _) fun _ => .pure _
  | .call callee args _, h => by
    rw [Expr.calls.eq_def] at h ⊢
    obtain ⟨hcallee, hargs⟩ := h.append
    rw [Environment.infer.eq_def, Environment.infer.eq_def]
    -- The arguments come first, while the call is listed before them.
    refine (AgreeAsking.bind (asking_inferAll args hargs) fun types => ?_).mono
      (List.append_subset.2 ⟨List.subset_append_right _ _, List.subset_append_left _ _⟩)
    have hinner := asking_infer callee
    cases callee with
    | ident name l => exact hcallee _ List.mem_cons_self types
    | _ => exact .bind_last (hinner hcallee) fun _ => .pure _
  | .member object _ _, h => .bind_last (asking_infer object h) fun _ => .pure _
  | .index object key _, h => by
    obtain ⟨hobject, hkey⟩ := h.append
    exact .bind (asking_infer object hobject) fun _ =>
      .bind_last (asking_infer key hkey) fun _ => .pure _
  | .new _ args _, h => .bind_last (asking_inferAll args h) fun _ => .pure _
  | .choice c t f _, h => by
    obtain ⟨hct, hf⟩ := h.append
    obtain ⟨hc, ht⟩ := hct.append
    rw [Expr.calls, List.append_assoc]
    exact .bind (asking_infer c hc) fun _ => .bind (asking_infer t ht) fun _ =>
      .bind_last (asking_infer f hf) fun _ => .pure _
  | .array elements _, h => .bind_last (asking_inferAll elements h) fun _ => .pure _
  | .record fields _, h => .bind_last (asking_inferFields fields h) fun _ => .pure _

/-- Expressions in a row ask their calls, by recursion on the list. -/
theorem asking_inferAll : (es : List Expr) → AgreeOn Q calls calls' (Expr.callsIn es) →
    AgreeAsking Q (Expr.callsIn es) ((environment calls locals).inferAll es)
      ((environment calls' locals).inferAll es)
  | [], _ => .pure _
  | e :: es, h => by
    obtain ⟨he, hes⟩ := h.append
    exact .bind (asking_infer e he) fun _ => .bind_last (asking_inferAll es hes) fun _ => .pure _

/-- The values of fields ask their calls. -/
theorem asking_inferFields : (fields : List (Text × Expr)) →
    AgreeOn Q calls calls' (Expr.callsInFields fields) →
    AgreeAsking Q (Expr.callsInFields fields) ((environment calls locals).inferFields fields)
      ((environment calls' locals).inferFields fields)
  | [], _ => .pure _
  | (_, e) :: rest, h => by
    obtain ⟨he, hrest⟩ := h.append
    exact .bind (asking_infer e he) fun _ => asking_inferFields rest hrest

end

end

/-! ## Statements -/

namespace InStep

variable {R : σ → τ → Prop} {done : List CallSite} {st : BodyState ω σ} {st' : BodyState ω τ}

/-- Joining the same ways keeps readings in step. -/
theorem rejoin (h : InStep R st st') (routine : Text) {ways ways' : List (Variables ω)}
    (hways : ways = ways') :
    InStep R (st.rejoin routine ways) (st'.rejoin routine ways') := by
  subst hways
  refine ⟨h.state, ?_, h.returns, ?_⟩
  · rw [BodyState.rejoin, BodyState.rejoin, h.step]
  · show st.step + 1 = st'.step + 1
    rw [h.step]

/-- An expression has one type in both readings, which ask its calls. -/
theorem typeOf (h : InStep (Q done) st st') {e : Expr} (he : AgreeOn Q calls calls' e.calls) :
    (st.typeOf calls e).1 = (st'.typeOf calls' e).1 ∧
      Asking Q done e.calls (st.typeOf calls e).2 (st'.typeOf calls' e).2 := by
  obtain ⟨hvalue, done', hdone, hsites, hstate⟩ :=
    asking_infer st.locals e he done st.state st'.state h.state
  rw [BodyState.typeOf, BodyState.typeOf, ← h.locals]
  exact ⟨hvalue, done', hdone, hsites, hstate, rfl, h.returns, h.step⟩

/-- An assignment asks the calls of its value. -/
theorem assign (h : InStep (Q done) st st') {e : Expr} (he : AgreeOn Q calls calls' e.calls)
    (routine name : Text) :
    Asking Q done e.calls (st.assign routine calls name e) (st'.assign routine calls' name e) := by
  obtain ⟨hvalue, done', hdone, hsites, hstep⟩ := h.typeOf he
  refine ⟨done', hdone, hsites, ?_⟩
  show InStep (Q done') ((st.typeOf calls e).2.bind routine name (st.typeOf calls e).1)
    ((st'.typeOf calls' e).2.bind routine name (st'.typeOf calls' e).1)
  rw [hvalue]
  exact hstep.bind routine name _

/-- A return asks the calls of its value. -/
theorem ret (h : InStep (Q done) st st') {e : Expr} (he : AgreeOn Q calls calls' e.calls) :
    Asking Q done e.calls
      { (st.typeOf calls e).2 with
        returns := (st.typeOf calls e).2.returns ++ [(st.typeOf calls e).1] }
      { (st'.typeOf calls' e).2 with
        returns := (st'.typeOf calls' e).2.returns ++ [(st'.typeOf calls' e).1] } := by
  obtain ⟨hvalue, done', hdone, hsites, hstep⟩ := h.typeOf he
  refine ⟨done', hdone, hsites, hstep.state, hstep.locals, ?_, hstep.step⟩
  show (st.typeOf calls e).2.returns ++ [(st.typeOf calls e).1] = _
  rw [hvalue, hstep.returns]

end InStep

section

variable (routine : Text)

mutual

/-- A statement asks its calls, one case for each kind of statement. -/
theorem asking_statement : (s : Stmt) → AgreeOn Q calls calls' s.asked → {done : List CallSite} →
    {st : BodyState ω σ} → {st' : BodyState ω τ} → InStep (Q done) st st' →
    Asking Q done s.asked (statement routine calls s st) (statement routine calls' s st')
  | .declare name _ (some _) _, hs, _, _, _, h => h.assign hs routine name
  | .declare name _ none _, _, _, _, _, h => (h.bind routine name _).asking_nil
  | .assign target _ _, hs, _, _, _, h => by
    cases target with
    | ident name l => exact h.assign hs routine name
    | _ => exact h.asking_nil
  | .ret (some _) _, hs, _, _, _, h => h.ret hs
  | .conditional _ body rest _, hs, _, st, st', h => by
    obtain ⟨hbody, hrest⟩ := AgreeOn.append hs
    refine (asking_block body hbody h).andThen fun _ hafter => ?_
    obtain ⟨hways, hlast⟩ := asking_alternative st.locals rest hrest hafter
    rw [statement, statement, ← h.locals]
    exact hlast.map fun _ hstep =>
      hstep.rejoin routine (congr (congrArg List.cons hafter.locals) hways)
  | .forTo _ _ _ body _, hs, _, _, _, h | .forEach _ _ body _, hs, _, _, _, h
  | .whileDo _ body _, hs, _, _, _, h =>
    asking_block body hs h
  | .attempt body handler _, hs, _, _, _, h => by
    obtain ⟨hbody, hhandler⟩ := AgreeOn.append hs
    exact (asking_block body hbody h).andThen fun _ hafter =>
      asking_handlerBlock handler hhandler hafter
  | .ret none _, _, _, _, _, h | .routine .., _, _, _, _, h | .call .., _, _, _, _, h
  | .brk _, _, _, _, _, h
  | .cont _, _, _, _, _, h | .raise .., _, _, _, _, h => h.asking_nil

/-- **Readings of a body stay in step** where the calls that it asks are answered alike, and all of
these are asked. -/
theorem asking_block : (body : List Stmt) → AgreeOn Q calls calls' (Stmt.askedIn body) →
    {done : List CallSite} → {st : BodyState ω σ} → {st' : BodyState ω τ} → InStep (Q done) st st' →
    Asking Q done (Stmt.askedIn body) (block routine calls body st) (block routine calls' body st')
  | [], _, _, _, _, h => h.asking_nil
  | s :: rest, hs, _, _, _, h => by
    obtain ⟨hhead, hrest⟩ := AgreeOn.append hs
    exact (asking_statement s hhead h).andThen fun _ hafter => asking_block rest hrest hafter

theorem asking_handlerBlock : (handler : Option (List Stmt)) →
    AgreeOn Q calls calls' (Stmt.askedInHandler handler) → {done : List CallSite} →
    {st : BodyState ω σ} →
    {st' : BodyState ω τ} → InStep (Q done) st st' →
    Asking Q done (Stmt.askedInHandler handler) (handlerBlock routine calls handler st)
      (handlerBlock routine calls' handler st')
  | none, _, _, _, _, h => h.asking_nil
  | some body, hs, _, _, _, h => asking_block body hs h

/-- So do the other ways of a conditional, which end with the same variables in both readings. -/
theorem asking_alternative (start : Variables ω) :
    (a : Alternative) → AgreeOn Q calls calls' a.asked → {done : List CallSite} →
      {st : BodyState ω σ} → {st' : BodyState ω τ} → InStep (Q done) st st' →
    (alternative routine calls start a st).1 = (alternative routine calls' start a st').1 ∧
      Asking Q done a.asked (alternative routine calls start a st).2
        (alternative routine calls' start a st').2
  | .none, _, _, _, _, h => ⟨rfl, h.asking_nil⟩
  | .otherwise body, hs, _, _, _, h => by
    have hbody := asking_block body hs (h.withLocals start)
    exact ⟨congrArg (fun locals => [locals]) hbody.locals, hbody⟩
  | .elsif _ body rest, hs, _, _, _, h => by
    obtain ⟨hhead, hrest⟩ := AgreeOn.append hs
    have hbody := asking_block body hhead (h.withLocals start)
    have ⟨_, _, _, hafter⟩ := hbody
    have hways := (asking_alternative start rest hrest hafter).1
    exact ⟨congr (congrArg List.cons hafter.locals) hways,
      hbody.andThen fun _ hstep => (asking_alternative start rest hrest hstep).2⟩

end

/-- Readings stay in step where the answers to the asked calls agree. -/
theorem inStep_block (body : List Stmt) {R : σ → τ → Prop}
    (h : ∀ c ∈ Stmt.askedIn body, ∀ args, Agree R (calls c.callee args) (calls' c.callee args))
    {st : BodyState ω σ} {st' : BodyState ω τ} (hst : InStep R st st') :
    InStep R (block routine calls body st) (block routine calls' body st') := by
  have hagree : AgreeOn (fun _ => R) calls calls' (Stmt.askedIn body) :=
    fun c hc args => (h c hc args).asking [c]
  obtain ⟨_, _, _, hstep⟩ : Asking (fun _ => R) [] (Stmt.askedIn body) _ _ :=
    asking_block routine body hagree hst
  exact hstep

end

end BodyState

end Gradual
