import Gradual.Proofs.Calls.Readings
import Gradual.Proofs.Types.Dimmed

/-!
# Two readings of the same routines

The routines of a module are read twice, with variables and signatures from outside that are
related. Which routine is read when does not depend on types: a call finds the same routine, which
is or is not being read, and was or was not read before. So both readings make signatures for the
same routines in the same order, and what they make is related, as long as the blends on the way
keep the relation.

Main statements: `CallGraph.readAlongside_read` for any comparison, and
`CallGraph.alongside_analyzeAll` for signatures from outside that are dimmed in the first reading.
-/

namespace Gradual

variable {ω σ τ : Type}

/-! ## Readings side by side -/

/-- The points of two readings of a body, where what is known is related. -/
structure BodyState.Alongside (R : Resolution ω → Resolution ω → Prop) (Q : σ → τ → Prop)
    (st : BodyState ω σ) (st' : BodyState ω τ) : Prop where
  state : Q st.state st'.state
  locals : Table.Beside R st.locals st'.locals
  returns : List.Forall₂ R st.returns st'.returns
  step : st.step = st'.step

/-- What is known is exchanged in both readings. -/
theorem BodyState.Alongside.withLocals {R : Resolution ω → Resolution ω → Prop} {Q : σ → τ → Prop}
    {st : BodyState ω σ} {st' : BodyState ω τ} (h : Alongside R Q st st')
    {locals locals' : Variables ω} (hlocals : Table.Beside R locals locals') :
    Alongside R Q { st with locals := locals } { st' with locals := locals' } :=
  ⟨h.state, hlocals, h.returns, h.step⟩

/-- A body begins to be read with the parameters of its routine. -/
theorem BodyState.alongside_start {R : Resolution ω → Resolution ω → Prop} {Q : σ → τ → Prop}
    {s : σ} {s' : τ} (hs : Q s s') {vars vars' : Variables ω} (hvars : Table.Beside R vars vars')
    {routine : Routine ω} (hparams : ∀ p ∈ routine.params, R p.type p.type) :
    BodyState.Alongside R Q ⟨s,
      vars.insertAll (routine.params.map fun p => (p.name, p.type)), [], 0⟩
      ⟨s', vars'.insertAll (routine.params.map fun p => (p.name, p.type)), [], 0⟩ := by
  refine ⟨hs, Table.Beside.insertAll ?_ hvars, .nil, rfl⟩
  rw [List.forall₂_same]
  intro e he
  obtain ⟨p, hp, rfl⟩ := List.mem_map.1 he
  exact ⟨rfl, hparams p hp⟩

/-- The same routines were read and are being read, and their signatures are related. -/
structure Readings.Beside (R : Resolution ω → Resolution ω → Prop) (r r' : Readings ω) : Prop where
  analyzed : Table.Beside (Signature.Beside R) r.analyzed r'.analyzed
  inProgress : r.inProgress = r'.inProgress

/-- The signatures of the first readings are dimmed. -/
abbrev Readings.Alongside (r r' : Readings ω) : Prop := r.Beside Resolution.Dimmed r'

/-- Readings side by side while some routines are being read. -/
def Readings.BesideWhile (R : Resolution ω → Resolution ω → Prop) (busy : List Text)
    (r r' : Readings ω) : Prop :=
  r.Beside R r' ∧ busy ⊆ r.inProgress

/-- A signature takes the parameters of its routine as they are. -/
theorem CallGraph.forall₂_signatureParams {R : Resolution ω → Resolution ω → Prop}
    {routine : Routine ω} (h : ∀ p ∈ routine.params, R p.type p.type) :
    List.Forall₂ (fun p p' => R p.type p'.type) (signatureParams routine)
      (signatureParams routine) := by
  rw [List.forall₂_same]
  intro p hp
  obtain ⟨q, hq, rfl⟩ := List.mem_map.1 hp
  exact h q hq

variable [Weight ω]

/-- What is made while a routine is read under two names stays related when it is recorded. -/
structure Comparison.Records (C : Comparison ω) (w : C.World) (routine routine' : Text) : Prop where
  bound : ∀ {r r' : Resolution ω} (step : Nat) (name : Text), C.rel w r r' →
    C.rel w (r.recordAt (.bound routine step name)) (r'.recordAt (.bound routine' step name))
  result : ∀ {r r' : Resolution ω}, C.rel w r r' →
    C.rel w (r.recordAt (.result routine)) (r'.recordAt (.result routine'))

/-! ## Blends of readings -/

namespace BodyState

section

variable (routine : Text) (calls : Calls ω σ)
  (inCall : Text → List (Resolution ω) → σ → List (Blend ω))

/-- The blends of an expression in a body. -/
def blendsOf (e : Expr) (st : BodyState ω σ) : List (Blend ω) :=
  (environment calls st.locals).blends inCall e st.state

mutual

/-- The blends that reading a statement comes across. -/
def statementBlends : Stmt → BodyState ω σ → List (Blend ω)
  | .declare _ _ (some value) _, st => st.blendsOf calls inCall value
  | .assign (.ident _ _) value _, st => st.blendsOf calls inCall value
  | .ret (some value) _, st => st.blendsOf calls inCall value
  | .conditional _ body rest _, st =>
    blockBlends body st ++ (alternativeBlends st.locals rest (block routine calls body st) ++
      [.ways ((block routine calls body st).locals ::
        (alternative routine calls st.locals rest (block routine calls body st)).1)])
  | .forTo _ _ _ body _, st | .forEach _ _ body _, st | .whileDo _ body _, st => blockBlends body st
  | .attempt body handler _, st =>
    blockBlends body st ++ handlerBlends handler (block routine calls body st)
  | _, _ => []

/-- The blends of statements in order. -/
def blockBlends : List Stmt → BodyState ω σ → List (Blend ω)
  | [], _ => []
  | s :: rest, st => statementBlends s st ++ blockBlends rest (statement routine calls s st)

/-- The blends of the handler of an attempt. -/
def handlerBlends : Option (List Stmt) → BodyState ω σ → List (Blend ω)
  | none, _ => []
  | some body, st => blockBlends body st

/-- The blends of the other ways of a conditional. -/
def alternativeBlends (start : Variables ω) : Alternative → BodyState ω σ → List (Blend ω)
  | .none, _ => []
  | .otherwise body, st => blockBlends body { st with locals := start }
  | .elsif _ body rest, st =>
    blockBlends body { st with locals := start } ++
      alternativeBlends start rest (block routine calls body { st with locals := start })

end

end

/-! ## Bodies -/

variable {C : Comparison ω} {w : C.World} {Q : σ → τ → Prop} {calls : Calls ω σ}
  {calls' : Calls ω τ} {inCall : Text → List (Resolution ω) → σ → List (Blend ω)}
  {inCall' : Text → List (Resolution ω) → τ → List (Blend ω)} {routine routine' : Text}
  {k k' : List (Blend ω)}

/-- Calls are answered alongside. -/
def Answered (C : Comparison ω) (w : C.World) (Q : σ → τ → Prop) (calls : Calls ω σ)
    (inCall : Text → List (Resolution ω) → σ → List (Blend ω)) (calls' : Calls ω τ)
    (inCall' : Text → List (Resolution ω) → τ → List (Blend ω)) : Prop :=
  ∀ name args args', List.Forall₂ (C.rel w) args args' →
    C.Follows Q (C.rel w) (calls name args) (inCall name args) (calls' name args')
      (inCall' name args')

namespace Alongside

variable {st : BodyState ω σ} {st' : BodyState ω τ}

/-- Both readings bind a variable to related types. -/
theorem bind (h : Alongside (C.rel w) Q st st') (hrecords : C.Records w routine routine')
    (name : Text) {type type' : Resolution ω} (ht : C.rel w type type') :
    Alongside (C.rel w) Q (st.bind routine name type) (st'.bind routine' name type') := by
  refine ⟨h.state, ?_, h.returns, ?_⟩
  · show Table.Beside _ (st.locals.insert name _) (st'.locals.insert name _)
    rw [h.step]
    exact h.locals.insert name (hrecords.bound st'.step name ht)
  · show st.step + 1 = st'.step + 1
    rw [h.step]

/-- Both readings join related ways. -/
theorem rejoin (h : Alongside (C.rel w) Q st st') (hrecords : C.Records w routine routine')
    {ways ways' : List (Variables ω)} (hways : List.Forall₂ (Table.Beside (C.rel w)) ways ways')
    (hk : C.Passes (.ways ways :: k) (.ways ways' :: k')) :
    Alongside (C.rel w) Q (st.rejoin routine ways) (st'.rejoin routine' ways') ∧ C.Passes k k' := by
  obtain ⟨hkeeps, hk⟩ := hk.cons
  refine ⟨⟨h.state, ?_, h.returns, ?_⟩, hk⟩
  · rw [BodyState.rejoin, BodyState.rejoin, h.step]
    exact (Comparison.beside_join hways hkeeps).map fun name _ _ hr =>
      hrecords.bound st'.step name hr
  · show st.step + 1 = st'.step + 1
    rw [h.step]

/-- An expression has related types in both readings, and they stay alongside. -/
theorem typeOf (h : Alongside (C.rel w) Q st st')
    (hcalls : Answered C w Q calls inCall calls' inCall') {e : Expr}
    (hk : C.Passes (st.blendsOf calls inCall e ++ k) (st'.blendsOf calls' inCall' e ++ k')) :
    C.rel w (st.typeOf calls e).1 (st'.typeOf calls' e).1 ∧
      Alongside (C.rel w) Q (st.typeOf calls e).2 (st'.typeOf calls' e).2 ∧ C.Passes k k' := by
  have hfits : Comparison.Fits w Q (environment calls st.locals) inCall
      (environment calls' st'.locals) inCall' :=
    ⟨fun name _ _ _ hst => ⟨h.locals.get? name, hst⟩, fun name _ => hcalls name,
      fun _ _ _ _ _ _ _ hst => hst⟩
  obtain ⟨htype, hstate, hk⟩ := Comparison.follows_infer hfits e st.state st'.state k k' h.state hk
  exact ⟨htype, ⟨hstate, h.locals, h.returns, h.step⟩, hk⟩

/-- Both readings assign the value of an expression. -/
theorem assign (h : Alongside (C.rel w) Q st st') (hrecords : C.Records w routine routine')
    (hcalls : Answered C w Q calls inCall calls' inCall') (name : Text) {value : Expr}
    (hk : C.Passes (st.blendsOf calls inCall value ++ k)
      (st'.blendsOf calls' inCall' value ++ k')) :
    Alongside (C.rel w) Q (st.assign routine calls name value)
      (st'.assign routine' calls' name value) ∧ C.Passes k k' := by
  obtain ⟨htype, h, hk⟩ := h.typeOf hcalls hk
  exact ⟨h.bind hrecords name htype, hk⟩

/-- Both readings add the type of a value to those returned. -/
theorem ret (h : Alongside (C.rel w) Q st st') (hcalls : Answered C w Q calls inCall calls' inCall')
    {value : Expr}
    (hk : C.Passes (st.blendsOf calls inCall value ++ k)
      (st'.blendsOf calls' inCall' value ++ k')) :
    Alongside (C.rel w) Q
      { (st.typeOf calls value).2 with
        returns := (st.typeOf calls value).2.returns ++ [(st.typeOf calls value).1] }
      { (st'.typeOf calls' value).2 with
        returns := (st'.typeOf calls' value).2.returns ++ [(st'.typeOf calls' value).1] } ∧
      C.Passes k k' := by
  obtain ⟨htype, h, hk⟩ := h.typeOf hcalls hk
  exact ⟨⟨h.state, h.locals, List.rel_append h.returns (.cons htype .nil), h.step⟩, hk⟩

end Alongside

mutual

/-- Readings stay alongside through a statement. By recursion on the statement. -/
theorem alongside_statement (hrecords : C.Records w routine routine')
    (hcalls : Answered C w Q calls inCall calls' inCall') : (s : Stmt) →
    {st : BodyState ω σ} → {st' : BodyState ω τ} → {k k' : List (Blend ω)} →
    Alongside (C.rel w) Q st st' →
    C.Passes (statementBlends routine calls inCall s st ++ k)
      (statementBlends routine' calls' inCall' s st' ++ k') →
    Alongside (C.rel w) Q (statement routine calls s st) (statement routine' calls' s st') ∧
      C.Passes k k'
  | .declare name _ (some value) _, _, _, _, _, h, hk => h.assign hrecords hcalls name hk
  | .declare name _ none _, _, _, _, _, h, hk => ⟨h.bind hrecords name (C.rel_fresh w rfl), hk⟩
  | .assign target value _, _, _, _, _, h, hk => by
    cases target with
    | ident name l => exact h.assign hrecords hcalls name hk
    | _ => exact ⟨h, hk⟩
  | .ret (some value) _, _, _, _, _, h, hk => h.ret hcalls hk
  | .conditional _ body rest _, _, _, _, _, h, hk => by
    simp only [statementBlends, List.append_assoc] at hk
    obtain ⟨hbody, hk⟩ := alongside_block hrecords hcalls body h hk
    obtain ⟨hways, hafter, hk⟩ := alongside_alternative hrecords hcalls rest h.locals hbody hk
    exact hafter.rejoin hrecords (.cons hbody.locals hways) hk
  | .forTo _ _ _ body _, _, _, _, _, h, hk | .forEach _ _ body _, _, _, _, _, h, hk
  | .whileDo _ body _, _, _, _, _, h, hk => alongside_block hrecords hcalls body h hk
  | .attempt body handler _, _, _, _, _, h, hk => by
    simp only [statementBlends, List.append_assoc] at hk
    obtain ⟨hbody, hk⟩ := alongside_block hrecords hcalls body h hk
    exact alongside_handlerBlock hrecords hcalls handler hbody hk
  | .ret none _, _, _, _, _, h, hk | .routine .., _, _, _, _, h, hk | .call .., _, _, _, _, h, hk
  | .brk _, _, _, _, _, h, hk | .cont _, _, _, _, _, h, hk | .raise .., _, _, _, _, h, hk => ⟨h, hk⟩

/-- Both readings go over a block, by recursion along the statements. -/
theorem alongside_block (hrecords : C.Records w routine routine')
    (hcalls : Answered C w Q calls inCall calls' inCall') : (body : List Stmt) →
    {st : BodyState ω σ} → {st' : BodyState ω τ} → {k k' : List (Blend ω)} →
    Alongside (C.rel w) Q st st' →
    C.Passes (blockBlends routine calls inCall body st ++ k)
      (blockBlends routine' calls' inCall' body st' ++ k') →
    Alongside (C.rel w) Q (block routine calls body st) (block routine' calls' body st') ∧
      C.Passes k k'
  | [], _, _, _, _, h, hk => ⟨h, hk⟩
  | s :: rest, _, _, _, _, h, hk => by
    simp only [blockBlends, List.append_assoc] at hk
    obtain ⟨hs, hk⟩ := alongside_statement hrecords hcalls s h hk
    exact alongside_block hrecords hcalls rest hs hk

/-- Both readings go over the block of a handler, if there is one. -/
theorem alongside_handlerBlock (hrecords : C.Records w routine routine')
    (hcalls : Answered C w Q calls inCall calls' inCall') : (handler : Option (List Stmt)) →
    {st : BodyState ω σ} → {st' : BodyState ω τ} → {k k' : List (Blend ω)} →
    Alongside (C.rel w) Q st st' →
    C.Passes (handlerBlends routine calls inCall handler st ++ k)
      (handlerBlends routine' calls' inCall' handler st' ++ k') →
    Alongside (C.rel w) Q (handlerBlock routine calls handler st)
      (handlerBlock routine' calls' handler st') ∧ C.Passes k k'
  | none, _, _, _, _, h, hk => ⟨h, hk⟩
  | some body, _, _, _, _, h, hk => alongside_block hrecords hcalls body h hk

/-- Both readings go over the other ways of a conditional, from related variables. -/
theorem alongside_alternative (hrecords : C.Records w routine routine')
    (hcalls : Answered C w Q calls inCall calls' inCall') : (a : Alternative) →
    {start start' : Variables ω} → {st : BodyState ω σ} → {st' : BodyState ω τ} →
    {k k' : List (Blend ω)} →
    Table.Beside (C.rel w) start start' → Alongside (C.rel w) Q st st' →
    C.Passes (alternativeBlends routine calls inCall start a st ++ k)
      (alternativeBlends routine' calls' inCall' start' a st' ++ k') →
    List.Forall₂ (Table.Beside (C.rel w)) (alternative routine calls start a st).1
        (alternative routine' calls' start' a st').1 ∧
      Alongside (C.rel w) Q (alternative routine calls start a st).2
        (alternative routine' calls' start' a st').2 ∧
      C.Passes k k'
  | .none, _, _, _, _, _, _, hstart, h, hk => ⟨.cons hstart .nil, h, hk⟩
  | .otherwise body, _, _, _, _, _, _, hstart, h, hk => by
    obtain ⟨hbody, hk⟩ := alongside_block hrecords hcalls body (h.withLocals hstart) hk
    exact ⟨.cons hbody.locals .nil, hbody, hk⟩
  | .elsif _ body rest, _, _, _, _, _, _, hstart, h, hk => by
    simp only [alternativeBlends, List.append_assoc] at hk
    obtain ⟨hbody, hk⟩ := alongside_block hrecords hcalls body (h.withLocals hstart) hk
    obtain ⟨hways, hafter, hk⟩ := alongside_alternative hrecords hcalls rest hstart hbody hk
    exact ⟨.cons hbody.locals hways, hafter, hk⟩

end

end BodyState

/-! ## Routines -/

namespace CallGraph

variable (g : CallGraph ω)

/-- The blends of answering a call, which are those of the reading that it asks for. -/
def answerBlends (inRead : Text → Readings ω → List (Blend ω)) (name : Text)
    (_ : List (Resolution ω)) (r : Readings ω) : List (Blend ω) :=
  match g.declaredName? name with
  | some declared => if r.inProgress.contains declared then [] else inRead declared r
  | none => []

/-- Only the values that a function returns are turned into one type. -/
def returnBlends (routine : Routine ω) (returns : List (Resolution ω)) : List (Blend ω) :=
  match routine.kind with
  | .function => [.returned returns]
  | .procedure => []

/-- The blends of reading a routine, unless that was done before. -/
def readBlendsWith (context : Context ω)
    (deeper : Text → StateM (Readings ω) (Option (Signature ω)))
    (inDeeper : Text → Readings ω → List (Blend ω)) (name : Text) (r : Readings ω) :
    List (Blend ω) :=
  match r.analyzed.get? name, g.routine? name with
  | none, some routine =>
    BodyState.blockBlends name (answer Readings.notebook g context deeper)
      (g.answerBlends inDeeper) routine.body
        ⟨r.start name, context.vars.insertAll (routine.params.map fun p => (p.name, p.type)),
          [], 0⟩ ++
      returnBlends routine (walk Readings.notebook g context deeper name routine r).returns
  | _, _ => []

/-- The blends of reading a routine and what it calls. -/
def readBlends (context : Context ω) : Nat → Text → Readings ω → List (Blend ω)
  | 0, _, _ => []
  | n + 1, name, r =>
    g.readBlendsWith context (read Readings.notebook g context n) (readBlends context n) name r

/-- The blends of reading routines one after the other. -/
def analyzeBlends (context : Context ω) : List Text → Readings ω → List (Blend ω)
  | [], _ => []
  | name :: names, r =>
    g.readBlends context (g.routines.size + 1) name r ++
      analyzeBlends context names (g.analyze context name r).2

variable {g} {C : Comparison ω} {w : C.World} {busy : List Text} {context context' : Context ω}
  {k k' : List (Blend ω)} {read read' : Text → StateM (Readings ω) (Option (Signature ω))}
  {inRead inRead' : Text → Readings ω → List (Blend ω)}

/-- A routine that is not being read already is read alongside. -/
def ReadAlongside (C : Comparison ω) (w : C.World) (busy : List Text)
    (read : Text → StateM (Readings ω) (Option (Signature ω)))
    (inRead : Text → Readings ω → List (Blend ω))
    (read' : Text → StateM (Readings ω) (Option (Signature ω)))
    (inRead' : Text → Readings ω → List (Blend ω)) : Prop :=
  ∀ name, name ∉ busy → C.Records w name name →
    C.Follows (Readings.BesideWhile (C.rel w) busy) (Option.Rel (Signature.Beside (C.rel w)))
      (read name) (inRead name) (read' name) (inRead' name)

/-- Related types that are returned give related results. -/
theorem rel_returnType (routine : Routine ω) {returns returns' : List (Resolution ω)}
    (h : List.Forall₂ (C.rel w) returns returns')
    (hk : C.Passes (returnBlends routine returns ++ k) (returnBlends routine returns' ++ k')) :
    C.rel w (returnType routine returns) (returnType routine returns') ∧ C.Passes k k' := by
  unfold returnBlends at hk
  unfold returnType
  cases hkind : routine.kind with
  | procedure =>
    rw [hkind] at hk
    exact ⟨C.rel_fresh w rfl, hk⟩
  | function =>
    rw [hkind] at hk
    obtain ⟨hkeeps, hk⟩ := Comparison.Passes.cons hk
    refine ⟨?_, hk⟩
    cases h with
    | nil => exact C.rel_fresh w rfl
    | cons hr hrest => exact C.rel_returned (.cons hr hrest) hkeeps

section

variable (hvars : Table.Beside (C.rel w) context.vars context'.vars)
  (hfunctions : Table.Beside (Signature.Beside (C.rel w)) context.functions context'.functions)
  (hparams : ∀ name routine, g.routine? name = some routine →
    ∀ p ∈ routine.params, C.rel w p.type p.type)
  (hrecords : ∀ name d, g.declaredName? name = some d → d ∉ busy → C.Records w d d)

include hfunctions hrecords in
/-- Calls are answered alike where the routines they name are read alongside. -/
theorem answered_answer (hread : ReadAlongside C w busy read inRead read' inRead') :
    BodyState.Answered C w (Readings.BesideWhile (C.rel w) busy)
      (answer Readings.notebook g context read) (g.answerBlends inRead)
        (answer Readings.notebook g context' read') (g.answerBlends inRead') := by
  intro name args args' hargs r r' k k' hr hk
  have hprogress := hr.1.inProgress
  unfold answerBlends at hk
  cases hd : g.declaredName? name with
  | none =>
    rw [hd] at hk
    rw [answer_of_undeclared Readings.notebook read args hd,
      answer_of_undeclared Readings.notebook read' args' hd]
    exact ⟨Comparison.rel_callResult hfunctions name hargs, hr, hk⟩
  | some d =>
    rw [hd] at hk
    dsimp only at hk
    rw [← hprogress] at hk
    -- A routine that is being read is one that the other reading is at as well.
    by_cases hin : d ∈ r.inProgress
    · have hin' : d ∈ r'.inProgress := hprogress ▸ hin
      rw [if_pos (List.contains_iff_mem.2 hin), if_pos (List.contains_iff_mem.2 hin)] at hk
      rw [answer_of_mem Readings.notebook read args hd hin,
        answer_of_mem Readings.notebook read' args' hd hin']
      exact ⟨C.rel_fresh w rfl, hr, hk⟩
    · have hnot : d ∉ r'.inProgress := hprogress ▸ hin
      have hcontains : ¬ r.inProgress.contains d = true := fun h => hin (List.contains_iff_mem.1 h)
      have hidle : d ∉ busy := fun h => hin (hr.2 h)
      rw [if_neg hcontains, if_neg hcontains] at hk
      rw [answer_of_not_mem Readings.notebook read args hd hin,
        answer_of_not_mem Readings.notebook read' args' hd hnot]
      obtain ⟨hfound, hr, hk⟩ := hread d hidle (hrecords name d hd hidle) r r' k k' hr hk
      refine ⟨?_, hr, hk⟩
      dsimp only
      generalize (read d r).1 = found, (read' d r').1 = found' at hfound
      cases hfound with
      | some hs => exact hs.returns
      | none => exact C.rel_fresh w rfl

include hvars hfunctions hparams hrecords

/-- If reading one level deeper goes alongside, so does reading here. -/
theorem readAlongside_readWith (hread : ReadAlongside C w busy read inRead read' inRead') :
    ReadAlongside C w busy (readWith Readings.notebook g context read)
      (g.readBlendsWith context read inRead) (readWith Readings.notebook g context' read')
        (g.readBlendsWith context' read' inRead') := by
  intro name hidle hname r r' k k' hr hk
  cases hget? : r.analyzed.get? name with
  | some s =>
    obtain ⟨s', hs', hss'⟩ := hr.1.analyzed.exists_of_get? hget?
    rw [readWith_of_analyzed Readings.notebook g context read hget?,
      readWith_of_analyzed Readings.notebook g context' read' hs']
    unfold readBlendsWith at hk
    rw [hget?, hs'] at hk
    exact ⟨.some hss', hr, hk⟩
  | none =>
    have hget?' : r'.analyzed.get? name = none := by
      rw [Table.get?_eq_none_iff, ← hr.1.analyzed.keys_eq, ← Table.get?_eq_none_iff]
      exact hget?
    unfold readBlendsWith at hk
    rw [hget?, hget?'] at hk
    cases hroutine : g.routine? name with
    | none =>
      rw [readWith_of_undeclared Readings.notebook g context read hget? hroutine,
        readWith_of_undeclared Readings.notebook g context' read' hget?' hroutine]
      rw [hroutine] at hk
      exact ⟨.none, hr, hk⟩
    | some routine =>
      rw [hroutine] at hk
      simp only [List.append_assoc] at hk
      rw [readWith_of_new Readings.notebook g context read hget? hroutine,
        readWith_of_new Readings.notebook g context' read' hget?' hroutine]
      have hstart : Readings.BesideWhile (C.rel w) busy (r.start name) (r'.start name) :=
        ⟨⟨hr.1.analyzed, congrArg (List.cons name) hr.1.inProgress⟩,
          List.Subset.trans hr.2 (List.subset_cons_self _ _)⟩
      -- The body is read alongside, and its returned values are blended last.
      obtain ⟨hwalk, hk⟩ := BodyState.alongside_block hname
        (answered_answer hfunctions hrecords hread) routine.body
        (BodyState.alongside_start hstart hvars (hparams name routine hroutine)) hk
      obtain ⟨hreturn, hk⟩ := rel_returnType routine hwalk.returns hk
      have hsignature : Signature.Beside (C.rel w)
          (signatureOf name routine (walk Readings.notebook g context read name routine r).returns)
          (signatureOf name routine
            (walk Readings.notebook g context' read' name routine r').returns) :=
        ⟨forall₂_signatureParams (hparams name routine hroutine), hname.result hreturn⟩
      refine ⟨.some hsignature, ⟨⟨hwalk.state.1.analyzed.insert name hsignature, ?_⟩, ?_⟩, hk⟩
      · exact congrArg (List.filter fun m => m != name) hwalk.state.1.inProgress
      · intro b hb
        have hne : b ≠ name := fun h => hidle (h ▸ hb)
        exact List.mem_filter.2 ⟨hwalk.state.2 hb, bne_iff_ne.2 hne⟩

/-- Reading goes alongside at every depth, by induction on the depth. -/
theorem readAlongside_read (n : Nat) :
    ReadAlongside C w busy (CallGraph.read Readings.notebook g context n) (g.readBlends context n)
      (CallGraph.read Readings.notebook g context' n) (g.readBlends context' n) := by
  induction n with
  | zero => exact fun _ _ _ _ _ _ _ hr hk => ⟨.none, hr, hk⟩
  | succ n ih => exact readAlongside_readWith hvars hfunctions hparams hrecords ih

end

/-! ## Dimmed signatures -/

section

variable {hone : ((Weight.ofNat 1 : ω) == Weight.ofNat 1) = true}
  (hvars : Table.Beside Resolution.Dimmed context.vars context'.vars)
  (hfunctions : Table.Beside (Signature.Beside Resolution.Dimmed) context.functions
    context'.functions)

/-- A dimmed resolution is recorded under the name of its routine as the other one is. -/
theorem records_dimming (name : Text) : (Comparison.dimming hone).Records () name name :=
  ⟨fun _ _ hr => Resolution.Dimmed.recordAt hr _, fun hr => Resolution.Dimmed.recordAt hr _⟩

include hvars hfunctions

/-- All routines are read alongside. -/
theorem alongside_analyzeAll {r r' : Readings ω} (hr : r.Alongside r')
    (hk : (Comparison.dimming hone).Passes
      (g.analyzeBlends context (g.calleesFirst?.getD g.routines.keys) r ++ k)
      (g.analyzeBlends context' (g.calleesFirst?.getD g.routines.keys) r' ++ k')) :
    (g.analyzeAll context r).Alongside (g.analyzeAll context' r') ∧
      (Comparison.dimming hone).Passes k k' := by
  unfold analyzeAll readAll
  generalize g.calleesFirst?.getD g.routines.keys = names at hk
  induction names generalizing r r' with
  | nil => exact ⟨hr, hk⟩
  | cons name names ih =>
    simp only [analyzeBlends, List.append_assoc] at hk
    have hread : ReadAlongside (.dimming hone) () [] (g.analyze context)
      (g.readBlends context (g.routines.size + 1))
        (g.analyze context') (g.readBlends context' (g.routines.size + 1)) :=
      readAlongside_read hvars hfunctions (fun _ _ _ _ _ => Resolution.Dimmed.refl _)
        (fun _ d _ _ => records_dimming d) _
    obtain ⟨-, hnext, hk⟩ := hread name List.not_mem_nil
      (records_dimming name) r r' _ _ ⟨hr, List.nil_subset _⟩ hk
    exact ih hnext.1 hk

end

end CallGraph

end Gradual
