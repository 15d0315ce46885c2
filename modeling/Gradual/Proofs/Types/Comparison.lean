import Gradual.Proofs.Beside
import Gradual.Types.Narrowing

/-!
# Two typings of one expression

The same code is typed twice, and what is known in one run is related to what is known in the other.
Most operations on types carry any reasonable relation along. Those that turn several resolutions
into one need not, so they are listed as blends, in the order in which the expression comes across
them, and a relation may ask something of each pair of them.

Main statement: `Comparison.follows_infer`.
-/

namespace Gradual

variable {ω σ τ α β : Type}

/-! ## Blends -/

/-- Resolutions that are turned into one: the operands of an operation, the branches of a choice,
the variables at the ends of ways that meet, and the values that a function returns. -/
inductive Blend (ω : Type) where
  | operation (op : BinaryOp) (left right : Resolution ω)
  | choice (whenTrue whenFalse : Resolution ω)
  | ways (paths : List (Variables ω))
  | returned (types : List (Resolution ω))

namespace Environment

variable [Weight ω]

mutual

/-- The blends that typing an expression from a state comes across. Those inside of calls are
given. -/
def blends (env : Environment ω σ) (inCall : Text → List (Resolution ω) → σ → List (Blend ω)) :
    Expr → σ → List (Blend ω)
  | .number .., _ | .string .., _ | .boolean .., _ | .date .., _ | .undefined _, _ | .null _, _
  | .ident .., _ => []
  | .binary op left right _, s =>
    blends env inCall left s ++ (blends env inCall right (env.infer left s).2 ++
      [.operation op (env.infer left s).1 (env.infer right (env.infer left s).2).1])
  | .unary _ operand _, s => blends env inCall operand s
  | .call callee args _, s =>
    blendsAll env inCall args s ++
      match callee with
      | .ident name _ => inCall name (env.inferAll args s).1 (env.inferAll args s).2
      | other => blends env inCall other (env.inferAll args s).2
  | .member object _ _, s => blends env inCall object s
  | .index object key _, s =>
    blends env inCall object s ++ blends env inCall key (env.infer object s).2
  | .new _ args _, s => blendsAll env inCall args s
  | .choice condition whenTrue whenFalse _, s =>
    blends env inCall condition s ++ (blends env inCall whenTrue (env.infer condition s).2 ++
      (blends env inCall whenFalse (env.infer whenTrue (env.infer condition s).2).2 ++
        [.choice (env.infer whenTrue (env.infer condition s).2).1
          (env.infer whenFalse (env.infer whenTrue (env.infer condition s).2).2).1]))
  | .array elements _, s => blendsAll env inCall elements s
  | .record fields _, s => blendsFields env inCall fields s

/-- The blends of expressions, from left to right. -/
def blendsAll (env : Environment ω σ) (inCall : Text → List (Resolution ω) → σ → List (Blend ω)) :
    List Expr → σ → List (Blend ω)
  | [], _ => []
  | e :: es, s => blends env inCall e s ++ blendsAll env inCall es (env.infer e s).2

/-- The blends of the values of fields, from left to right. -/
def blendsFields (env : Environment ω σ)
    (inCall : Text → List (Resolution ω) → σ → List (Blend ω)) :
    List (Text × Expr) → σ → List (Blend ω)
  | [], _ => []
  | (_, e) :: rest, s => blends env inCall e s ++ blendsFields env inCall rest (env.infer e s).2

end

end Environment

/-! ## Comparisons -/

theorem Param.origin_type (p : Param) : (p.type : Resolution ω).origin = .fresh := by
  unfold Param.type
  split <;> rfl

/-- Parameters and results are related. -/
structure Signature.Beside (R : Resolution ω → Resolution ω → Prop)
    (s s' : Signature ω) : Prop where
  params : List.Forall₂ (fun p p' => R p.type p'.type) s.params s'.params
  returns : R s.returns s'.returns

/-- A way to compare two runs: a relation of resolutions, which may depend on what is known of the
states that the runs have made, and the pairs of blends that keep it. -/
structure Comparison (ω : Type) [Weight ω] where
  /-- What is known of the states of both runs. -/
  World : Type
  /-- More is known. -/
  le : World → World → Prop
  /-- So many states have been made. -/
  reached : World → Nat → Nat → Prop
  rel : World → Resolution ω → Resolution ω → Prop
  keeps : Blend ω → Blend ω → Prop
  le_refl (w : World) : le w w
  le_trans {u v w : World} : le u v → le v w → le u w
  rel_mono {w w' : World} {r s : Resolution ω} : le w w' → rel w r s → rel w' r s
  rel_fresh (w : World) {r : Resolution ω} : r.origin = .fresh → rel w r r
  /-- Both runs make a state. -/
  rel_enter {w : World} {m n : Nat} : reached w m n → ∃ w', le w w' ∧ reached w' (m + 1) (n + 1) ∧
    ∀ r s name, rel w r s → rel w' (r.recordAt (.held m name)) (s.recordAt (.held n name))
  rel_ofBinary {w : World} {op : BinaryOp} {l l' r r' : Resolution ω} : rel w l l' → rel w r r' →
    keeps (.operation op l r) (.operation op l' r') → rel w (.ofBinary op l r) (.ofBinary op l' r')
  rel_ofUnary {w : World} {op : UnaryOp} {r r' : Resolution ω} : rel w r r' →
    rel w (.ofUnary op r) (.ofUnary op r')
  rel_choose {w : World} {a a' b b' : Resolution ω} : rel w a a' → rel w b b' →
    keeps (.choice a b) (.choice a' b') → rel w (.choose a b) (.choose a' b')
  rel_resultOf {w : World} {f : GlobalFunction ω} {a a' : Resolution ω}
    {as as' : List (Resolution ω)} :
    f.polymorphic = true → rel w a a' → rel w (f.resultOf (a :: as)) (f.resultOf (a' :: as'))
  rel_join {w : World} {paths paths' : List (Variables ω)} :
    List.Forall₂ (Table.Beside (rel w)) paths paths' →
    keeps (.ways paths) (.ways paths') →
      ∀ name, rel w (.join (paths.filterMap fun vs => vs.get? name))
      (.join (paths'.filterMap fun vs => vs.get? name))
  rel_returned {w : World} {types types' : List (Resolution ω)} :
    List.Forall₂ (rel w) types types' →
    keeps (.returned types) (.returned types') → rel w (.join types) (.join types')

namespace Comparison

/-- The names of several ways depend on their keys alone. -/
theorem names_eq {R : Resolution ω → Resolution ω → Prop} {paths paths' : List (Variables ω)}
    (h : List.Forall₂ (Table.Beside R) paths paths') :
    Variables.names paths = Variables.names paths' := by
  unfold Variables.names
  generalize (Table.empty : Table Text Unit) = t
  induction h generalizing t with
  | nil => rfl
  | cons hvs _ ih =>
    rw [List.foldl_cons, List.foldl_cons, hvs.keys_eq]
    exact ih _

variable [Weight ω] (C : Comparison ω)

/-- Blends at the same place keep the relation. -/
def Passes (k k' : List (Blend ω)) : Prop := ∀ e ∈ k.zip k', C.keeps e.1 e.2

variable {C}

theorem Passes.cons {b b' : Blend ω} {k k' : List (Blend ω)} (h : C.Passes (b :: k) (b' :: k')) :
    C.keeps b b' ∧ C.Passes k k' :=
  ⟨h (b, b') List.mem_cons_self, fun e he => h e (List.mem_cons_of_mem _ he)⟩

variable (C) in
/-- From related states, two computations give related values and related states, if their blends
pass; then the blends that come behind pass too. -/
def Follows (Q : σ → τ → Prop) (R : α → β → Prop) (m : StateM σ α) (bs : σ → List (Blend ω))
    (m' : StateM τ β) (bs' : τ → List (Blend ω)) : Prop :=
  ∀ s t k k', Q s t → C.Passes (bs s ++ k) (bs' t ++ k') →
    R (m s).1 (m' t).1 ∧ Q (m s).2 (m' t).2 ∧ C.Passes k k'

/-! ## Results of calls -/

section

variable {w : C.World}

/-- A global function gives related types for related arguments. -/
theorem rel_resultOf_global {name : Text} {f : GlobalFunction ω}
    (hf : GlobalFunction.find? name = some f) {args args' : List (Resolution ω)}
    (hargs : List.Forall₂ (C.rel w) args args') :
    C.rel w (f.resultOf args) (f.resultOf args') := by
  have hmem : f ∈ GlobalFunction.all := List.mem_of_find?_eq_some hf
  -- What the table declares is made anew for each call.
  have hfresh : (f.returns.getD .unknown).origin = .fresh := by
    simp only [GlobalFunction.all, List.mem_cons, List.not_mem_nil, or_false] at hmem
    rcases hmem with rfl | rfl | rfl | rfl | rfl | rfl | rfl | rfl | rfl | rfl | rfl | rfl <;> rfl
  cases hpoly : f.polymorphic with
  | false =>
    rw [GlobalFunction.resultOf, GlobalFunction.resultOf, hpoly]
    exact C.rel_fresh w hfresh
  | true =>
    cases hargs with
    | nil => exact C.rel_fresh w (by rw [GlobalFunction.resultOf, hpoly]; rfl)
    | cons ha _ => exact C.rel_resultOf hpoly ha

/-- A call gives related types where the signatures and the arguments are related. -/
theorem rel_callResult {functions functions' : Signatures ω}
    (h : Table.Beside (Signature.Beside (C.rel w)) functions functions') (name : Text)
    {args args' : List (Resolution ω)} (hargs : List.Forall₂ (C.rel w) args args') :
    C.rel w (callResult functions name args) (callResult functions' name args') := by
  have hword := h.findWord? name
  unfold callResult knownCall?
  generalize functions.findWord? name = found, functions'.findWord? name = found' at hword
  cases hword with
  | some hs => exact hs.returns
  | none =>
    dsimp only
    cases hf : GlobalFunction.find? (ω := ω) name with
    | none => exact C.rel_fresh w rfl
    | some f => exact rel_resultOf_global hf hargs

/-! ## Expressions -/

/-- Related look-ups, calls and operators. -/
structure Fits (w : C.World) (Q : σ → τ → Prop) (env : Environment ω σ)
    (inCall : Text → List (Resolution ω) → σ → List (Blend ω)) (env' : Environment ω τ)
    (inCall' : Text → List (Resolution ω) → τ → List (Blend ω)) : Prop where
  lookup : ∀ name loc s t, Q s t →
    Option.Rel (C.rel w) (env.lookup name loc s).1 (env'.lookup name loc t).1 ∧
    Q (env.lookup name loc s).2 (env'.lookup name loc t).2
  call : ∀ name loc args args', List.Forall₂ (C.rel w) args args' →
    C.Follows Q (C.rel w) (env.call name args loc) (inCall name args) (env'.call name args' loc)
      (inCall' name args')
  operator : ∀ operation loc operands operands', List.Forall₂ (C.rel w) operands operands' →
    ∀ s t, Q s t →
    Q (env.operator operation operands loc s).2 (env'.operator operation operands' loc t).2

variable {Q : σ → τ → Prop} {env : Environment ω σ} {env' : Environment ω τ}
  {inCall : Text → List (Resolution ω) → σ → List (Blend ω)}
  {inCall' : Text → List (Resolution ω) → τ → List (Blend ω)}

mutual

/-- The types of an expression are related if its blends pass. By recursion on the expression; each
form takes its own blends off the front of the list. -/
theorem follows_infer (h : Fits w Q env inCall env' inCall') : (e : Expr) →
    C.Follows Q (C.rel w) (env.infer e) (env.blends inCall e) (env'.infer e) (env'.blends inCall' e)
  | .number .., _, _, _, _, hst, hk | .string .., _, _, _, _, hst, hk
  | .boolean .., _, _, _, _, hst, hk
  | .date .., _, _, _, _, hst, hk | .undefined _, _, _, _, _, hst, hk
  | .null _, _, _, _, _, hst, hk =>
    ⟨C.rel_fresh w rfl, hst, hk⟩
  | .ident name loc, s, t, k, k', hst, hk => by
    obtain ⟨hfound, hst⟩ := h.lookup name loc s t hst
    refine ⟨?_, hst, hk⟩
    show C.rel w ((env.lookup name loc s).1.getD _) ((env'.lookup name loc t).1.getD _)
    generalize (env.lookup name loc s).1 = found, (env'.lookup name loc t).1 = found' at hfound
    cases hfound with
    | some hr => exact hr
    | none => exact C.rel_fresh w rfl
  | .binary op left right loc, s, t, k, k', hst, hk => by
    simp only [Environment.blends, List.append_assoc] at hk
    obtain ⟨hl, hst, hk⟩ := follows_infer h left s t _ _ hst hk
    obtain ⟨hr, hst, hk⟩ := follows_infer h right _ _ _ _ hst hk
    obtain ⟨hkeeps, hk⟩ := hk.cons
    exact ⟨C.rel_ofBinary hl hr hkeeps, h.operator _ loc _ _ (.cons hl (.cons hr .nil)) _ _ hst, hk⟩
  | .unary op operand loc, s, t, k, k', hst, hk => by
    obtain ⟨hr, hst, hk⟩ := follows_infer h operand s t _ _ hst hk
    exact ⟨C.rel_ofUnary hr, h.operator _ loc _ _ (.cons hr .nil) _ _ hst, hk⟩
  | .call callee args loc, s, t, k, k', hst, hk => by
    rw [Environment.blends.eq_def, Environment.blends.eq_def] at hk
    simp only [List.append_assoc] at hk
    obtain ⟨hargs, hst, hk⟩ := follows_inferAll h args s t _ _ hst hk
    rw [Environment.infer.eq_def, Environment.infer.eq_def]
    -- The recursion must not go through the split, where the callee is no longer seen to be a part.
    have hinner := follows_infer h callee
    cases callee with
    | ident name l => exact h.call name loc _ _ hargs _ _ k k' hst hk
    | _ =>
      obtain ⟨-, hst, hk⟩ := hinner _ _ _ _ hst hk
      exact ⟨C.rel_fresh w rfl, hst, hk⟩
  | .member object _ _, s, t, k, k', hst, hk => by
    obtain ⟨-, hst, hk⟩ := follows_infer h object s t _ _ hst hk
    exact ⟨C.rel_fresh w rfl, hst, hk⟩
  | .index object key _, s, t, k, k', hst, hk => by
    simp only [Environment.blends, List.append_assoc] at hk
    obtain ⟨-, hst, hk⟩ := follows_infer h object s t _ _ hst hk
    obtain ⟨-, hst, hk⟩ := follows_infer h key _ _ _ _ hst hk
    exact ⟨C.rel_fresh w rfl, hst, hk⟩
  | .new typeName args _, s, t, k, k', hst, hk => by
    obtain ⟨-, hst, hk⟩ := follows_inferAll h args s t _ _ hst hk
    have hfresh : (constructedType typeName : Resolution ω).origin = .fresh := by
      unfold constructedType
      split <;> rfl
    exact ⟨C.rel_fresh w hfresh, hst, hk⟩
  | .choice c a b _, s, t, k, k', hst, hk => by
    simp only [Environment.blends, List.append_assoc] at hk
    obtain ⟨-, hst, hk⟩ := follows_infer h c s t _ _ hst hk
    obtain ⟨ha, hst, hk⟩ := follows_infer h a _ _ _ _ hst hk
    obtain ⟨hb, hst, hk⟩ := follows_infer h b _ _ _ _ hst hk
    obtain ⟨hkeeps, hk⟩ := hk.cons
    exact ⟨C.rel_choose ha hb hkeeps, hst, hk⟩
  | .array elements _, s, t, k, k', hst, hk => by
    obtain ⟨-, hst, hk⟩ := follows_inferAll h elements s t _ _ hst hk
    exact ⟨C.rel_fresh w rfl, hst, hk⟩
  | .record fields _, s, t, k, k', hst, hk => by
    obtain ⟨-, hst, hk⟩ := follows_inferFields h fields s t _ _ hst hk
    exact ⟨C.rel_fresh w rfl, hst, hk⟩

/-- Types of expressions in a list are related, by recursion on the list. -/
theorem follows_inferAll (h : Fits w Q env inCall env' inCall') : (es : List Expr) →
    C.Follows Q (List.Forall₂ (C.rel w)) (env.inferAll es) (env.blendsAll inCall es)
      (env'.inferAll es) (env'.blendsAll inCall' es)
  | [], _, _, _, _, hst, hk => ⟨.nil, hst, hk⟩
  | e :: es, s, t, k, k', hst, hk => by
    simp only [Environment.blendsAll, List.append_assoc] at hk
    obtain ⟨he, hst, hk⟩ := follows_infer h e s t _ _ hst hk
    obtain ⟨hes, hst, hk⟩ := follows_inferAll h es _ _ _ _ hst hk
    exact ⟨.cons he hes, hst, hk⟩

theorem follows_inferFields (h : Fits w Q env inCall env' inCall') : (fields : List (Text × Expr)) →
    C.Follows Q (fun _ _ => True) (env.inferFields fields) (env.blendsFields inCall fields)
      (env'.inferFields fields) (env'.blendsFields inCall' fields)
  | [], _, _, _, _, hst, hk => ⟨trivial, hst, hk⟩
  | (_, e) :: rest, s, t, k, k', hst, hk => by
    simp only [Environment.blendsFields, List.append_assoc] at hk
    obtain ⟨-, hst, hk⟩ := follows_infer h e s t _ _ hst hk
    exact follows_inferFields h rest _ _ k k' hst hk

end

end

/-! ## Variables -/

section

variable {w : C.World} {vs vs' : Variables ω}

/-- The types before a condition are related. -/
theorem rel_prior (h : Table.Beside (C.rel w) vs vs') (name : Text) :
    C.rel w (Narrowing.prior vs name) (Narrowing.prior vs' name) := by
  have hget := h.get? name
  unfold Narrowing.prior
  generalize vs.get? name = found, vs'.get? name = found' at hget
  cases hget with
  | some hr => exact hr
  | none => exact C.rel_fresh w rfl

/-- The types that a fact gives are related. -/
theorem rel_typeUnder (h : Table.Beside (C.rel w) vs vs') (name : Text) (fact : Fact) :
    C.rel w (Narrowing.typeUnder vs name fact) (Narrowing.typeUnder vs' name fact) := by
  cases fact with
  | hasType typeName =>
    rw [Narrowing.typeUnder, Narrowing.typeUnder]
    cases Narrowing.namedType? typeName with
    | some t => exact C.rel_fresh w rfl
    | none => exact rel_prior h name
  | lacksType _ => exact rel_prior h name
  | isDefined => exact rel_prior h name
  | isNotNull => exact rel_prior h name
  | isUndefined => exact C.rel_fresh w rfl
  | isNull => exact C.rel_fresh w rfl
  | isTruthy => exact C.rel_fresh w rfl
  | isFalsy => exact C.rel_fresh w rfl

/-- The variables where a condition holds. -/
theorem beside_apply_refinements (h : Table.Beside (C.rel w) vs vs') (c : Expr) :
    Table.Beside (C.rel w) (Narrowing.apply vs (Narrowing.refinements vs c))
      (Narrowing.apply vs' (Narrowing.refinements vs' c)) := by
  unfold Narrowing.apply Narrowing.refinements
  cases Narrowing.ofCondition c with
  | none => exact h
  | some r => exact h.insert r.1 (rel_typeUnder h r.1 r.2)

/-- The variables where a condition fails. -/
theorem beside_apply_invert (h : Table.Beside (C.rel w) vs vs') (c : Expr) :
    Table.Beside (C.rel w) (Narrowing.apply vs (Narrowing.invert vs (Narrowing.refinements vs c)))
      (Narrowing.apply vs' (Narrowing.invert vs' (Narrowing.refinements vs' c))) := by
  unfold Narrowing.apply Narrowing.invert Narrowing.refinements
  cases Narrowing.ofCondition c with
  | none => exact h
  | some r => exact h.insert r.1 (rel_typeUnder h r.1 r.2.complement)

/-- The variables behind several ways, if the ways pass. -/
theorem beside_join {paths paths' : List (Variables ω)}
    (h : List.Forall₂ (Table.Beside (C.rel w)) paths paths')
    (hkeeps : C.keeps (.ways paths) (.ways paths')) :
    Table.Beside (C.rel w) (Variables.join paths) (Variables.join paths') := by
  unfold Variables.join
  rw [names_eq h]
  refine .ofList (List.forall₂_map_left_iff.2
    (List.forall₂_map_right_iff.2 (List.forall₂_same.2 ?_)))
  intro name _
  exact ⟨rfl, C.rel_join h hkeeps name⟩

end

end Comparison

end Gradual
