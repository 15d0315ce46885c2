import Gradual.Proofs.Calls.Declared
import Gradual.Proofs.Types.Members
import Gradual.Types.Narrowing

/-!
# Where types come from

No operation on types makes up a type. A resolution is grounded in given types if its shape is of
one of three plain forms, where a union has few members and all of them different, and if each of
its types is built in or given. Literals, operators, constructors, global functions and conditions
bring built-in types only; joins and unions bring the types of what is joined, at most five of them.
So an expression whose variables and functions are grounded is grounded too.

Main statement: `Environment.yields_infer`.
-/

namespace Gradual

variable {ω σ α β : Type}

/-! ## Types of a shape -/

/-- The platform types that every module can construct. -/
def builtinPlatforms : List Text := ["Массив", "Соответствие", "Структура", "ТаблицаЗначений"]

/-- A type that needs no declaration. A platform type among these has neither methods nor
properties. -/
inductive Concrete.Builtin : Concrete ω → Prop
  | primitive (p : Primitive) : Builtin (.primitive p)
  | special (s : Special) : Builtin (.special s)
  | platform {name : Text} : name ∈ builtinPlatforms → Builtin (.platform name [] [])

namespace Shape

/-- The types that occur in a shape. -/
def types : Shape ω → List (Concrete ω)
  | concrete t => [t]
  | union members => Members.types members
  | conditional _ a b => a.types ++ b.types
  | contextual base _ _ => base.types
  | dynamic => []

/-- A shape that says nothing, names one type, or lists two to five different ones. -/
def Bounded : Shape ω → Prop
  | dynamic | concrete _ => True
  | union members => 2 ≤ members.length ∧ members.length ≤ 5 ∧ Members.Distinct members
  | conditional .. | contextual .. => False

end Shape

/-- A resolution of a bounded shape whose types are built in or given. -/
structure Resolution.Grounded (given : List (Concrete ω)) (r : Resolution ω) : Prop where
  bounded : r.shape.Bounded
  types : ∀ t ∈ r.shape.types, t.Builtin ∨ t ∈ given

namespace Resolution

variable {given : List (Concrete ω)}

/-! ## Single resolutions -/

/-- Only the shape matters. -/
theorem Grounded.of_shape_eq {r r' : Resolution ω} (h : r.Grounded given)
    (hshape : r'.shape = r.shape) : r'.Grounded given := by
  constructor
  · rw [hshape]
    exact h.bounded
  · rw [hshape]
    exact h.types

/-- Where a type was found does not matter to what it is grounded in. -/
theorem Grounded.recordAt {r : Resolution ω} (h : r.Grounded given) (origin : Origin) :
    (r.recordAt origin).Grounded given := by
  refine h.of_shape_eq ?_
  unfold Resolution.recordAt
  split
  · rfl
  · rfl

/-- The dynamic type is grounded in anything. -/
theorem grounded_of_dynamic {r : Resolution ω} (h : r.shape = .dynamic) : r.Grounded given := by
  constructor
  · rw [h]
    trivial
  · rw [h]
    intro t ht
    cases ht

/-- A concrete type is grounded when it is built in or given. -/
theorem grounded_of_concrete {r : Resolution ω} {t : Concrete ω} (h : r.shape = .concrete t)
    (ht : t.Builtin ∨ t ∈ given) : r.Grounded given := by
  constructor
  · rw [h]
    trivial
  · rw [h]
    intro t' ht'
    rw [List.mem_singleton.1 ht']
    exact ht

theorem grounded_known {t : Concrete ω} (h : t.Builtin) : (known t).Grounded given :=
  grounded_of_concrete rfl (.inl h)

/-- A primitive type is built in. -/
theorem grounded_primitive (p : Primitive) : (primitive p : Resolution ω).Grounded given :=
  grounded_known (.primitive p)

/-- A special type is built in. -/
theorem grounded_special (s : Special) : (special s : Resolution ω).Grounded given :=
  grounded_known (.special s)

/-- An unknown type is dynamic, so grounded. -/
theorem grounded_unknownBecause (note : Text) :
    (unknownBecause note : Resolution ω).Grounded given :=
  grounded_of_dynamic rfl

/-- A resolution that was found, or else a grounded one. -/
theorem grounded_getD {found : Option (Resolution ω)} {r : Resolution ω}
    (h : ∀ s ∈ found, s.Grounded given) (hr : r.Grounded given) :
    (found.getD r).Grounded given := by
  cases found with
  | none => exact hr
  | some s => exact h s rfl

/-! ## Operators -/

/-- The type of a binary operation is built in, whatever its operands are. -/
theorem grounded_ofBinary (op : BinaryOp) (left right : Resolution ω) :
    (ofBinary op left right).Grounded given := by
  unfold ofBinary
  split
  · exact grounded_primitive _
  · split
    · split
      · exact grounded_primitive _
      · split
        · exact grounded_primitive _
        · exact grounded_of_dynamic rfl
    · exact grounded_primitive _

/-- The type of a unary operation is built in, whatever its operand is. -/
theorem grounded_ofUnary (op : UnaryOp) (operand : Resolution ω) :
    (ofUnary op operand).Grounded given := by
  unfold ofUnary
  split
  · exact grounded_primitive _
  · split
    · exact grounded_primitive _
    · exact grounded_of_dynamic rfl

/-! ## Unions and joins -/

variable [Weight ω]

/-- A contribution to a union brings no types but those of the resolution it comes from. -/
theorem types_contribution (share : ω) (r : Resolution ω) :
    Members.types (contribution share r) ⊆ r.shape.types := by
  unfold contribution
  split
  · rename_i t hshape
    rw [hshape]
    exact List.Subset.refl _
  · rename_i members hshape
    rw [hshape]
    unfold Members.types
    rw [List.map_map]
    exact List.Subset.refl _
  · exact List.nil_subset _

/-- Few different members make a grounded resolution: none says nothing, one is concrete. -/
theorem grounded_ofMembers (confidence : ω) {ms : Members ω} (hdistinct : Members.Distinct ms)
    (hle : ms.length ≤ 5) (htypes : ∀ t ∈ Members.types ms, t.Builtin ∨ t ∈ given) :
    (ofMembers confidence ms).Grounded given := by
  match ms, hdistinct, hle, htypes with
  | [], _, _, _ => exact grounded_of_dynamic rfl
  | [m], _, _, htypes => exact grounded_of_concrete rfl (htypes m.1 List.mem_cons_self)
  | m :: m' :: rest, hdistinct, hle, htypes =>
    have htwo : 2 ≤ (m :: m' :: rest).length := by simp
    exact ⟨⟨htwo, hle, hdistinct⟩, htypes⟩

/-- A union of grounded types is grounded. -/
theorem grounded_union {rs : List (Resolution ω)} (h : ∀ r ∈ rs, r.Grounded given) :
    (union rs).Grounded given := by
  match rs, h with
  | [], _ => exact grounded_of_dynamic rfl
  | [r], h => exact h r List.mem_cons_self
  | r :: r' :: rest, h =>
    refine grounded_ofMembers _ (Members.distinct_normalize _).simplify
      (Members.length_simplify_le _) ?_
    intro t ht
    have hgiven := Members.types_normalize_subset _ (Members.types_simplify_subset _ ht)
    obtain ⟨m, hm, rfl⟩ := List.mem_map.1 hgiven
    obtain ⟨s, hs, hms⟩ := List.mem_flatMap.1 hm
    exact (h s hs).types m.1 (types_contribution _ s (Members.mem_types hms))

/-- A join of grounded types is grounded. -/
theorem grounded_join {rs : List (Resolution ω)} (h : ∀ r ∈ rs, r.Grounded given) :
    (join rs).Grounded given := by
  cases rs with
  | nil => exact grounded_of_dynamic rfl
  | cons r rs =>
    rw [join]
    split
    · exact h r List.mem_cons_self
    · exact grounded_union h

/-- Of two grounded types the one that is chosen is grounded. -/
theorem Grounded.choose {a b : Resolution ω} (ha : a.Grounded given) (hb : b.Grounded given) :
    (choose a b).Grounded given := by
  have hunion : (union [a, b]).Grounded given := by
    refine grounded_union ?_
    intro r hr
    rcases List.mem_cons.1 hr with rfl | hr
    · exact ha
    · rw [List.mem_singleton.1 hr]
      exact hb
  unfold Resolution.choose
  split
  · split
    · exact ha
    · exact hunion
  · exact hunion

end Resolution

open Resolution

variable {given : List (Concrete ω)}

/-! ## Signatures -/

namespace Signature

/-- The types of the parameters and of the result. -/
def resolutions (s : Signature ω) : List (Resolution ω) :=
  s.params.map SignatureParam.type ++ [s.returns]

/-- All types of the signature are grounded. -/
def Grounded (given : List (Concrete ω)) (s : Signature ω) : Prop :=
  ∀ r ∈ s.resolutions, r.Grounded given

/-- The result of a grounded signature is grounded. -/
theorem Grounded.returns {s : Signature ω} (h : s.Grounded given) : s.returns.Grounded given :=
  h s.returns (List.mem_append_right _ List.mem_cons_self)

/-- Every parameter of a grounded signature is grounded. -/
theorem Grounded.param {s : Signature ω} (h : s.Grounded given) {p : SignatureParam ω}
    (hp : p ∈ s.params) : p.type.Grounded given :=
  h p.type (List.mem_append_left _ (List.mem_map_of_mem hp))

end Signature

namespace Signatures

/-- The types that occur in signatures. -/
def types (functions : Signatures ω) : List (Concrete ω) :=
  functions.values.flatMap fun s => s.resolutions.flatMap fun r => r.shape.types

/-- All signatures are grounded. -/
def Grounded (given : List (Concrete ω)) (functions : Signatures ω) : Prop :=
  functions.All fun _ s => s.Grounded given

/-- Bounded signatures are grounded in their own types. -/
theorem grounded_types {functions : Signatures ω}
    (h : ∀ s ∈ functions.values, ∀ r ∈ s.resolutions, r.shape.Bounded) :
    Grounded (types functions) functions := by
  intro name s hs r hr
  have hmem : s ∈ functions.values := Table.mem_values_iff.2 ⟨name, hs⟩
  refine ⟨h s hmem r hr, ?_⟩
  intro t ht
  exact .inr (List.mem_flatMap.2 ⟨s, hmem, List.mem_flatMap.2 ⟨r, hr, ht⟩⟩)

/-- A signature found by its name is one of the table, so grounded. -/
theorem Grounded.findWord? {functions : Signatures ω} (h : Grounded given functions) {name : Text}
    {s : Signature ω} (hs : functions.findWord? name = some s) : s.Grounded given := by
  obtain ⟨e, he, rfl⟩ := Option.map_eq_some_iff.1 hs
  exact h e.1 e.2 (Table.get?_of_entry he)

end Signatures

/-! ## The global context -/

/-- A fixed result of a global function is primitive or special. -/
theorem GlobalFunction.grounded_returns {f : GlobalFunction ω} (hf : f ∈ all) :
    ∀ r ∈ f.returns, r.Grounded given := by
  intro r hr
  simp only [all, plain, List.mem_cons, List.not_mem_nil, or_false] at hf
  rcases hf with rfl | rfl | rfl | rfl | rfl | rfl | rfl | rfl | rfl | rfl | rfl | rfl <;> cases hr
  all_goals exact grounded_known (by constructor)

/-- A global function gives a grounded type for grounded arguments: it is fixed, or that of an
argument. -/
theorem GlobalFunction.grounded_resultOf [Weight ω] {f : GlobalFunction ω} (hf : f ∈ all)
    {args : List (Resolution ω)} (hargs : ∀ r ∈ args, r.Grounded given) :
    (f.resultOf args).Grounded given := by
  unfold resultOf
  split
  · split
    · exact grounded_of_dynamic rfl
    · rename_i first hfirst
      have hgrounded := hargs first (List.mem_of_mem_head? hfirst)
      split
      · exact grounded_primitive _
      · exact hgrounded.of_shape_eq rfl
  · exact grounded_getD (grounded_returns hf) (grounded_of_dynamic rfl)

/-- The canonical name of a platform type is one of the list. -/
theorem mem_builtinPlatforms {name canonical : Text} (h : platformName? name = some canonical) :
    canonical ∈ builtinPlatforms := by
  have hlisted : ∀ e ∈ platformNames, e.2 ∈ builtinPlatforms := by decide
  obtain ⟨e, he, rfl⟩ := Option.map_eq_some_iff.1 h
  exact hlisted e (List.mem_of_find?_eq_some he)

/-- A constructed type is built in or dynamic. -/
theorem grounded_constructedType (name : Text) :
    (constructedType name : Resolution ω).Grounded given := by
  unfold constructedType
  split
  · rename_i canonical hname
    exact grounded_known (.platform (mem_builtinPlatforms hname))
  · exact grounded_of_dynamic rfl

/-- The result of a call is grounded where the signatures and the arguments are. -/
theorem grounded_callResult [Weight ω] {functions : Signatures ω}
    (hfunctions : Signatures.Grounded given functions) (name : Text) {args : List (Resolution ω)}
    (hargs : ∀ r ∈ args, r.Grounded given) :
    (callResult functions name args).Grounded given := by
  refine grounded_getD ?_ (grounded_unknownBecause _)
  intro r hr
  unfold knownCall? at hr
  split at hr
  · rename_i s hs
    cases hr
    exact (hfunctions.findWord? hs).returns
  · obtain ⟨f, hf, rfl⟩ := Option.map_eq_some_iff.1 hr
    exact GlobalFunction.grounded_resultOf (List.mem_of_find?_eq_some hf) hargs

/-- The type of a parameter is read off its default, so built in or dynamic. -/
theorem Param.grounded_type (p : Param) : (p.type : Resolution ω).Grounded given := by
  unfold Param.type
  split
  · exact grounded_primitive .number
  · exact grounded_primitive .string
  · exact grounded_primitive .boolean
  · exact grounded_primitive .date
  · exact grounded_special .undefined
  · exact grounded_special .null
  · exact grounded_unknownBecause _

/-! ## Variables -/

namespace Variables

/-- What is known of each variable is grounded. -/
def Grounded (given : List (Concrete ω)) (vs : Variables ω) : Prop :=
  vs.All fun _ r => r.Grounded given

/-- Renaming the origins of variables leaves them grounded. -/
theorem Grounded.recordAt {vs : Variables ω} (h : Grounded given vs) (origin : Text → Origin) :
    Grounded given (vs.map fun name r => r.recordAt (origin name)) :=
  h.map fun name _ hr => hr.recordAt (origin name)

/-- Variables joined from grounded ways are grounded. -/
theorem grounded_join [Weight ω] {paths : List (Variables ω)}
    (h : ∀ vs ∈ paths, Grounded given vs) :
    Grounded given (join paths) := by
  refine Table.All.ofList ?_
  intro e he
  obtain ⟨name, -, rfl⟩ := List.mem_map.1 he
  refine Resolution.grounded_join ?_
  intro r hr
  obtain ⟨vs, hvs, hget⟩ := List.mem_filterMap.1 hr
  exact h vs hvs name r hget

end Variables

/-! ## Conditions -/

namespace Narrowing

/-- A type that a condition can name is built in. -/
theorem builtin_of_namedType? {name : Text} {t : NamedType} (h : namedType? name = some t) :
    (t.concrete : Concrete ω).Builtin := by
  unfold namedType? at h
  split at h
  · cases h
    exact .primitive _
  · obtain ⟨canonical, hname, rfl⟩ := Option.map_eq_some_iff.1 h
    exact .platform (mem_builtinPlatforms hname)

/-- A refinement to a built-in type is grounded. -/
theorem grounded_fixed {t : Concrete ω} (h : t.Builtin) : (fixed t).Grounded given :=
  (grounded_known h).of_shape_eq rfl

variable {vars : Variables ω}

/-- The type a variable has before a condition is grounded where all variables are. -/
theorem grounded_prior (h : Variables.Grounded given vars) (name : Text) :
    (prior vars name).Grounded given :=
  grounded_getD (h name) (grounded_of_dynamic rfl)

/-- Grounded refinements lead from grounded variables to grounded variables. -/
theorem grounded_apply (h : Variables.Grounded given vars) {rs : List (Refinement ω)}
    (hrs : ∀ r ∈ rs, r.type.Grounded given) : Variables.Grounded given (apply vars rs) := by
  refine h.insertAll ?_
  intro e he
  obtain ⟨r, hr, rfl⟩ := List.mem_map.1 he
  exact hrs r hr

variable [Weight ω]

/-- The type that a fact gives to a variable is grounded where the variables are. -/
theorem grounded_typeUnder (h : Variables.Grounded given vars) (name : Text) (fact : Fact) :
    (typeUnder vars name fact).Grounded given := by
  cases fact with
  | hasType typeName =>
    unfold typeUnder
    dsimp only
    split
    · rename_i t ht
      exact grounded_fixed (builtin_of_namedType? ht)
    · exact grounded_prior h name
  | isUndefined => exact grounded_fixed (.special .undefined)
  | isNull => exact grounded_fixed (.special .null)
  | isTruthy => exact grounded_of_dynamic rfl
  | isFalsy => exact grounded_fixed (.primitive .boolean)
  | lacksType _ => exact grounded_prior h name
  | isDefined => exact grounded_prior h name
  | isNotNull => exact grounded_prior h name

/-- What a condition says of its variables is grounded where the variables are. -/
theorem grounded_refinements (h : Variables.Grounded given vars) (c : Expr) :
    ∀ r ∈ refinements vars c, r.type.Grounded given := by
  intro r hr
  obtain ⟨⟨name, fact⟩, -, rfl⟩ := List.mem_map.1 hr
  exact grounded_typeUnder h name fact

/-- What the failure of a condition says of its variables is grounded where the variables are. -/
theorem grounded_invert (h : Variables.Grounded given vars) (rs : List (Refinement ω)) :
    ∀ r ∈ invert vars rs, r.type.Grounded given := by
  intro r hr
  obtain ⟨r', -, rfl⟩ := List.mem_map.1 hr
  exact grounded_typeUnder h r'.subject r'.fact.complement

end Narrowing

/-! ## Expressions -/

/-- From a state of a kind the computation gives a value of a kind, and leaves such a state. -/
def Yields (I : σ → Prop) (P : α → Prop) (m : StateM σ α) : Prop := ∀ s, I s → P (m s).1 ∧ I (m s).2

namespace Yields

variable {I : σ → Prop} {P : α → Prop} {Q : β → Prop}

/-- A value that satisfies the law may be yielded without touching the state. -/
theorem pure {a : α} (h : P a) : Yields I P (Pure.pure a) := fun _ hs => ⟨h, hs⟩

/-- Computations that keep the invariant may follow each other. -/
theorem bind {m : StateM σ α} {f : α → StateM σ β} (hm : Yields I P m)
    (hf : ∀ a, P a → Yields I Q (f a)) : Yields I Q (m >>= f) := by
  intro s hs
  obtain ⟨hvalue, hstate⟩ := hm s hs
  exact hf (m s).1 hvalue (m s).2 hstate

end Yields

namespace Environment

/-- Look-ups and calls give grounded types, and keep the state of a kind. -/
structure Grounded (given : List (Concrete ω)) (I : σ → Prop) (env : Environment ω σ) : Prop where
  lookup : ∀ name loc, Yields I (fun found => ∀ r ∈ found, r.Grounded given) (env.lookup name loc)
  call : ∀ name args loc, (∀ r ∈ args, r.Grounded given) →
    Yields I (·.Grounded given) (env.call name args loc)
  operator : ∀ operation operands loc, Yields I (fun _ => True)
    (env.operator operation operands loc)

variable [Weight ω] {I : σ → Prop} {env : Environment ω σ}

mutual

/-- The type of an expression is grounded. By recursion on the expression; only names, calls and
choices pass on types that are not built in. -/
theorem yields_infer (h : env.Grounded given I) :
    (e : Expr) → Yields I (·.Grounded given) (env.infer e)
  | .number .. | .string .. | .boolean .. | .date .. => .pure (grounded_primitive _)
  | .undefined _ | .null _ => .pure (grounded_special _)
  | .ident name loc =>
    .bind (h.lookup name loc) fun _ hfound =>
      .pure (grounded_getD hfound (grounded_unknownBecause _))
  | .binary op left right loc =>
    .bind (yields_infer h left) fun l _ => .bind (yields_infer h right) fun r _ =>
      .bind (h.operator (.binary op) [l, r] loc) fun _ _ => .pure (grounded_ofBinary op l r)
  | .unary op operand loc =>
    .bind (yields_infer h operand) fun t _ =>
      .bind (h.operator (.unary op) [t] loc) fun _ _ => .pure (grounded_ofUnary op t)
  | .call callee args loc => by
    rw [infer.eq_def]
    refine .bind (yields_inferAll h args) fun types htypes => ?_
    have hinner := yields_infer h callee
    cases callee with
    | ident name l => exact h.call name types loc htypes
    | _ => exact .bind hinner fun _ _ => .pure (grounded_unknownBecause _)
  | .member object _ _ => .bind (yields_infer h object) fun _ _ => .pure (grounded_unknownBecause _)
  | .index object key _ =>
    .bind (yields_infer h object) fun _ _ =>
      .bind (yields_infer h key) fun _ _ => .pure (grounded_unknownBecause _)
  | .new typeName args _ =>
    .bind (yields_inferAll h args) fun _ _ => .pure (grounded_constructedType typeName)
  | .choice c t f _ =>
    .bind (yields_infer h c) fun _ _ => .bind (yields_infer h t) fun _ ha =>
      .bind (yields_infer h f) fun _ hb => .pure (ha.choose hb)
  | .array elements _ =>
    .bind (yields_inferAll h elements) fun _ _ => .pure (grounded_known (.platform (by decide)))
  | .record fields _ =>
    .bind (yields_inferFields h fields) fun _ _ => .pure (grounded_known (.platform (by decide)))

/-- The types of a list of expressions are grounded, by recursion on the list. -/
theorem yields_inferAll (h : env.Grounded given I) :
    (es : List Expr) → Yields I (fun types => ∀ r ∈ types, r.Grounded given) (env.inferAll es)
  | [] => .pure (by simp)
  | e :: es =>
    .bind (yields_infer h e) fun _ ht => .bind (yields_inferAll h es) fun _ hts =>
      .pure (List.forall_mem_cons.2 ⟨ht, hts⟩)

/-- Inferring the values of fields keeps the invariant. -/
theorem yields_inferFields (h : env.Grounded given I) :
    (fields : List (Text × Expr)) → Yields I (fun _ => True) (env.inferFields fields)
  | [] => .pure trivial
  | (_, e) :: rest => .bind (yields_infer h e) fun _ _ => yields_inferFields h rest

end

end Environment

end Gradual
