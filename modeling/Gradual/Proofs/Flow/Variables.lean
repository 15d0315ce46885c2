import Mathlib.Tactic.Tauto
import Gradual.Proofs.Flow.States
import Gradual.Proofs.Syntax.Parts
import Gradual.Proofs.Table

/-!
# What a block does to the variables

A state records where each of its resolutions was first held, so that a resolution which two ways
share is known to be the same one where they meet, also when nothing else is known of it. A variable
that is neither assigned nor refined on any way therefore comes out of a block as it went in, and
every other one is defined behind it.

Main statement: `variables_after_block`.
-/

namespace Gradual

variable {ω : Type}

/-! ## Recorded resolutions -/

namespace Resolution

/-- A resolution that has been held somewhere keeps its origin. -/
theorem recordAt_of_recorded {r : Resolution ω} (h : r.origin ≠ .fresh) (origin : Origin) :
    r.recordAt origin = r := by
  rw [recordAt, if_neg h]

/-- After recording, a resolution has been held somewhere. -/
theorem origin_recordAt_ne_fresh (r : Resolution ω) {origin : Origin} (h : origin ≠ .fresh) :
    (r.recordAt origin).origin ≠ .fresh := by
  rw [recordAt]
  split
  · exact h
  · assumption

/-- A recorded resolution agrees with itself, whatever it says. -/
theorem agrees_self [Weight ω] {r : Resolution ω} (h : r.origin ≠ .fresh) : r.agrees r = true := by
  have hne : (r.origin != .fresh) = true := bne_iff_ne.2 h
  rw [agrees, hne, beq_self_eq_true]
  rfl

/-- A recorded resolution that arrives on all paths is their join. -/
theorem join_of_forall_eq [Weight ω] {r : Resolution ω} (h : r.origin ≠ .fresh)
    {rs : List (Resolution ω)} (hrs : ∀ s ∈ rs, s = r) : join (r :: rs) = r := by
  rw [join, if_pos]
  rw [List.all_eq_true]
  intro s hs
  rw [hrs s hs]
  exact agrees_self h

end Resolution

namespace Variables

/-- Every resolution has been held somewhere. -/
def Recorded (vs : Variables ω) : Prop := ∀ x r, vs.get? x = some r → r.origin ≠ .fresh

/-- The second variables are the first ones except at the touched names, all of which are
defined. -/
structure Rewrites (touched : Text → Prop) (vs ws : Variables ω) : Prop where
  mem_keys : ∀ x, x ∈ ws.keys ↔ x ∈ vs.keys ∨ touched x
  get?_eq : ∀ x, ¬ touched x → ws.get? x = vs.get? x

namespace Rewrites

variable {touched also : Text → Prop} {us vs ws : Variables ω}

/-- Variables rewrite to themselves at no name. -/
theorem refl (vs : Variables ω) : Rewrites (fun _ => False) vs vs :=
  ⟨fun _ => (or_false _).to_iff.symm, fun _ _ => rfl⟩

/-- Rewriting twice touches the names of both. -/
theorem trans (h : Rewrites touched us vs) (h' : Rewrites also vs ws) :
    Rewrites (fun x => touched x ∨ also x) us ws := by
  constructor
  · intro x
    rw [h'.mem_keys, h.mem_keys, or_assoc]
  · intro x hx
    rw [not_or] at hx
    rw [h'.get?_eq x hx.2, h.get?_eq x hx.1]

/-- Which names are touched may be said in any equivalent way. -/
theorem congr (h : Rewrites touched vs ws) (hiff : ∀ x, touched x ↔ also x) : Rewrites also vs ws :=
  ⟨fun x => by rw [h.mem_keys, hiff], fun x hx => h.get?_eq x fun ht => hx ((hiff x).1 ht)⟩

/-- An insertion touches its name. -/
theorem insert (vs : Variables ω) (name : Text) (type : Resolution ω) :
    Rewrites (fun x => x = name) vs (vs.insert name type) := by
  constructor
  · intro x
    rw [Table.mem_keys_insert, or_comm]
  · intro x hx
    exact Table.get?_insert_of_ne vs hx type

/-- Many insertions touch their names. -/
theorem insertAll (vs : Variables ω) (pairs : List (Text × Resolution ω)) :
    Rewrites (fun x => x ∈ pairs.map Prod.fst) vs (vs.insertAll pairs) := by
  constructor
  · intro x
    rw [Table.mem_keys_insertAll, or_comm]
  · intro x hx
    induction pairs generalizing vs with
    | nil => rfl
    | cons e pairs ih =>
      rw [List.map_cons, List.mem_cons, not_or] at hx
      have hstep : vs.insertAll (e :: pairs) = (vs.insert e.1 e.2).insertAll pairs := rfl
      rw [hstep, ih (vs.insert e.1 e.2) hx.2, Table.get?_insert_of_ne vs hx.1]

end Rewrites

/-! ## Joins -/

section

variable {paths : List (Variables ω)} {x : Text}

/-- The names of paths are those that some path defines. -/
theorem mem_names : x ∈ names paths ↔ ∃ vs ∈ paths, x ∈ vs.keys := by
  have hfold : ∀ t : Table Text Unit,
      x ∈ (paths.foldl (fun t vs => t.insertAll (vs.keys.map fun k => (k, ()))) t).keys ↔
        x ∈ t.keys ∨ ∃ vs ∈ paths, x ∈ vs.keys := by
    induction paths with
    | nil => simp
    | cons vs paths ih =>
      intro t
      rw [List.foldl_cons, ih, Table.mem_keys_insertAll, List.map_map]
      simp only [Function.comp_def, List.map_id', List.mem_cons, exists_eq_or_imp]
      tauto
  rw [names, hfold]
  simp [Table.empty, Table.keys]

variable [Weight ω]

/-- A variable is defined behind a join when some path defines it. -/
theorem mem_keys_join : x ∈ (join paths).keys ↔ ∃ vs ∈ paths, x ∈ vs.keys := by
  rw [join, Table.mem_keys_ofList, List.map_map, ← mem_names]
  simp only [Function.comp_def, List.map_id']

/-- A name that is defined on some path takes the join of its resolutions. -/
theorem get?_join (hx : x ∈ (join paths).keys) :
    (join paths).get? x = some (Resolution.join (paths.filterMap fun vs => vs.get? x)) := by
  obtain ⟨r, hr⟩ := Table.mem_keys_iff.1 hx
  obtain ⟨y, -, heq⟩ := List.mem_map.1 (Table.mem_of_get?_ofList hr)
  cases heq
  exact hr

/-- What both ways leave alone, their join leaves alone. -/
theorem Rewrites.join {touched also : Text → Prop} {us vs ws : Variables ω} (hus : Recorded us)
    (h : Rewrites touched us vs) (h' : Rewrites also us ws) :
    Rewrites (fun x => touched x ∨ also x) us (Variables.join [vs, ws]) := by
  have hkeys : ∀ x, x ∈ (Variables.join [vs, ws]).keys ↔ x ∈ us.keys ∨ touched x ∨ also x := by
    intro x
    rw [mem_keys_join]
    simp only [List.mem_cons, List.not_mem_nil, or_false, exists_eq_or_imp, exists_eq_left,
      h.mem_keys, h'.mem_keys]
    tauto
  refine ⟨hkeys, ?_⟩
  intro x hx
  cases hu : us.get? x with
  | none =>
    refine Table.get?_eq_none_iff.2 fun hmem => ?_
    rcases (hkeys x).1 hmem with hmem | hmem
    · exact Table.get?_eq_none_iff.1 hu hmem
    · exact hx hmem
  | some r =>
    -- Both ways hold the resolution that was there, and it is recorded.
    have hmem : x ∈ (Variables.join [vs, ws]).keys :=
      (hkeys x).2 (.inl (Table.mem_keys_iff.2 ⟨r, hu⟩))
    rw [not_or] at hx
    have hv : vs.get? x = some r := by rw [h.get?_eq x hx.1, hu]
    have hw : ws.get? x = some r := by rw [h'.get?_eq x hx.2, hu]
    rw [get?_join hmem]
    simp only [List.filterMap_cons, List.filterMap_nil, hv, hw]
    rw [Resolution.join_of_forall_eq (hus x r hu)]
    simp

end

end Variables

/-! ## Steps of a walk -/

namespace Narrowing

/-- Applying refinements touches their subjects. -/
theorem rewrites_apply (vars : Variables ω) (rs : List (Refinement ω)) :
    Variables.Rewrites (fun x => x ∈ rs.map Refinement.subject) vars (apply vars rs) := by
  refine (Variables.Rewrites.insertAll vars _).congr fun x => ?_
  rw [List.map_map]
  rfl

variable [Weight ω] {vars : Variables ω} {c : Expr}

/-- What a condition says when it holds is about the variables it refines. -/
theorem mem_subjects_refinements {x : Text} :
    x ∈ (refinements vars c).map Refinement.subject ↔ Refines c x := by
  rw [refinements, List.map_map, Refines]
  cases h : ofCondition c with
  | none => simp
  | some r => simp [refinement, Prod.ext_iff, eq_comm]

/-- What it says when it fails is about the same variables. -/
theorem mem_subjects_invert {x : Text} :
    x ∈ (invert vars (refinements vars c)).map Refinement.subject ↔ Refines c x := by
  rw [invert, List.map_map, ← @mem_subjects_refinements _ _ vars]
  rfl

end Narrowing

namespace FlowState

/-- A state holds the variables it is made with, recorded at itself where they were fresh. -/
theorem get?_make (id : Nat) (vars : Variables ω) (predecessors : List Nat) (scope : Scope)
    (x : Text) :
    (make id vars predecessors scope).vars.get? x = (vars.get? x).map fun r =>
      r.recordAt (.held id x) :=
  Table.get?_map _ vars x

/-- A new state records what is not recorded yet. -/
theorem recorded_make (id : Nat) (vars : Variables ω) (predecessors : List Nat) (scope : Scope) :
    (make id vars predecessors scope).vars.Recorded := by
  intro x r hr
  rw [get?_make] at hr
  obtain ⟨r', -, rfl⟩ := Option.map_eq_some_iff.1 hr
  exact r'.origin_recordAt_ne_fresh (by simp)

end FlowState

namespace Flow

open Variables

/-- The walk went to a state whose variables are rewritten at the touched names. -/
structure Changes (touched : Text → Prop) (vs : Variables ω) (g : Flow ω) : Prop where
  recorded : g.current.vars.Recorded
  rewrites : Rewrites touched vs g.current.vars

namespace Changes

variable {touched also : Text → Prop} {vs : Variables ω} {f g : Flow ω}

/-- What does not leave the state touches nothing. -/
theorem stay (hf : f.current.vars.Recorded) (h : g.current = f.current) :
    Changes (fun _ => False) f.current.vars g := by
  refine ⟨?_, ?_⟩
  · rw [h]
    exact hf
  · rw [h]
    exact .refl _

/-- Changes one after another touch the names of both. -/
theorem trans (h : Changes touched vs f) (h' : Changes also f.current.vars g) :
    Changes (fun x => touched x ∨ also x) vs g := ⟨h'.recorded, h.rewrites.trans h'.rewrites⟩

/-- Which names are changed may be said in any equivalent way. -/
theorem congr (h : Changes touched vs f) (hiff : ∀ x, touched x ↔ also x) : Changes also vs f :=
  ⟨h.recorded, h.rewrites.congr hiff⟩

/-- A new state leaves what is recorded. -/
theorem enter (hvs : vs.Recorded) (f : Flow ω) {vars : Variables ω} (h : Rewrites touched vs vars)
    (predecessors : List Nat) : Changes touched vs (f.enter vars predecessors) := by
  refine ⟨FlowState.recorded_make _ _ _ _, ?_, ?_⟩
  · intro x
    have hkeys : (f.enter vars predecessors).current.vars.keys = vars.keys := Table.keys_map _ vars
    rw [hkeys, h.mem_keys]
  · intro x hx
    have hget : (f.enter vars predecessors).current.vars.get? x =
        (vars.get? x).map fun r => r.recordAt (.held f.states.size x) :=
          FlowState.get?_make _ _ _ _ x
    rw [hget, h.get?_eq x hx]
    cases hr : vs.get? x with
    | none => rfl
    | some r => exact congrArg some (Resolution.recordAt_of_recorded (hvs x r hr) _)

/-- An update changes the variable it names. -/
theorem update (hf : f.current.vars.Recorded) (name : Text) (type : Resolution ω) :
    Changes (fun x => x = name) f.current.vars (f.update name type) :=
  enter hf f (.insert _ name type) _

section

variable [Weight ω]

/-- An assignment changes the variable it names. -/
theorem assign (hf : f.current.vars.Recorded) (name : Text) (value : Expr) (loc : Option Position) :
    Changes (fun x => x = name) f.current.vars (f.assign name value loc).2 :=
  update (f := (f.expression value).2.emit _) hf name _

/-- Where two ways meet again. -/
theorem meet (hvs : vs.Recorded) (f : Flow ω) {s t : FlowState ω} (hs : Rewrites touched vs s.vars)
    (ht : Rewrites also vs t.vars) : Changes (fun x => touched x ∨ also x) vs (f.merge [s, t]) := by
  have henter := enter hvs f (.join hvs hs ht) [s.id, t.id]
  exact ⟨henter.recorded, henter.rewrites⟩

/-- A fork touches what its condition refines and what its ways touch. The other way is refined only
if there is something to do on it. -/
theorem fork (hf : f.current.vars.Recorded) (c : Expr) {body : Flow ω → Flow ω}
    {rest : FlowState ω → Variables ω → Flow ω → Flow ω} {onBody onRest : Text → Prop} {used : Prop}
    (hbody : ∀ {g : Flow ω}, g.current.vars.Recorded → Changes onBody g.current.vars (body g))
    (hrest : ∀ (g : Flow ω) {origin : FlowState ω} {vars : Variables ω} {refined : Text → Prop},
      origin.vars.Recorded → Rewrites refined origin.vars vars →
        Changes (fun x => (used ∧ refined x) ∨ onRest x) origin.vars (rest origin vars g)) :
    Changes (fun x => Narrowing.Refines c x ∨ onBody x ∨ onRest x) f.current.vars
      (f.fork c body rest) := by
  have hholds : Rewrites (Narrowing.Refines c) f.current.vars
      (Narrowing.apply f.current.vars (Narrowing.refinements f.current.vars c)) :=
    (Narrowing.rewrites_apply _ _).congr fun x => Narrowing.mem_subjects_refinements
  have hfails : Rewrites (Narrowing.Refines c) f.current.vars
      (Narrowing.apply f.current.vars
        (Narrowing.invert f.current.vars (Narrowing.refinements f.current.vars c))) :=
    (Narrowing.rewrites_apply _ _).congr fun x => Narrowing.mem_subjects_invert
  have henter := enter hf (f.condition c) hholds [f.current.id]
  have hthen := henter.trans (hbody henter.recorded)
  have helse := hrest (body ((f.condition c).enter
    (Narrowing.apply f.current.vars (Narrowing.refinements f.current.vars c))
      [f.current.id])) hf hfails
  refine (meet hf _ hthen.rewrites helse.rewrites).congr fun x => ?_
  tauto

end

end Changes

/-! ## Statements -/

section

variable [Weight ω]

/-- Visiting expressions does not leave the state. -/
theorem current_visitAll (es : List Expr) (f : Flow ω) : (f.visitAll es).current = f.current := by
  induction es generalizing f with
  | nil => rfl
  | cons e es ih => exact ih (f.visit e)

theorem current_target (e : Expr) (f : Flow ω) : (f.target e).current = f.current := by
  cases e <;> rfl

open Stmt

mutual

/-- A statement touches what its parts assign and refine. By recursion on the statement; a routine
comes back to the state before it. -/
theorem changes_statement : (s : Stmt) → {f : Flow ω} → f.current.vars.Recorded →
    Changes (Touched s.parts) f.current.vars (statement s f)
  | .declare name _ value loc, _, hf => by
    cases value with
    | some value =>
      refine (Changes.assign hf name value loc).congr fun x => ?_
      simp [parts, assignedName?, tests, eq_comm]
    | none =>
      refine (Changes.update hf name _).congr fun x => ?_
      simp [parts, assignedName?, tests, eq_comm]
  | .assign target value loc, f, hf => by
    have htarget := Changes.stay (g := (f.target target).visit value) hf (current_target target f)
    cases target with
    | ident name l =>
      refine (Changes.assign hf name value loc).congr fun x => ?_
      simp [parts, assignedName?, tests, eq_comm]
    | _ =>
      refine htarget.congr fun x => ?_
      simp [parts, assignedName?, tests]
  | .routine kind name params body exported loc, f, hf => by
    have hroutine : (statement (.routine kind name params body exported loc) f).current =
      f.current := rfl
    refine (Changes.stay hf hroutine).congr fun x => ?_
    simp [parts, assignedName?, tests]
  | .call name object args loc, f, hf => by
    refine (Changes.stay hf ?_).congr fun x => ?_
    · cases object with
      | none => exact current_visitAll args f
      | some object => exact current_visitAll args (f.visit object)
    · simp [parts, assignedName?, tests]
  | .conditional c body rest _, _, hf => by
    refine (Changes.fork hf c (changes_block body) (changes_alternative rest)).congr fun x => ?_
    simp only [parts, touched_cons, touched_append, assignedName?, tests, List.mem_cons,
      exists_eq_or_imp, reduceCtorEq, false_or]
    rw [← or_assoc, or_or_or_comm]
  | .forTo name first last body _, f, hf => by
    have hvar := Changes.update (f := (f.visit first).visit last) hf name (.primitive .number)
    refine (hvar.trans (changes_block body hvar.recorded)).congr fun x => ?_
    simp [parts, assignedName?, tests, eq_comm]
  | .forEach name collection body _, f, hf => by
    have hvar := Changes.update (f := f.visit collection) hf name
      (.unknownBecause "Collection element")
    refine (hvar.trans (changes_block body hvar.recorded)).congr fun x => ?_
    simp [parts, assignedName?, tests, eq_comm]
  | .whileDo c body _, f, hf => by
    refine (changes_block body (f := f.condition c) hf).congr fun x => ?_
    simp [parts, assignedName?, tests]
  | .attempt body handler _, _, hf => by
    have hbody := changes_block body hf
    refine (hbody.trans (changes_handlerBlock handler hbody.recorded)).congr fun x => ?_
    simp [parts, assignedName?, tests]
  | .ret value _, f, hf => by
    refine (Changes.stay hf ?_).congr fun x => ?_
    · cases value <;> rfl
    · simp [parts, assignedName?, tests]
  | .raise message _, f, hf => by
    refine (Changes.stay hf ?_).congr fun x => ?_
    · cases message <;> rfl
    · simp [parts, assignedName?, tests]
  | .brk _, _, hf | .cont _, _, hf => by
    refine (Changes.stay hf rfl).congr fun x => ?_
    simp [parts, assignedName?, tests]

/-- A block changes the names that its parts touch, by recursion along the statements. -/
theorem changes_block : (body : List Stmt) → {f : Flow ω} → f.current.vars.Recorded →
    Changes (Touched (partsIn body)) f.current.vars (block body f)
  | [], _, hf => (Changes.stay hf rfl).congr fun x => by rw [partsIn, touched_nil]
  | s :: rest, _, hf => by
    have hs := changes_statement s hf
    refine (hs.trans (changes_block rest hs.recorded)).congr fun x => ?_
    rw [partsIn, touched_append]

theorem changes_handlerBlock : (handler : Option (List Stmt)) → {f : Flow ω} →
    f.current.vars.Recorded →
    Changes (Touched (partsInHandler handler)) f.current.vars (handlerBlock handler f)
  | none, _, hf => (Changes.stay hf rfl).congr fun x => by rw [partsInHandler, touched_nil]
  | some body, _, hf => changes_block body hf

/-- The other ways touch what was refined for them, if there is something to do on them, and what
their conditions refine and their parts touch. -/
theorem changes_alternative : (a : Alternative) → (g : Flow ω) → {origin : FlowState ω} →
    {vars : Variables ω} → {refined : Text → Prop} → origin.vars.Recorded →
    Rewrites refined origin.vars vars →
    Changes (fun x => (a ≠ .none ∧ refined x) ∨
      (∃ c ∈ a.tests, Narrowing.Refines c x) ∨
        Touched a.parts x) origin.vars (alternative a origin vars g)
  | .none, g, origin, _, _, horigin, _ => by
    refine (Changes.stay (f := { g with current := origin }) horigin rfl).congr fun x => ?_
    simp [Alternative.parts, Alternative.tests]
  | .otherwise body, g, origin, _, _, horigin, hvars => by
    have henter := Changes.enter horigin g hvars [origin.id]
    refine (henter.trans (changes_block body henter.recorded)).congr fun x => ?_
    simp [Alternative.parts, Alternative.tests]
  | .elsif c body rest, g, origin, _, _, horigin, hvars => by
    have henter := Changes.enter horigin g hvars [origin.id]
    have hfork := Changes.fork henter.recorded c (changes_block body) (changes_alternative rest)
    refine (henter.trans hfork).congr fun x => ?_
    simp only [Alternative.parts, Alternative.tests, touched_append, List.mem_cons,
      exists_eq_or_imp, ne_eq, reduceCtorEq, not_false_eq_true, true_and]
    rw [← @or_assoc (Narrowing.Refines c x), or_or_or_comm]

end

/-! ## Walks -/

/-- Behind an answer all variables are recorded, if they were before. -/
theorem recorded_answer {f : Flow ω} (hf : f.current.vars.Recorded) (r : FlowRequest ω) :
    (f.answer r).current.vars.Recorded := by
  cases r with
  | statement s => exact (changes_statement s hf).recorded
  | block body => exact (changes_block body hf).recorded
  | assign name value loc => exact (Changes.assign hf name value loc).recorded
  | conditional c body rest =>
    exact (Changes.fork hf c (changes_block body) (changes_alternative rest)).recorded
  | expression e => exact hf
  | update name type => exact (Changes.update hf name type).recorded
  | merge ids => exact hf

/-- Along a walk every resolution has been held somewhere. -/
theorem recorded_after (context : Context ω) (requests : List (FlowRequest ω)) :
    (after context requests).current.vars.Recorded := by
  have hrun : ∀ {f : Flow ω}, f.current.vars.Recorded →
      (requests.foldl answer f).current.vars.Recorded := by
    induction requests with
    | nil => exact fun hf => hf
    | cons r requests ih => exact fun hf => ih (recorded_answer hf r)
  exact hrun (FlowState.recorded_make 0 context.vars [] context.scope)

/-- **A block and the variables.** Wherever a walk is, after a block exactly those variables are
defined that were before it, that one of its statements assigns and that one of its conditions
refines. A variable that is neither assigned nor refined keeps its resolution, and not only what it
says: it is the one that was recorded before. -/
theorem variables_after_block (context : Context ω) (requests : List (FlowRequest ω))
    (body : List Stmt) :
    let walk := after context requests
    let before := walk.current.vars
    let behind := (block body walk).current.vars
    let assigned := assignedNames (partsIn body)
    let refined := refinedNames (partsIn body)
    (∀ x, x ∈ behind.keys ↔ x ∈ before.keys ∨ x ∈ assigned ∨ x ∈ refined) ∧
      (∀ x, x ∉ assigned → x ∉ refined → behind.get? x = before.get? x) ∧
        ∀ x r, before.get? x = some r → r.origin ≠ .fresh := by
  intro walk before behind assigned refined
  have hrecorded := recorded_after context requests
  have hblock := changes_block body hrecorded
  refine ⟨hblock.rewrites.mem_keys, ?_, hrecorded⟩
  intro x hassigned hrefined
  exact hblock.rewrites.get?_eq x (not_or.2 ⟨hassigned, hrefined⟩)

end

end Flow

end Gradual
