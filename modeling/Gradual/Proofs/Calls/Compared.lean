import Mathlib.Data.List.Pairwise
import Gradual.Proofs.Graph.Drawn
import Gradual.Proofs.Syntax.Parts

/-!
# Two graphs of calls

The call graph lists every call in the body of a routine, and resolves its name. The dependency
graph draws some of these calls, some of them to another name, and also the calls in default values.
They are compared here for modules whose routines are declared at the top level, each name once.

Main statement: `calledFunctions_agree_iff`.
-/

namespace Gradual

/-! ## Drawn calls are calls -/

namespace Expr

mutual

/-- The calls that an expression draws are some of those it holds, in their order. -/
theorem drawn_sublist_calls : (e : Expr) → e.drawn.Sublist e.calls
  | .call callee args loc => by
    have hargs := drawnIn_sublist_callsIn args
    cases callee with
    | ident name _ => exact (List.Sublist.refl _).append hargs
    | _ => exact (List.nil_sublist _).append hargs
  | .binary _ left right _ => left.drawn_sublist_calls.append right.drawn_sublist_calls
  | .unary _ operand _ => operand.drawn_sublist_calls
  | .member object _ _ => object.drawn_sublist_calls
  | .index object key _ => object.drawn_sublist_calls.append key.drawn_sublist_calls
  | .new _ args _ => drawnIn_sublist_callsIn args
  | .choice condition whenTrue whenFalse _ =>
    (condition.drawn_sublist_calls.append whenTrue.drawn_sublist_calls).append
      whenFalse.drawn_sublist_calls
  | .array elements _ => drawnIn_sublist_callsIn elements
  | .record fields _ => drawnInFields_sublist_callsInFields fields
  | .number .. | .string .. | .boolean .. | .date .. | .undefined _ | .null _
  | .ident .. => List.nil_sublist _

theorem drawnIn_sublist_callsIn : (es : List Expr) → (drawnIn es).Sublist (callsIn es)
  | [] => List.nil_sublist _
  | e :: rest => e.drawn_sublist_calls.append (drawnIn_sublist_callsIn rest)

theorem drawnInFields_sublist_callsInFields : (fields : List (Text × Expr)) →
    (drawnInFields fields).Sublist (callsInFields fields)
  | [] => List.nil_sublist _
  | (_, e) :: rest => e.drawn_sublist_calls.append (drawnInFields_sublist_callsInFields rest)

end

theorem drawnInOption_sublist_callsInOption (value : Option Expr) :
    (drawnInOption value).Sublist (callsInOption value) := by
  cases value with
  | none => exact List.nil_sublist _
  | some e => exact e.drawn_sublist_calls

end Expr

/-- Fewer calls are made where there are fewer. -/
theorem CallSite.madeBy_sublist (r : Option Text) {as bs : List CallSite} (h : as.Sublist bs) :
    (madeBy r as).Sublist (madeBy r bs) := by
  cases r with
  | none => exact List.nil_sublist _
  | some f => exact h.map _

namespace Stmt

/-- No routine is declared. -/
def Plain (ss : List Stmt) : Prop := ∀ s ∈ ss, s.isRoutine = false

instance (ss : List Stmt) : Decidable (Plain ss) :=
  inferInstanceAs (Decidable (∀ s ∈ ss, s.isRoutine = false))

namespace Plain

variable {s : Stmt} {ss ts : List Stmt}

theorem tail (h : Plain (s :: ss)) : Plain ss := (List.forall_mem_cons.1 h).2

theorem left (h : Plain (ss ++ ts)) : Plain ss := (List.forall_mem_append.1 h).1

theorem right (h : Plain (ss ++ ts)) : Plain ts := (List.forall_mem_append.1 h).2

end Plain

open CallSite

mutual

/-- Where no routine is declared, the drawn calls are some of all calls. -/
theorem drawn_sublist (r : Option Text) :
    (s : Stmt) → Plain s.parts → (s.drawn r).Sublist (madeBy r s.calls)
  | .declare _ _ value _, _ => madeBy_sublist r (Expr.drawnInOption_sublist_callsInOption value)
  | .routine .., h => by cases h _ List.mem_cons_self
  | .assign target value _, _ => by
    refine madeBy_sublist r (List.Sublist.trans ?_
      (List.sublist_append_right target.calls value.calls))
    split
    · exact value.drawn_sublist_calls
    · exact List.nil_sublist _
  | .call name none args loc, _ =>
    madeBy_sublist r ((List.Sublist.refl [_]).append (Expr.drawnIn_sublist_callsIn args))
  | .call _ (some object) args _, _ =>
    madeBy_sublist r ((Expr.drawnIn_sublist_callsIn args).trans
      (List.sublist_append_right object.calls _))
  | .conditional c body rest _, h => by
    rw [drawn, Stmt.calls, madeBy_append, madeBy_append]
    exact ((madeBy_sublist r c.drawn_sublist_calls).append
      (drawnIn_sublist r body h.tail.left)).append (drawnAlternative_sublist r rest h.tail.right)
  | .forTo _ first last body _, h => by
    rw [drawn, Stmt.calls, madeBy_append r _ (Stmt.callsIn body)]
    exact (madeBy_sublist r (first.drawn_sublist_calls.append last.drawn_sublist_calls)).append
      (drawnIn_sublist r body h.tail)
  | .forEach _ collection body _, h => by
    rw [drawn, Stmt.calls, madeBy_append]
    exact (madeBy_sublist r collection.drawn_sublist_calls).append (drawnIn_sublist r body h.tail)
  | .whileDo c body _, h => by
    rw [drawn, Stmt.calls, madeBy_append]
    exact (madeBy_sublist r c.drawn_sublist_calls).append (drawnIn_sublist r body h.tail)
  | .attempt body handler _, h => by
    rw [drawn, Stmt.calls, madeBy_append]
    exact (drawnIn_sublist r body h.tail.left).append
      (drawnInHandler_sublist r handler h.tail.right)
  | .ret value _, _ => madeBy_sublist r (Expr.drawnInOption_sublist_callsInOption value)
  | .raise message _, _ => madeBy_sublist r (Expr.drawnInOption_sublist_callsInOption message)
  | .brk _, _ | .cont _, _ => List.nil_sublist _

/-- A block without routines draws some of the calls it holds, all made by the routine around. -/
theorem drawnIn_sublist (r : Option Text) : (body : List Stmt) → Plain (partsIn body) →
    (drawnIn r body).Sublist (madeBy r (Stmt.callsIn body))
  | [], _ => List.nil_sublist _
  | s :: rest, h => by
    rw [drawnIn, Stmt.callsIn, madeBy_append]
    exact (drawn_sublist r s h.left).append (drawnIn_sublist r rest h.right)

theorem drawnInHandler_sublist (r : Option Text) :
    (handler : Option (List Stmt)) → Plain (partsInHandler handler) →
      (drawnInHandler r handler).Sublist (madeBy r (callsInHandler handler))
  | none, _ => List.nil_sublist _
  | some body, h => drawnIn_sublist r body h

theorem drawnAlternative_sublist (r : Option Text) : (a : Alternative) → Plain a.parts →
    (a.drawn r).Sublist (madeBy r a.calls)
  | .none, _ => List.nil_sublist _
  | .otherwise body, h => drawnIn_sublist r body h
  | .elsif c body rest, h => by
    rw [Alternative.drawn, Alternative.calls, madeBy_append, madeBy_append]
    exact ((madeBy_sublist r c.drawn_sublist_calls).append (drawnIn_sublist r body h.left)).append
      (drawnAlternative_sublist r rest h.right)

end

/-- A call that is drawn for a routine in its body is a call of the body. -/
theorem mem_callsIn_of_mem_drawnIn {r : Option Text} {body : List Stmt}
    (h : Plain (partsIn body)) {f : Text} {c : CallSite} (hc : (f, c) ∈ drawnIn r body) :
    r = some f ∧ c ∈ Stmt.callsIn body :=
  mem_madeBy.1 ((drawnIn_sublist r body h).subset hc)

/-- A statement has a body under a name only if it declares that routine. -/
theorem routineName?_of_bodyOf? {s : Stmt} {f : Text} {body : List Stmt}
    (h : s.bodyOf? f = some body) : s.routineName? = some f := by
  cases s with
  | routine kind name params body' exported loc =>
    rw [bodyOf?] at h
    split at h
    · next hname => rw [hname, routineName?]
    · cases h
  | _ => cases h

/-- The calls that a block draws are those of its statements. -/
theorem mem_drawnIn {r : Option Text} {body : List Stmt} {e : Text × CallSite} :
    e ∈ drawnIn r body ↔ ∃ s ∈ body, e ∈ s.drawn r := by
  induction body with
  | nil => simp [drawnIn]
  | cons s rest ih => simp [drawnIn, ih]

/-- The statements below the top level of a module at which the statement stands, and the statement
itself unless it declares a routine. -/
def inner : Stmt → List Stmt
  | .routine _ _ _ body _ _ => partsIn body
  | s => s.parts

/-- At the top level only routines make calls, and only their own. -/
theorem routineName?_of_mem_drawn {s : Stmt} (hs : Plain s.inner) {f : Text} {c : CallSite}
    (hc : (f, c) ∈ s.drawn none) : s.routineName? = some f := by
  cases s with
  | routine kind name params body exported loc =>
    rcases List.mem_append.1 hc with hc | hc
    · exact (mem_madeBy.1 hc).1
    · exact (mem_callsIn_of_mem_drawnIn hs hc).1
  | _ => cases (mem_madeBy.1 ((drawn_sublist none _ hs).subset hc)).1

end Stmt

/-! ## Declarations -/

namespace Program

variable {p : Program}

/-- Routines are declared at the top level only. -/
def Flat (p : Program) : Prop := ∀ s ∈ p, Stmt.Plain s.inner

instance (p : Program) : Decidable p.Flat :=
  inferInstanceAs (Decidable (∀ s ∈ p, Stmt.Plain s.inner))

/-- A name that is declared once is declared by one statement. -/
theorem eq_of_routineName? (hnames : p.routineNames.Nodup) {s t : Stmt} (hs : s ∈ p)
    (ht : t ∈ p) {f : Text} (hsf : s.routineName? = some f) (htf : t.routineName? = some f) :
    s = t := by
  by_contra hne
  have hpairs := List.pairwise_filterMap.1 hnames
  have hsymm : Std.Symm fun a b : Stmt =>
      ∀ x, a.routineName? = some x → ∀ y, b.routineName? = some y → x ≠ y :=
    ⟨fun a b h x hx y hy => (h y hy x hx).symm⟩
  exact hpairs.forall hs ht hne f hsf f htf rfl

section

variable {kind : RoutineKind} {f : Text} {params : List Param} {body : List Stmt} {exported : Bool}
  {loc : Option Position}

/-- With no name declared twice, the body of a routine is the one in its declaration. -/
theorem body?_of_mem (hnames : p.routineNames.Nodup)
    (hf : .routine kind f params body exported loc ∈ p) :
    p.body? f = some body := by
  have hmem : body ∈ p.filterMap (Stmt.bodyOf? f) :=
    List.mem_filterMap.2 ⟨_, hf, by simp [Stmt.bodyOf?]⟩
  cases hlast : p.body? f with
  | none => rw [List.getLast?_eq_none_iff.1 hlast] at hmem; cases hmem
  | some body' =>
    obtain ⟨s, hs, hbody⟩ := List.mem_filterMap.1 (List.mem_of_getLast? hlast)
    rw [eq_of_routineName? hnames hs hf (Stmt.routineName?_of_bodyOf? hbody) rfl] at hbody
    rw [← hbody, Stmt.bodyOf?, if_pos rfl]

/-- In a flat module a routine draws the calls of its defaults and those of its body. -/
theorem mem_drawnIn_iff (hflat : p.Flat) (hnames : p.routineNames.Nodup)
    (hf : .routine kind f params body exported loc ∈ p) {c : CallSite} :
    (f, c) ∈ Stmt.drawnIn none p ↔ c ∈ Param.drawn params ∨
      (f, c) ∈ Stmt.drawnIn (some f) body := by
  have hown : (f, c) ∈ (Stmt.routine kind f params body exported loc).drawn none ↔
      c ∈ Param.drawn params ∨ (f, c) ∈ Stmt.drawnIn (some f) body := by
    rw [Stmt.drawn, List.mem_append, CallSite.mem_madeBy]
    simp
  rw [Stmt.mem_drawnIn, ← hown]
  constructor
  · rintro ⟨s, hs, hc⟩
    have hname := Stmt.routineName?_of_mem_drawn (hflat s hs) hc
    rwa [eq_of_routineName? hnames hs hf hname rfl] at hc
  · intro hc
    exact ⟨_, hf, hc⟩

end

/-! ## Names -/

variable {c : CallSite} {d : Text}

/-- A call that is drawn to a declared routine stands for it. -/
theorem resolve?_of_target (hd : d ∈ p.routineNames) (h : p.target c = d) :
    p.resolve? c.callee = some d := by
  rw [target] at h
  split at h
  · cases hr : p.resolve? c.callee with
    | some d' => rw [hr] at h; exact congrArg some h
    | none =>
      rw [hr] at h
      have hcallee : c.callee = d := h
      rw [hcallee, resolve?_of_mem hd] at hr
      cases hr
  · rw [h]
    exact resolve?_of_mem hd

end Program

namespace DependencyGraph

variable {ω : Type}

/-- **Drawn calls and calls.** In a module that declares its routines at the top level, each name
once, the dependency graph shows that a routine calls another exactly when a drawn call in one of
its default values or in its body leads to it. A declared routine to which the body is drawn is
called there. So these are the routines of the call graph if and only if every routine that is
called in the body is also the target of a drawn call, and what is called in default values is also
called in the body. -/
theorem calledFunctions_agree_iff (file : Text) {p : Program} (hflat : p.Flat)
    (hnames : p.routineNames.Nodup) {kind : RoutineKind} {f : Text} {params : List Param}
    {body : List Stmt} {exported : Bool} {loc : Option Position}
    (hf : .routine kind f params body exported loc ∈ p) :
    let shown := (ofProgram file p).calledFunctions f
    let calls : CallGraph ω := CallGraph.ofProgram p
    let called (d : Text) := ∃ c ∈ calls.callsFrom f, calls.declaredName? c.callee = some d
    let drawnInDefaults (d : Text) := ∃ c ∈ Param.drawn params, p.target c = d
    let drawnInBody (d : Text) := ∃ c, (f, c) ∈ Stmt.drawnIn (some f) body ∧ p.target c = d
    (∀ d, d ∈ shown ↔ drawnInDefaults d ∨ drawnInBody d) ∧
      (∀ d ∈ p.routineNames, drawnInBody d → called d) ∧
      ((∀ d ∈ p.routineNames, d ∈ shown ↔ called d) ↔
        (∀ d, called d → drawnInDefaults d ∨ drawnInBody d) ∧
          ∀ d ∈ p.routineNames, drawnInDefaults d → called d) := by
  intro shown calls called drawnInDefaults drawnInBody
  have hshown : ∀ d, d ∈ shown ↔ drawnInDefaults d ∨ drawnInBody d := by
    intro d
    rw [mem_calledFunctions_ofProgram]
    simp only [Program.mem_drawnIn_iff hflat hnames hf, or_and_right, exists_or]
    rfl
  have hcalled : ∀ d, called d ↔ ∃ c ∈ Stmt.callsIn body, p.resolve? c.callee = some d := by
    intro d
    dsimp only [called, calls]
    rw [CallGraph.callsFrom_ofProgram, Program.body?_of_mem hnames hf]
    simp only [CallGraph.declaredName?_ofProgram]
    rfl
  have hbody : ∀ d ∈ p.routineNames, drawnInBody d → called d := by
    rintro d hd ⟨c, hc, htarget⟩
    have hmem := (Stmt.mem_callsIn_of_mem_drawnIn (hflat _ hf) hc).2
    exact (hcalled d).2 ⟨c, hmem, Program.resolve?_of_target hd htarget⟩
  have hdeclared : ∀ d, called d → d ∈ p.routineNames := by
    intro d hd
    obtain ⟨c, -, hc⟩ := (hcalled d).1 hd
    exact Program.mem_routineNames_of_resolve? hc
  refine ⟨hshown, hbody, ?_, ?_⟩
  · intro hagree
    constructor
    · intro d hd
      exact (hshown d).1 ((hagree d (hdeclared d hd)).2 hd)
    · intro d hd hdefault
      exact (hagree d hd).1 ((hshown d).2 (.inl hdefault))
  · rintro ⟨hcovered, hdefaults⟩ d hd
    rw [hshown]
    refine ⟨?_, hcovered d⟩
    rintro (hdrawn | hdrawn)
    · exact hdefaults d hd hdrawn
    · exact hbody d hd hdrawn

/-- A module in which the routine `A` makes one statement and `B` makes none. -/
def sample (s : Stmt) : Program :=
  [.routine .procedure "A" [] [s] false none, .routine .procedure "B" [] [] false none]

/-- In an expression the call of `b` leads to `B`, and the graphs agree. -/
theorem calledFunctions_agree_assign :
    let p := sample (.assign (.ident "x" none) (.call (.ident "b" none) [] none) none)
    let calls : CallGraph Unit := CallGraph.ofProgram p
    ∀ d ∈ p.routineNames, d ∈ (ofProgram "m" p).calledFunctions "A" ↔
      ∃ c ∈ calls.callsFrom "A", calls.declaredName? c.callee = some d := by
  intro p calls
  have hagree := (calledFunctions_agree_iff (ω := Unit) "m" (p := p) (by decide)
    (by decide) List.mem_cons_self).2.2
  refine hagree.2 ⟨?_, ?_⟩
  · intro d hd
    have hB : d = "B" := by
      obtain ⟨c, hc, hd⟩ := hd
      rw [List.mem_singleton.1 hc] at hd
      exact (Option.some.inj hd).symm
    exact .inr ⟨⟨"b", 0, true, none⟩, by decide, by rw [hB]; decide⟩
  · rintro d - ⟨c, hc, -⟩
    cases hc

/-- In statement position it does not, and the graphs disagree, although the declared names differ
in more than their letter case. -/
theorem not_calledFunctions_agree :
    ¬ ∀ (file : Text) (p : Program), p.Flat → (p.routineNames.map Text.lower).Nodup →
      ∀ f ∈ p.routineNames, ∀ d ∈ p.routineNames, d ∈ (ofProgram file p).calledFunctions f ↔
        ∃ c ∈ (CallGraph.ofProgram p : CallGraph Unit).callsFrom f,
          (CallGraph.ofProgram p : CallGraph Unit).declaredName? c.callee = some d := by
  intro hagree
  have hB := hagree "m" (sample (.call "b" none [] none)) (by decide)
    (by decide) "A" (by decide) "B" (by decide)
  have hshown : (ofProgram "m" (sample (.call "b" none [] none))).calledFunctions "A" = ["b"] := by
    decide
  rw [hshown] at hB
  exact absurd (hB.2 ⟨⟨"b", 0, false, none⟩, by decide, by decide⟩) (by decide)

end DependencyGraph

end Gradual
