import Mathlib.Data.List.Forall2
import Gradual.Proofs.Check.Findings

/-!
# Variables without a value

A read finds no value where no parameter, declaration, assignment or loop gives the variable one
before it. Testing a variable in a condition should not count. But the walk of a check refines the
variable that a condition tests, also if it has no value yet, and finds it from there on. So the
check reports what reads without a value there are if conditions give values.

How far this is from the rule is seen by comparing two walks over the same statements that differ in
what conditions give: they pass the same points, and a relation between the variables with values
holds at each of them if it holds at the start and behind forks.

Main statement: `undeclared_diagnostics`.
-/

namespace Gradual

variable {ω : Type}

/-! ## Reads without a value -/

/-- The name and the place of a read of a variable that has no value. -/
def Visit.unvalued? : Visit → Option (Text × Option Position)
  | .pass (.read name loc) names => if name ∈ names then none else some (name, loc)
  | .pass (.call ..) _ | .fork .. => none

/-- The reads without a value in a module, in the order of the walk, where `given` are the variables
to which a condition gives a value. -/
def Program.unvalued (given : Expr → Finset Text) (p : Program) : List (Text × Option Position) :=
  (Stmt.visitsIn given p ∅).filterMap Visit.unvalued?

/-- The diagnostic of a read without a value. -/
def undeclaredAt (file : Text) (read : Text × Option Position) : Diagnostic :=
  (Finding.undeclared read.1).toDiagnostic file read.2

/-- A call is not reported as a variable, and a read is if it has no value. -/
theorem Visit.undeclared_told (file : Text) (functions : Signatures ω) (v : Visit) :
    (v.told?.bind (Use.diagnose file functions)).filter (fun d => d.code = .undeclared) =
      v.unvalued?.map (undeclaredAt file) := by
  cases v with
  | fork c names => rfl
  | pass m names =>
    cases m with
    | read name loc =>
      by_cases h : name ∈ names
      · simp [told?, Use.told?, unvalued?, h]
      · simp only [told?, Use.told?, unvalued?, h, if_false]
        rfl
    | call name count loc =>
      refine Option.filter_eq_none_iff.2 fun d hd => ?_
      obtain ⟨finding, hfinding, rfl⟩ := Option.map_eq_some_iff.1 hd
      have hcode := Finding.isAboutCall_ofCall? hfinding
      rw [decide_eq_true_eq]
      intro h
      rw [show finding.code = .undeclared from h] at hcode
      cases hcode

/-- A check reports the reads that have no value although conditions give values to the variables
that they refine. -/
theorem Program.undeclared_eq_unvalued [Weight ω] (file : Text) (externals : Signatures ω)
    (p : Program) :
    (p.check file externals).diagnostics.filter (fun d => d.code = .undeclared) =
      (p.unvalued Narrowing.subjects).map (undeclaredAt file) := by
  have hkeep : ∀ c : Code, c.needsTypes = true → decide (c = .undeclared) = false := by
    intro c hc
    cases c with
    | undeclared => cases hc
    | _ => rfl
  rw [diagnostics_of_uses hkeep, unvalued, List.filterMap_filterMap, List.filter_filterMap,
    List.map_filterMap]
  exact List.filterMap_congr fun v _ => v.undeclared_told file _

/-! ## Two walks -/

/-- The same point of two walks, with variables that are related. -/
inductive Visit.Beside (ρ : Finset Text → Finset Text → Prop) : Visit → Visit → Prop
  | pass (m : Use) {names names' : Finset Text} : ρ names names' →
    Beside ρ (.pass m names) (.pass m names')
  | fork (c : Expr) {names names' : Finset Text} : ρ names names' →
    Beside ρ (.fork c names) (.fork c names')

/-- A relation that is kept when the same variables get values. -/
structure Steady (ρ : Finset Text → Finset Text → Prop) : Prop where
  refl : ∀ names, ρ names names
  union : ∀ {names names' more more'}, ρ names names' → ρ more more' →
    ρ (names ∪ more) (names' ∪ more')

/-- A relation that is steady is kept when one variable gets a value on both sides. -/
theorem Steady.insert {ρ : Finset Text → Finset Text → Prop} (hρ : Steady ρ) (x : Text)
    {names names' : Finset Text} (h : ρ names names') : ρ (insert x names) (insert x names') := by
  rw [Finset.insert_eq, Finset.insert_eq]
  exact hρ.union (hρ.refl _) h

section

variable (ρ : Finset Text → Finset Text → Prop) (given given' : Expr → Finset Text)

/-- Behind the forks that are visited the variables are related if they are before. -/
def Admits (vs : List Visit) : Prop :=
  ∀ c names names', .fork c names ∈ vs → ρ names names' → ρ (names ∪ given c) (names' ∪ given' c)

/-- Two walks pass the same points, with related variables at each of them and at the end. -/
structure Abreast (vs vs' : List Visit) (names names' : Finset Text) : Prop where
  visits : List.Forall₂ (Visit.Beside ρ) vs vs'
  names_rel : ρ names names'

end

namespace Abreast

variable {ρ : Finset Text → Finset Text → Prop} {vs vs' ws ws' : List Visit}
  {names names' more more' : Finset Text}

/-- Walks that pass nothing are abreast. -/
theorem nil (h : ρ names names') : Abreast ρ [] [] names names' := ⟨.nil, h⟩

/-- Walks over the same uses are abreast. -/
theorem uses (ms : List Use) (h : ρ names names') (hmore : ρ more more') :
    Abreast ρ (Use.visits names ms) (Use.visits names' ms) more more' := by
  refine ⟨?_, hmore⟩
  rw [Use.visits, Use.visits, List.forall₂_map_left_iff, List.forall₂_map_right_iff]
  exact List.forall₂_same.2 fun m _ => .pass m h

/-- Walks abreast may go on abreast. -/
theorem append (h : Abreast ρ vs vs' names names') (h' : Abreast ρ ws ws' more more') :
    Abreast ρ (vs ++ ws) (vs' ++ ws') more more' :=
  ⟨List.rel_append h.visits h'.visits, h'.names_rel⟩

/-- Walks that are abreast at a fork are so behind it, where the ends of both ways are united. -/
theorem fork (hρ : Steady ρ) (c : Expr) {behind behind' : Finset Text} (hnames : ρ names names')
    (h : Abreast ρ vs vs' more more') (h' : Abreast ρ ws ws' behind behind') :
    Abreast ρ (Use.visits names c.uses ++ .fork c names :: (vs ++ ws))
      (Use.visits names' c.uses ++ .fork c names' :: (vs' ++ ws')) (more ∪ behind)
        (more' ∪ behind') := by
  have hways := List.rel_append h.visits h'.visits
  have hpoint := (uses (ρ := ρ) c.uses hnames hnames).visits
  exact ⟨List.rel_append hpoint (.cons (.fork c hnames) hways), hρ.union h.names_rel h'.names_rel⟩

end Abreast

/-- What is admitted of visits is admitted of the first ones. -/
theorem Admits.left {ρ : Finset Text → Finset Text → Prop} {given given' : Expr → Finset Text}
    {vs ws : List Visit} (h : Admits ρ given given' (vs ++ ws)) : Admits ρ given given' vs :=
  fun c names names' hc => h c names names' (List.mem_append_left _ hc)

/-- It is admitted of the last ones. -/
theorem Admits.right {ρ : Finset Text → Finset Text → Prop} {given given' : Expr → Finset Text}
    {vs ws : List Visit} (h : Admits ρ given given' (vs ++ ws)) : Admits ρ given given' ws :=
  fun c names names' hc => h c names names' (List.mem_append_right _ hc)

/-- What a fork admits: the step behind it, and the visits of both ways. -/
theorem Admits.fork {ρ : Finset Text → Finset Text → Prop}
    {given given' : Expr → Finset Text} {c : Expr} {names names' : Finset Text} {vs ws : List Visit}
    (h : Admits ρ given given' (ws ++ .fork c names :: vs)) (hnames : ρ names names') :
    ρ (names ∪ given c) (names' ∪ given' c) ∧ Admits ρ given given' vs :=
  ⟨h.right c names names' List.mem_cons_self hnames,
    fun d k k' hd => h.right d k k' (List.mem_cons_of_mem _ hd)⟩

section

variable {ρ : Finset Text → Finset Text → Prop} {given given' : Expr → Finset Text}

mutual

/-- Walks that start with related variables stay abreast. By recursion on the statement. -/
theorem abreast_statement (hρ : Steady ρ) :
    (s : Stmt) → {names names' : Finset Text} → ρ names names' →
    Admits ρ given given' (s.visits given names) →
    Abreast ρ (s.visits given names) (s.visits given' names') (s.valued given names)
      (s.valued given' names')
  | .declare name _ value _, _, _, h, _ => .uses _ h (hρ.insert name h)
  | .ret value _, _, _, h, _ | .raise value _, _, _, h, _ => .uses _ h h
  | .assign target value _, _, _, h, _ => by
    cases target with
    | ident name l => exact .uses _ h (hρ.insert name h)
    | _ => exact .uses _ h h
  | .routine _ _ params body _ _, _, _, h, hforks =>
    ⟨(abreast_block hρ body (hρ.union h (hρ.refl _)) hforks).visits, h⟩
  | .call name none args loc, _, _, h, _ => .uses _ h h
  | .call _ (some object) args _, _, _, h, _ => .uses _ h h
  | .conditional c body rest _, _, _, h, hforks => by
    obtain ⟨hbehind, hways⟩ := hforks.fork h
    exact .fork hρ c h (abreast_block hρ body hbehind hways.left)
      (abreast_alternative hρ rest h hbehind hways.right)
  | .forTo name first last body _, _, _, h, hforks =>
    .append (.uses _ h h) (abreast_block hρ body (hρ.insert name h) hforks.right)
  | .forEach name collection body _, _, _, h, hforks =>
    .append (.uses _ h h) (abreast_block hρ body (hρ.insert name h) hforks.right)
  | .whileDo c body _, _, _, h, hforks =>
    .append (.uses _ h h) (abreast_block hρ body h hforks.right)
  | .attempt body handler _, _, _, h, hforks => by
    have hbody := abreast_block hρ body h hforks.left
    exact hbody.append (abreast_handlerBlock hρ handler hbody.names_rel hforks.right)
  | .brk _, _, _, h, _ | .cont _, _, _, h, _ => .nil h

/-- Walks over a block are abreast, by recursion along the statements. -/
theorem abreast_block (hρ : Steady ρ) :
    (body : List Stmt) → {names names' : Finset Text} → ρ names names' →
    Admits ρ given given' (Stmt.visitsIn given body names) →
    Abreast ρ (Stmt.visitsIn given body names) (Stmt.visitsIn given' body names')
      (Stmt.valuedIn given body names) (Stmt.valuedIn given' body names')
  | [], _, _, h, _ => .nil h
  | s :: rest, _, _, h, hforks => by
    have hs := abreast_statement hρ s h hforks.left
    exact hs.append (abreast_block hρ rest hs.names_rel hforks.right)

theorem abreast_handlerBlock (hρ : Steady ρ) :
    (handler : Option (List Stmt)) → {names names' : Finset Text} →
    ρ names names' → Admits ρ given given' (Stmt.visitsInHandler given handler names) →
    Abreast ρ (Stmt.visitsInHandler given handler names)
      (Stmt.visitsInHandler given' handler names') (Stmt.valuedInHandler given handler names)
        (Stmt.valuedInHandler given' handler names')
  | none, _, _, h, _ => .nil h
  | some body, _, _, h, hforks => abreast_block hρ body h hforks

/-- So are walks over the other ways of a conditional, from what its failure gives. -/
theorem abreast_alternative (hρ : Steady ρ) :
    (a : Alternative) → {gained gained' names names' : Finset Text} →
    ρ names names' → ρ (names ∪ gained) (names' ∪ gained') →
    Admits ρ given given' (a.visits given gained names) →
    Abreast ρ (a.visits given gained names) (a.visits given' gained' names')
      (a.valued given gained names) (a.valued given' gained' names')
  | .none, _, _, _, _, h, _, _ => .nil h
  | .otherwise body, _, _, _, _, _, hgained, hforks => abreast_block hρ body hgained hforks
  | .elsif c body rest, _, _, _, _, _, hgained, hforks => by
    obtain ⟨hbehind, hways⟩ := hforks.fork hgained
    exact .fork hρ c hgained (abreast_block hρ body hbehind hways.left)
      (abreast_alternative hρ rest hgained hbehind hways.right)

end

end

/-! ## Tests of a variable read it -/

/-- A call that is recognized uses what its arguments use. -/
theorem Narrowing.usesIn_subset_of_callOf? {names : List Text} {e : Expr} {args : List Expr}
    (h : callOf? names e = some args) : Expr.usesIn args ⊆ e.uses := by
  rw [callOf?.eq_def] at h
  split at h
  · split at h
    · cases h
      rw [Expr.uses.eq_def]
      exact List.subset_append_left _ _
    · cases h
  · cases h

/-- The subject of an equation is read on its left side: it is this side, or the argument of the
call there. -/
theorem Narrowing.read_of_ofEquation {positive : Bool} {left right : Expr} {x : Text} {fact : Fact}
    (h : ofEquation positive left right = some (x, fact)) : ∃ loc, .read x loc ∈ left.uses := by
  rw [ofEquation.eq_def] at h
  split at h
  next args type hargs _ =>
    split at h
    next name l typeName k hsubject _ =>
      split at h
      · cases h
        obtain ⟨rest, rfl⟩ := List.head?_eq_some_iff.1 hsubject
        exact ⟨l, usesIn_subset_of_callOf? hargs List.mem_cons_self⟩
      · cases h
    · cases h
  · split at h
    next name l _ =>
      refine ⟨l, List.mem_singleton.2 ?_⟩
      split at h
      · cases h
        rfl
      · split at h
        · cases h
          rfl
        · cases h
    · cases h

/-- What a condition refines is read in it. -/
theorem Narrowing.read_of_refines {c : Expr} {x : Text} (h : Refines c x) :
    ∃ loc, .read x loc ∈ c.uses := by
  obtain ⟨fact, h⟩ := h
  have hequation : ∀ (positive : Bool) (op : BinaryOp) (left right : Expr) (l : Option Position),
      ofEquation positive left right = some (x, fact) →
        ∃ loc, .read x loc ∈ (Expr.binary op left right l).uses := by
    intro positive op left right l h
    obtain ⟨loc, hloc⟩ := read_of_ofEquation h
    exact ⟨loc, List.mem_append_left _ hloc⟩
  rw [ofCondition.eq_def] at h
  split at h
  · exact hequation _ _ _ _ _ h
  · exact hequation _ _ _ _ _ h
  · cases h
    exact ⟨_, List.mem_singleton_self _⟩
  · cases h
    exact ⟨_, List.mem_singleton_self _⟩
  · cases h

/-- The points at which ways part come behind their conditions. -/
def Forked (vs : List Visit) : Prop :=
  ∀ c names, .fork c names ∈ vs → ∀ m ∈ c.uses, .pass m names ∈ vs

namespace Forked

variable {vs ws : List Visit}

theorem nil : Forked [] := fun _ _ h => by cases h

/-- Uses alone part no ways. -/
theorem uses (names : Finset Text) (ms : List Use) : Forked (Use.visits names ms) := by
  intro c k hc
  obtain ⟨m, -, hm⟩ := List.mem_map.1 hc
  cases hm

/-- Visits that are forked may follow each other. -/
theorem append (h : Forked vs) (h' : Forked ws) : Forked (vs ++ ws) := by
  intro c k hc m hm
  rcases List.mem_append.1 hc with hc | hc
  · exact List.mem_append_left _ (h c k hc m hm)
  · exact List.mem_append_right _ (h' c k hc m hm)

/-- Where ways part, the uses of the condition come first. -/
theorem fork (c : Expr) (names : Finset Text) (h : Forked vs) (h' : Forked ws) :
    Forked (Use.visits names c.uses ++ .fork c names :: (vs ++ ws)) := by
  intro d k hd m hm
  rcases List.mem_append.1 hd with hd | hd
  · exact List.mem_append_left _ (uses names c.uses d k hd m hm)
  rcases List.mem_cons.1 hd with hd | hd
  · cases hd
    exact List.mem_append_left _ (List.mem_map_of_mem hm)
  · exact List.mem_append_right _ (List.mem_cons_of_mem _ (h.append h' d k hd m hm))

end Forked

section

variable (given : Expr → Finset Text)

mutual

/-- The visits of a statement are forked, one case for each kind of statement. -/
theorem forked_statement : (s : Stmt) → (names : Finset Text) → Forked (s.visits given names)
  | .declare .., _ | .ret .., _ | .raise .., _ | .assign .., _ | .call _ none _ _, _
  | .call _ (some _) _ _, _ =>
    .uses _ _
  | .routine _ _ _ body _ _, _ => forked_block body _
  | .conditional c body rest _, _ => .fork c _ (forked_block body _) (forked_alternative rest _ _)
  | .forTo _ _ _ body _, _ | .forEach _ _ body _, _
  | .whileDo _ body _, _ => .append (.uses _ _) (forked_block body _)
  | .attempt body handler _, _ => .append (forked_block body _) (forked_handlerBlock handler _)
  | .brk _, _ | .cont _, _ => .nil

theorem forked_block : (body : List Stmt) → (names : Finset Text) →
    Forked (Stmt.visitsIn given body names)
  | [], _ => .nil
  | s :: rest, _ => (forked_statement s _).append (forked_block rest _)

theorem forked_handlerBlock : (handler : Option (List Stmt)) → (names : Finset Text) →
    Forked (Stmt.visitsInHandler given handler names)
  | none, _ => .nil
  | some body, _ => forked_block body _

theorem forked_alternative : (a : Alternative) → (gained names : Finset Text) →
    Forked (a.visits given gained names)
  | .none, _, _ => .nil
  | .otherwise body, _, _ => forked_block body _
  | .elsif c body rest, _, _ => .fork c _ (forked_block body _) (forked_alternative rest _ _)

end

end

/-! ## The rule and the reports -/

/-- That one side has all values of the other is steady. -/
theorem steady_subset : Steady (· ⊆ ·) := ⟨fun _ => Finset.Subset.refl _, Finset.union_subset_union⟩

/-- That both sides agree on one variable is steady. -/
theorem steady_mem (x : Text) : Steady fun names names' => x ∈ names ↔ x ∈ names' := by
  refine ⟨fun _ => Iff.rfl, fun h h' => ?_⟩
  rw [Finset.mem_union, Finset.mem_union, h, h']

/-- With more variables that have values there are fewer reads without one. -/
theorem sublist_unvalued {vs vs' : List Visit} (h : List.Forall₂ (Visit.Beside (· ⊆ ·)) vs vs') :
    (vs'.filterMap Visit.unvalued?).Sublist (vs.filterMap Visit.unvalued?) := by
  induction h with
  | nil => exact List.Sublist.refl _
  | @cons v v' vs vs' hv _ ih =>
    have hless : v'.unvalued? = none ∨ v'.unvalued? = v.unvalued? := by
      cases hv with
      | fork c hsub => exact .inl rfl
      | @pass m names names' hsub =>
        cases m with
        | call name count loc => exact .inl rfl
        | read name loc =>
          by_cases hname : name ∈ names'
          · exact .inl (if_pos hname)
          · exact .inr ((if_neg hname).trans (if_neg fun hmem => hname (hsub hmem)).symm)
    rw [List.filterMap_cons, List.filterMap_cons]
    rcases hless with hnone | heq
    · rw [hnone]
      cases v.unvalued? with
      | none => exact ih
      | some read => exact ih.cons read
    · rw [heq]
      cases v.unvalued? with
      | none => exact ih
      | some read => exact ih.cons_cons read

/-- Where walks agree on a variable, they agree on its reads. -/
theorem filter_unvalued (x : Text) {vs vs' : List Visit}
    (h : List.Forall₂ (Visit.Beside fun names names' => x ∈ names ↔ x ∈ names') vs vs') :
    (vs.filterMap Visit.unvalued?).filter (fun r => r.1 = x) =
      (vs'.filterMap Visit.unvalued?).filter fun r => r.1 = x := by
  rw [List.filter_filterMap, List.filter_filterMap]
  induction h with
  | nil => rfl
  | @cons v v' vs vs' hv _ ih =>
    have hsame : v.unvalued?.filter (fun r => decide (r.1 = x)) = v'.unvalued?.filter fun r =>
        decide (r.1 = x) := by
      cases hv with
      | fork c _ => rfl
      | @pass m names names' hiff =>
        cases m with
        | call name count loc => rfl
        | read name loc =>
          by_cases hx : name = x
          · subst hx
            simp only [Visit.unvalued?, hiff]
          · by_cases hn : name ∈ names <;> by_cases hn' : name ∈ names' <;>
              simp [Visit.unvalued?, hn, hn', Option.filter, hx]
    rw [List.filterMap_cons, List.filterMap_cons, hsame, ih]

namespace Program

variable (p : Program)

/-- The reads that have no value although conditions give some are among those without a value by
the rule. -/
theorem unvalued_subjects_sublist :
    (p.unvalued Narrowing.subjects).Sublist (p.unvalued fun _ => ∅) := by
  have hforks : Admits (· ⊆ ·) (fun _ => ∅) Narrowing.subjects (Stmt.visitsIn (fun _ => ∅) p ∅) :=
    fun c names names' _ hsub => Finset.union_subset_union hsub (Finset.empty_subset _)
  exact sublist_unvalued (abreast_block steady_subset p (Finset.Subset.refl ∅) hforks).visits

/-- Where a variable has a value at every fork whose condition refines it, refining it changes
nothing for its reads. -/
theorem filter_unvalued_eq {given given' : Expr → Finset Text} {x : Text}
    (hgiven : ∀ c, x ∈ given c ∨ x ∈ given' c → ∀ names, .fork c names ∈ Stmt.visitsIn given p ∅ →
      x ∈ names) :
    (p.unvalued given).filter (fun r => r.1 = x) = (p.unvalued given').filter fun r => r.1 = x := by
  have hforks : Admits (fun names names' => x ∈ names ↔ x ∈ names') given given'
      (Stmt.visitsIn given p ∅) := by
    intro c names names' hc hiff
    rw [Finset.mem_union, Finset.mem_union, ← hiff]
    by_cases hx : x ∈ given c ∨ x ∈ given' c
    · exact iff_of_true (.inl (hgiven c hx names hc)) (.inl (hgiven c hx names hc))
    · rw [not_or] at hx
      simp only [hx.1, hx.2]
  exact filter_unvalued x (abreast_block (steady_mem x) p Iff.rfl hforks).visits

/-- A variable that is read without a value by the rule is so in some place also if conditions give
values: the first condition that refines it reads it. -/
theorem exists_unvalued_subjects {x : Text} (hx : ∃ loc, (x, loc) ∈ p.unvalued fun _ => ∅) :
    ∃ loc, (x, loc) ∈ p.unvalued Narrowing.subjects := by
  -- Were it reported nowhere, then every condition that refines it would read it with a value, and
  -- both walks would agree on it.
  by_contra hnone
  have hvalued : ∀ names loc, .pass (.read x loc) names ∈ Stmt.visitsIn Narrowing.subjects p ∅ →
      x ∈ names := by
    intro names loc hpass
    by_contra hmem
    exact hnone ⟨loc, List.mem_filterMap.2 ⟨_, hpass, if_neg hmem⟩⟩
  have hsame : (p.unvalued Narrowing.subjects).filter (fun r => r.1 = x) =
      (p.unvalued fun _ => ∅).filter fun r => r.1 = x := by
    refine p.filter_unvalued_eq fun c hc names hfork => ?_
    have hrefines : Narrowing.Refines c x := by
      rcases hc with hc | hc
      · exact Narrowing.mem_subjects.1 hc
      · exact absurd hc (Finset.notMem_empty x)
    obtain ⟨loc, hread⟩ := Narrowing.read_of_refines hrefines
    exact hvalued names loc (forked_block Narrowing.subjects p ∅ c names hfork _ hread)
  obtain ⟨loc, hloc⟩ := hx
  have hmem : (x, loc) ∈ (p.unvalued fun _ => ∅).filter fun r => r.1 = x :=
    List.mem_filter.2 ⟨hloc, by simp⟩
  rw [← hsame] at hmem
  exact hnone ⟨loc, (List.mem_filter.1 hmem).1⟩

/-- Wherever ways part on a condition that refines the variable, it has a value by the rule. -/
def TestedWithValue (x : Text) : Prop :=
  ∀ c names, .fork c names ∈ Stmt.visitsIn (fun _ => ∅) p ∅ → Narrowing.Refines c x → x ∈ names

/-- **Variables without a value.** For every module, a check reports in the order of its walk the
reads that have no value if also conditions give one, to the variable that they refine. All of these
have no value by the rule that only parameters, declarations, assignments and loops give one.
Conversely a variable that is read without a value by the rule is reported in some place, and in all
of them unless it is tested before it has a value. -/
theorem undeclared_diagnostics [Weight ω] (file : Text) (externals : Signatures ω) :
    let reads := p.unvalued fun _ => ∅
    let found := p.unvalued Narrowing.subjects
    (p.check file externals).diagnostics.filter (fun d => d.code = .undeclared) =
      found.map (undeclaredAt file) ∧ found.Sublist reads ∧
      ∀ x, ((∃ loc, (x, loc) ∈ reads) → ∃ loc, (x, loc) ∈ found) ∧
        (p.TestedWithValue x →
          found.filter (fun r => r.1 = x) = reads.filter fun r => r.1 = x) := by
  intro reads found
  refine ⟨p.undeclared_eq_unvalued file externals, p.unvalued_subjects_sublist, fun x => ?_⟩
  refine ⟨p.exists_unvalued_subjects, fun htested => (p.filter_unvalued_eq ?_).symm⟩
  intro c hc names hfork
  rcases hc with hc | hc
  · exact absurd hc (Finset.notMem_empty x)
  · exact htested c names hfork (Narrowing.mem_subjects.1 hc)

/-- A module that tests and then reads `x`, behind the given statements. -/
def testing (before : List Stmt) : Program :=
  before ++ [.conditional (.ident "x" none) [.call "f" none [.ident "x" none] none] .none none]

/-- If `x` has a value before it is tested, then no read of it is reported. -/
theorem undeclared_diagnostics_assigned :
    let p := testing [.assign (.ident "x" none) (.ident "y" none) none]
    p.TestedWithValue "x" ∧
      (p.unvalued Narrowing.subjects).filter (fun r => r.1 = ("x" : Text)) = [] := by
  intro p
  have htested : p.TestedWithValue "x" := by
    intro c names hfork _
    simp [p, testing, Stmt.visitsIn, Stmt.visits, Stmt.valued, Alternative.visits,
      Use.visits, Expr.uses, Expr.usesIn, Expr.targetUses] at hfork
    simp [hfork.2]
  exact ⟨htested, (((p.undeclared_diagnostics (ω := Float) "m" .empty).2.2 "x").2 htested).trans
    (by decide)⟩

/-- A variable that is tested before it has a value is reported for the test, but not for a read
behind it. -/
theorem not_undeclared_eq_unvalued :
    ¬ ∀ (file : Text) (externals : Signatures Float) (p : Program),
      (p.check file externals).diagnostics.filter (fun d => d.code = .undeclared) =
        (p.unvalued fun _ => ∅).map (undeclaredAt file) := by
  intro h
  have hlength := congrArg List.length (h "m" .empty (testing []))
  rw [undeclared_eq_unvalued, List.length_map, List.length_map] at hlength
  exact absurd hlength (by decide)

end Program

end Gradual
