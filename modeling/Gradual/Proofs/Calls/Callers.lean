import Gradual.Proofs.Calls.Named

/-!
# Callers

A call graph lists the calls of each routine, and for each name the routines that call it. The
second list is filled from all declarations of the program, the first is that of the last
declaration of a name. So a routine that calls a name is listed among its callers, but not the other
way round: what an earlier declaration of the routine called stays behind when a later one replaces
it.

Main statement: `callersOf_iff`.
-/

namespace Gradual

/-- The bodies of the declarations of a name, in their order. -/
def Program.bodies (p : Program) (f : Text) : List (List Stmt) := p.filterMap (Stmt.bodyOf? f)

namespace CallGraph

variable {ω : Type}

/-- The name that a call is filed under: the declaration that it stands for, else its own. -/
def filedUnder (g : CallGraph ω) (c : CallSite) : Text := (g.declaredName? c.callee).getD c.callee

/-! ## Adding callers -/

theorem getD_addCaller (t : Table Text (List Text)) (callee caller k : Text) :
    (addCaller t callee caller).getD k [] =
      if k = callee then
        if (t.getD callee []).contains caller then t.getD callee []
        else t.getD callee [] ++ [caller]
      else t.getD k [] := by
  unfold addCaller
  rw [Table.getD_insert]

/-- A caller is added to its callee and to no other. -/
theorem mem_addCaller {t : Table Text (List Text)} {callee caller k f : Text} :
    f ∈ (addCaller t callee caller).getD k [] ↔ f ∈ t.getD k [] ∨ k = callee ∧ f = caller := by
  rw [getD_addCaller]
  by_cases hk : k = callee
  · subst hk
    rw [if_pos rfl]
    by_cases hmem : caller ∈ t.getD k []
    · rw [if_pos (List.contains_iff_mem.2 hmem)]
      constructor
      · exact Or.inl
      · rintro (h | ⟨-, rfl⟩)
        · exact h
        · exact hmem
    · have hnot : ¬ (t.getD k []).contains caller = true :=
        fun h => hmem (List.contains_iff_mem.1 h)
      rw [if_neg hnot, List.mem_append, List.mem_singleton]
      simp only [true_and]
  · rw [if_neg hk]
    simp only [hk, false_and, or_false]

/-- No caller is listed twice. -/
theorem nodup_addCaller {t : Table Text (List Text)} (h : ∀ k, (t.getD k []).Nodup)
    (callee caller k : Text) :
    ((addCaller t callee caller).getD k []).Nodup := by
  rw [getD_addCaller]
  split
  · split
    · exact h callee
    · rename_i hnot
      have hmem : caller ∉ t.getD callee [] := fun hmem => hnot (List.contains_iff_mem.2 hmem)
      apply List.Nodup.append (h callee) (List.nodup_singleton caller)
      intro f hf hf'
      rw [List.mem_singleton.1 hf'] at hf
      exact hmem hf
  · exact h k

/-- The callers after pairs of a callee and a caller were added one after the other. -/
theorem mem_foldl_addCaller {pairs : List (Text × Text)} {t : Table Text (List Text)} {k f : Text} :
    f ∈ (pairs.foldl (fun t e => addCaller t e.1 e.2) t).getD k [] ↔
      f ∈ t.getD k [] ∨ (k, f) ∈ pairs := by
  induction pairs generalizing t with
  | nil => simp
  | cons e pairs ih =>
    have hpair : (k, f) = e ↔ k = e.1 ∧ f = e.2 := Prod.ext_iff
    rw [List.foldl_cons, ih, mem_addCaller, List.mem_cons, hpair, or_assoc]

theorem nodup_foldl_addCaller {pairs : List (Text × Text)} {t : Table Text (List Text)}
    (h : ∀ k, (t.getD k []).Nodup) (k : Text) :
    ((pairs.foldl (fun t e => addCaller t e.1 e.2) t).getD k []).Nodup := by
  induction pairs generalizing t with
  | nil => exact h k
  | cons e pairs ih => exact ih (nodup_addCaller h e.1 e.2)

/-! ## Callers of a program -/

theorem mem_bodies {p : Program} {f : Text} {body : List Stmt} :
    body ∈ p.bodies f ↔ ∃ r ∈ p.filterMap (Routine.ofStmt? (ω := ω)), r.name = f ∧
      r.body = body := by
  unfold Program.bodies
  simp only [List.mem_filterMap]
  constructor
  · rintro ⟨s, hs, hbody⟩
    cases s with
    | routine kind name params body' exported loc =>
      rw [Stmt.bodyOf?] at hbody
      by_cases hname : name = f
      · rw [if_pos hname] at hbody
        exact ⟨_, ⟨_, hs, rfl⟩, hname, Option.some.inj hbody⟩
      · rw [if_neg hname] at hbody
        cases hbody
    | _ => cases hbody
  · rintro ⟨r, ⟨s, hs, hr⟩, hname, hbody⟩
    refine ⟨s, hs, ?_⟩
    cases s with
    | routine kind name params body' exported loc =>
      cases hr
      subst hname hbody
      exact if_pos rfl
    | _ => cases hr

/-- Among the callers of a name are the routines of which some declaration calls it. -/
theorem mem_callersOf {p : Program} {f name : Text} :
    f ∈ (ofProgram p : CallGraph ω).callersOf name ↔
      ∃ body ∈ p.bodies f, ∃ c ∈ Stmt.callsIn body,
        (ofProgram p : CallGraph ω).filedUnder c = name := by
  have hempty : ¬ f ∈ (Table.empty : Table Text (List Text)).getD name [] := List.not_mem_nil
  have hfiled : ∀ c : CallSite,
    ((ofProgram p : CallGraph ω).routines.findKey? c.callee).getD c.callee =
      (ofProgram p : CallGraph ω).filedUnder c := by
    intro c
    unfold filedUnder
    rw [declaredName?_eq_findKey?]
  show f ∈ (List.foldl (fun t (e : Text × Text) => addCaller t e.1 e.2)
    Table.empty _).getD name [] ↔ _
  rw [mem_foldl_addCaller, or_iff_right hempty, List.mem_flatMap]
  constructor
  · rintro ⟨site, hsite, hpair⟩
    obtain ⟨r, hr, rfl⟩ := List.mem_map.1 hsite
    obtain ⟨c, hc, heq⟩ := List.mem_map.1 hpair
    obtain ⟨hname, hf⟩ := Prod.mk.inj heq
    exact ⟨r.body, mem_bodies.2 ⟨r, hr, hf, rfl⟩, c, hc, (hfiled c).symm.trans hname⟩
  · rintro ⟨body, hbody, c, hc, hname⟩
    obtain ⟨r, hr, rfl, rfl⟩ := mem_bodies (ω := ω).1 hbody
    refine ⟨_, List.mem_map.2 ⟨r, hr, rfl⟩, List.mem_map.2 ⟨c, hc, ?_⟩⟩
    exact Prod.ext ((hfiled c).trans hname) rfl

/-- No routine is listed twice among the callers of another. -/
theorem nodup_callersOf (p : Program) (name : Text) :
    ((ofProgram p : CallGraph ω).callersOf name).Nodup :=
  nodup_foldl_addCaller (t := .empty) (fun _ => List.nodup_nil) name

/-- The calls of a routine are those of its last declaration. -/
theorem exists_callsFrom {p : Program} {f : Text} {P : CallSite → Prop} :
    (∃ c ∈ (ofProgram p : CallGraph ω).callsFrom f, P c) ↔
      ∃ body, (p.bodies f).getLast? = some body ∧ ∃ c ∈ Stmt.callsIn body, P c := by
  rw [callsFrom_ofProgram]
  unfold Program.body? Program.bodies
  cases (p.filterMap (Stmt.bodyOf? f)).getLast? with
  | none => simp
  | some body => simp

/-- **Callers and calls.** For every program: no caller of a name is listed twice; a routine with a
call that is filed under the name is one of its callers; and the callers of all names are, as far as
a routine goes, exactly what its calls say, if and only if its earlier declarations call nothing
that is not called in the last one as well. In particular they are if the routine is not declared
twice. -/
theorem callersOf_iff (p : Program) :
    let g : CallGraph ω := ofProgram p
    let calls (f name : Text) : Prop := ∃ c ∈ g.callsFrom f, g.filedUnder c = name
    (∀ name, (g.callersOf name).Nodup) ∧
      (∀ f name, calls f name → f ∈ g.callersOf name) ∧
      (∀ f, (∀ name, f ∈ g.callersOf name ↔ calls f name) ↔
        ∀ body ∈ p.bodies f, ∀ c ∈ Stmt.callsIn body, calls f (g.filedUnder c)) ∧
      ∀ f, (p.bodies f).length ≤ 1 → ∀ name, f ∈ g.callersOf name ↔ calls f name := by
  intro g calls
  have hcalls : ∀ f name, calls f name → f ∈ g.callersOf name := by
    intro f name h
    obtain ⟨body, hlast, hcall⟩ := exists_callsFrom.1 h
    exact mem_callersOf.2 ⟨body, List.mem_of_getLast? hlast, hcall⟩
  have hiff : ∀ f, (∀ name, f ∈ g.callersOf name ↔ calls f name) ↔
      ∀ body ∈ p.bodies f, ∀ c ∈ Stmt.callsIn body, calls f (g.filedUnder c) := by
    intro f
    constructor
    · intro h body hbody c hc
      exact (h _).1 (mem_callersOf.2 ⟨body, hbody, c, hc, rfl⟩)
    · intro h name
      refine ⟨?_, hcalls f name⟩
      intro hf
      obtain ⟨body, hbody, c, hc, rfl⟩ := mem_callersOf.1 hf
      exact h body hbody c hc
  refine ⟨nodup_callersOf p, hcalls, hiff, ?_⟩
  intro f hone
  apply (hiff f).2
  intro body hbody c hc
  -- The only declaration is the last one.
  have hlast : (p.bodies f).getLast? = some body := by
    cases hlist : p.bodies f with
    | nil =>
      rw [hlist] at hbody
      cases hbody
    | cons first rest =>
      rw [hlist, List.length_cons] at hone
      have hrest : rest = [] := List.eq_nil_of_length_eq_zero (by omega)
      rw [hlist, hrest] at hbody
      rw [hrest, List.mem_singleton.1 hbody]
      rfl
  exact exists_callsFrom.2 ⟨body, hlast, c, hc, rfl⟩

/-- A program that declares `f` with the given statements for its body, and then without any. -/
def redeclaring (body : List Stmt) : Program :=
  [.routine .procedure "f" [] body false none, .routine .procedure "f" [] [] false none]

/-- A routine that no longer calls a name stays among its callers. -/
theorem not_callersOf_iff_callsFrom :
    ¬ ∀ (p : Program) (f name : Text),
      f ∈ (ofProgram p : CallGraph Float).callersOf name ↔
        ∃ c ∈ (ofProgram p : CallGraph Float).callsFrom f,
          (ofProgram p : CallGraph Float).filedUnder c = name := by
  intro h
  let p := redeclaring [.call "g" none [] none]
  have hcallers : (ofProgram p : CallGraph Float).callersOf "g" = ["f"] := by decide
  have hnone : (ofProgram p : CallGraph Float).callsFrom "f" = [] := by decide
  have hmem : ("f" : Text) ∈ (ofProgram p : CallGraph Float).callersOf "g" := by
    rw [hcallers]
    exact List.mem_cons_self
  obtain ⟨c, hc, -⟩ := (h p "f" "g").1 hmem
  rw [hnone] at hc
  cases hc

end CallGraph

end Gradual
