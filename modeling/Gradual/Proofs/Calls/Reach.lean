import Mathlib.Logic.Relation
import Gradual.Proofs.Calls.Named
import Gradual.Proofs.Calls.Readings

/-!
# The routines that a reading comes to

While a routine is read, the routines that its values call are read too, unless they were read
before or are being read, and so on. In the end there are signatures for the routine, under the name
that was given, and for all routines to which asked calls lead from it, and for no others. To count
a name as being read makes no difference unless a call comes to it.

Main statements: `CallGraph.explored_body` and `CallGraph.agree_read_aside`.
-/

namespace Gradual

variable {ω : Type}

/-- The declared routines that the reading of a routine, named in any spelling, asks for. -/
def Program.askedBy (p : Program) (f : Text) : List Text :=
  match (p.resolve? f).bind p.body? with
  | some body => (Stmt.askedIn body).filterMap fun c => p.resolve? c.callee
  | none => []

/-- The reading of a routine asks for another. -/
def Program.Asks (p : Program) (f g : Text) : Prop := g ∈ p.askedBy f

namespace CallGraph

/-! ## Asked routines -/

section

variable {g : CallGraph ω} {n d e : Text}

/-- The reading of a routine, named in any spelling, asks for a declared routine. -/
def Asks (g : CallGraph ω) (name d : Text) : Prop :=
  ∃ routine, g.routine? name = some routine ∧
    ∃ c ∈ Stmt.askedIn routine.body, g.declaredName? c.callee = some d

namespace Faithful

/-- A routine that is found by a name is stored under its own. -/
theorem get?_of_routine? (hg : g.Faithful) {routine : Routine ω} (h : g.routine? n = some routine) :
    g.routines.get? routine.name = some routine := by
  obtain ⟨⟨k, r⟩, hentry, rfl⟩ := Option.map_eq_some_iff.1 h
  have hget := Table.get?_of_entry hentry
  rw [hg.name_eq k r hget]
  exact hget

/-- A spelling finds the routine that is listed under the declared name. -/
theorem routine?_of_declaredName? (hg : g.Faithful) (hd : g.declaredName? n = some d) :
    ∃ routine, g.routine? n = some routine ∧ g.routine? d = some routine := by
  obtain ⟨routine, hroutine, rfl⟩ := Option.map_eq_some_iff.1 hd
  have hget := hg.get?_of_routine? hroutine
  obtain ⟨r, hr, hget'⟩ := routine?_eq (Table.mem_keys_iff.2 ⟨routine, hget⟩)
  rw [hget, Option.some.injEq] at hget'
  exact ⟨routine, hroutine, hget' ▸ hr⟩

/-- A listed name is its own declared spelling. -/
theorem declaredName?_of_mem (hg : g.Faithful) (hn : n ∈ g.routines.keys) :
    g.declaredName? n = some n := by
  obtain ⟨r, hr, hget⟩ := routine?_eq hn
  rw [declaredName?, hr, Option.map_some, hg.name_eq n r hget]

/-- A routine's own name is declared as itself. -/
theorem eq_of_declaredName? (hg : g.Faithful) (hn : n ∈ g.routines.keys)
    (hd : g.declaredName? n = some d) : n = d := by
  rw [hg.declaredName?_of_mem hn, Option.some.injEq] at hd
  exact hd

/-- Only routines are asked for. -/
theorem mem_keys_of_asks (hg : g.Faithful) (h : g.Asks d e) : e ∈ g.routines.keys := by
  obtain ⟨-, -, c, -, hc⟩ := h
  exact hg.mem_of_declaredName? hc

/-- Only routines are asked for on any number of steps. -/
theorem mem_keys_of_transGen (hg : g.Faithful) (h : Relation.TransGen g.Asks d e) :
    e ∈ g.routines.keys := by
  cases h with
  | single hask => exact hg.mem_keys_of_asks hask
  | tail _ hask => exact hg.mem_keys_of_asks hask

end Faithful

/-- The graph finds the body that the name stands for. -/
theorem body_routine? (p : Program) (f : Text) :
    ((ofProgram p : CallGraph ω).routine? f).map Routine.body = (p.resolve? f).bind p.body? := by
  have hg : (ofProgram p : CallGraph ω).Faithful := faithful_ofProgram p
  rw [← declaredName?_ofProgram (ω := ω), declaredName?]
  cases hroutine : (ofProgram p : CallGraph ω).routine? f with
  | none => rfl
  | some routine =>
    rw [Option.map_some, Option.map_some, Option.bind_some, ← get?_routines (ω := ω),
      hg.get?_of_routine? hroutine]
    rfl

/-- Routines of the graph ask for each other as those of the module do. -/
theorem asks_ofProgram (p : Program) : (ofProgram p : CallGraph ω).Asks = p.Asks := by
  funext f e
  apply propext
  rw [Asks, Program.Asks, Program.askedBy, ← body_routine? (ω := ω)]
  simp only [← declaredName?_ofProgram (ω := ω)]
  cases (ofProgram p : CallGraph ω).routine? f with
  | none => simp
  | some routine => simp

end

/-! ## Explored routines -/

section

variable [Weight ω] {g : CallGraph ω} {context : Context ω} {R : Text → Prop} {busy : List Text}
  {r : Readings ω}

/-- A call stands for no routine, or for one that has a signature or is being read. -/
def Covers (g : CallGraph ω) (busy : List Text) (r : Readings ω) (c : CallSite) : Prop :=
  ∀ d, g.declaredName? c.callee = some d → d ∈ r.analyzed.keys ∨ d ∈ busy

/-- Every signature was made from the routine that its name finds. -/
def Made (g : CallGraph ω) (t : Signatures ω) : Prop :=
  t.All fun k s => ∃ routine returns, g.routine? k = some routine ∧
    s = signatureOf k routine returns

/-- While the given routines are being read, there are signatures for some of the routines in a set;
and what their readings asked for has a signature or is being read. -/
structure Explored (g : CallGraph ω) (R : Text → Prop) (busy : List Text)
    (r : Readings ω) : Prop where
  inProgress : r.inProgress = busy
  made : g.Made r.analyzed
  new : ∀ b ∈ busy, b ∉ r.analyzed.keys
  within : ∀ k ∈ r.analyzed.keys, R k
  closed : ∀ k ∈ r.analyzed.keys, ∀ d, g.Asks k d → d ∈ r.analyzed.keys ∨ d ∈ busy

namespace Explored

theorem empty (g : CallGraph ω) (R : Text → Prop) (busy : List Text) :
    g.Explored R busy ⟨.empty, busy⟩ := by
  refine ⟨rfl, .empty, ?_, ?_, ?_⟩
  · exact fun _ _ => List.not_mem_nil
  · exact fun _ hk => absurd hk List.not_mem_nil
  · exact fun _ hk => absurd hk List.not_mem_nil

/-- Starting on a new routine keeps the readings explored. -/
theorem start (h : g.Explored R busy r) {name : Text} (hnew : name ∉ r.analyzed.keys) :
    g.Explored R (name :: busy) (r.start name) := by
  refine ⟨congrArg (List.cons name) h.inProgress, h.made, ?_, h.within, ?_⟩
  · exact List.forall_mem_cons.2 ⟨hnew, h.new⟩
  · intro k hk d hd
    exact (h.closed k hk d hd).imp_right (List.mem_cons_of_mem name)

/-- The reading of a routine ends when all that it asks is covered. -/
theorem finish {name : Text} (h : g.Explored R (name :: busy) r) (hname : R name)
    (hidle : name ∉ busy) {routine : Routine ω} (hroutine : g.routine? name = some routine)
    (hcovers : ∀ c ∈ Stmt.askedIn routine.body, g.Covers (name :: busy) r c)
    (returns : List (Resolution ω)) :
    g.Explored R busy (r.finish name (signatureOf name routine returns)) := by
  have hkeys : ∀ k, k ∈ (r.finish name (signatureOf name routine returns)).analyzed.keys ↔
      k = name ∨ k ∈ r.analyzed.keys := fun _ => Table.mem_keys_insert
  have hmove : ∀ d, d ∈ r.analyzed.keys ∨ d ∈ name :: busy →
      d ∈ (r.finish name (signatureOf name routine returns)).analyzed.keys ∨ d ∈ busy := by
    intro d hd
    rw [hkeys]
    rcases hd with hd | hd
    · exact .inl (.inr hd)
    · rcases List.mem_cons.1 hd with rfl | hd
      · exact .inl (.inl rfl)
      · exact .inr hd
  refine ⟨?_, h.made.insert ⟨routine, returns, hroutine, rfl⟩, ?_, ?_, ?_⟩
  · show r.inProgress.filter (fun m => m != name) = busy
    rw [h.inProgress, List.filter_cons_of_neg (by simp), List.filter_eq_self]
    exact fun m hm => bne_iff_ne.2 fun heq => hidle (heq ▸ hm)
  · intro b hb hmem
    rcases (hkeys b).1 hmem with rfl | hmem
    · exact hidle hb
    · exact h.new b (List.mem_cons_of_mem name hb) hmem
  · intro k hk
    rcases (hkeys k).1 hk with rfl | hk
    · exact hname
    · exact h.within k hk
  · intro k hk d hd
    rcases (hkeys k).1 hk with rfl | hk
    · obtain ⟨routine', hroutine', c, hc, hcd⟩ := hd
      rw [hroutine, Option.some.injEq] at hroutine'
      exact hmove d (hcovers c (hroutine' ▸ hc) d hcd)
    · exact hmove d (h.closed k hk d hd)

/-- Where all that a routine asks is covered, all routines to which it leads are. -/
theorem covers_transGen (h : g.Explored R busy r) {d : Text} (hbusy : ∀ b ∈ busy, b = d)
    (hd : ∀ e, g.Asks d e → e ∈ r.analyzed.keys ∨ e ∈ busy) {k : Text}
    (hk : Relation.TransGen g.Asks d k) :
    k ∈ r.analyzed.keys ∨ k ∈ busy := by
  induction hk with
  | single hask => exact hd _ hask
  | tail _ hask ih =>
    rcases ih with hmem | hmem
    · exact h.closed _ hmem _ hask
    · exact hd _ (hbusy _ hmem ▸ hask)

end Explored

/-- Reading a routine of the set keeps what is explored, adds to it and covers the routine. -/
def Explores (g : CallGraph ω) (R : Text → Prop) (busy : List Text)
    (read : Text → StateM (Readings ω) (Option (Signature ω))) : Prop :=
  ∀ d ∈ g.routines.keys, d ∉ busy → R d → ∀ r, g.Explored R busy r →
    g.Explored R busy (read d r).2 ∧ r.analyzed.keys ⊆ (read d r).2.analyzed.keys ∧
      d ∈ (read d r).2.analyzed.keys

/-- A body leaves what it asks covered, if the routines that it asks for are read so. -/
theorem explored_block (hg : g.Faithful) {read : Text → StateM (Readings ω) (Option (Signature ω))}
    (hread : g.Explores R busy read) (name : Text) {body : List Stmt}
    (hbody : ∀ c ∈ Stmt.askedIn body, ∀ d, g.declaredName? c.callee = some d → R d)
    {st : BodyState ω (Readings ω)} (hst : g.Explored R busy st.state) :
    let st' := BodyState.block name (answer Readings.notebook g context read) body st
    g.Explored R busy st'.state ∧ st.state.analyzed.keys ⊆ st'.state.analyzed.keys ∧
      ∀ c ∈ Stmt.askedIn body, g.Covers busy st'.state c := by
  -- The reading is compared with itself; what counts are the calls that were asked.
  let Q (done : List CallSite) (s s' : Readings ω) : Prop :=
    s = s' ∧ g.Explored R busy s ∧ st.state.analyzed.keys ⊆ s.analyzed.keys ∧
      ∀ c ∈ done, g.Covers busy s c
  have hagree : BodyState.AgreeOn Q (answer Readings.notebook g context read)
    (answer Readings.notebook g context read)
      (Stmt.askedIn body) := by
    rintro c hc args done s _ ⟨rfl, hs, hsub, hdone⟩
    refine ⟨rfl, c :: done, List.subset_cons_self _ _, by simp, rfl, ?_⟩
    cases hd : g.declaredName? c.callee with
    | none =>
      rw [answer_of_undeclared Readings.notebook read args hd]
      refine ⟨hs, hsub, List.forall_mem_cons.2 ⟨?_, hdone⟩⟩
      exact fun d hcd => nomatch hd.symm.trans hcd
    | some d =>
      by_cases hin : d ∈ busy
      · have hprogress : d ∈ s.inProgress := hs.inProgress ▸ hin
        rw [answer_of_mem Readings.notebook read args hd hprogress]
        refine ⟨hs, hsub, List.forall_mem_cons.2 ⟨?_, hdone⟩⟩
        intro d' hd'
        rw [hd, Option.some.injEq] at hd'
        exact .inr (hd' ▸ hin)
      · have hprogress : d ∉ s.inProgress := hs.inProgress ▸ hin
        obtain ⟨hexplored, hgrows, hmem⟩ :=
          hread d (hg.mem_of_declaredName? hd) hin (hbody c hc d hd) s hs
        rw [answer_of_not_mem Readings.notebook read args hd hprogress]
        refine ⟨hexplored, List.Subset.trans hsub hgrows, List.forall_mem_cons.2 ⟨?_, ?_⟩⟩
        · intro d' hd'
          rw [hd, Option.some.injEq] at hd'
          exact .inl (hd' ▸ hmem)
        · exact fun c' hc' d' hd' => (hdone c' hc' d' hd').imp_left fun h => hgrows h
  have hstart : BodyState.InStep (Q []) st st :=
    ⟨⟨rfl, hst, List.Subset.refl _, fun _ h => absurd h List.not_mem_nil⟩, rfl, rfl, rfl⟩
  obtain ⟨done, -, hasked, hstep⟩ := BodyState.asking_block name body hagree hstart
  obtain ⟨-, hexplored, hgrows, hcovers⟩ := hstep.state
  exact ⟨hexplored, hgrows, fun c hc => hcovers c (hasked hc)⟩

/-- **Readings explore.** By induction on the depth: every nested reading puts one more declared
routine in progress, so the depth is enough to come to all routines that are asked for. -/
theorem explores_read (hg : g.Faithful) (hR : ∀ u d, R u → g.Asks u d → R d) (n : Nat)
    (hnodup : busy.Nodup) (hbusy : busy ⊆ g.routines.keys)
    (hn : g.routines.keys.length ≤ n + busy.length) :
    g.Explores R busy (read Readings.notebook g context n) := by
  induction n generalizing busy with
  | zero =>
    intro d hd hidle
    have hlen := (List.nodup_cons.2 ⟨hidle, hnodup⟩).length_le_of_subset
      (List.cons_subset.2 ⟨hd, hbusy⟩)
    rw [List.length_cons] at hlen
    omega
  | succ n ih =>
    intro d hd hidle hRd r hr
    rw [read]
    cases hget : r.analyzed.get? d with
    | some signature =>
      rw [readWith_of_analyzed Readings.notebook g context _ hget]
      exact ⟨hr, List.Subset.refl _, Table.mem_keys_iff.2 ⟨signature, hget⟩⟩
    | none =>
      obtain ⟨routine, hroutine, -⟩ := Faithful.routine?_eq hd
      have hdeeper : g.Explores R (d :: busy) (read Readings.notebook g context n) :=
        ih (List.nodup_cons.2 ⟨hidle, hnodup⟩) (List.cons_subset.2 ⟨hd, hbusy⟩)
          (by rw [List.length_cons]; omega)
      obtain ⟨hwalk, hgrows, hcovers⟩ : g.Explored R (d :: busy)
            (walk Readings.notebook g context (read Readings.notebook g context n) d routine
              r).state ∧ _ ∧ _ :=
        explored_block hg hdeeper d (fun c hc e he => hR d e hRd ⟨routine, hroutine, c, hc, he⟩)
          (hr.start (Table.get?_eq_none_iff.1 hget))
      rw [readWith_of_new Readings.notebook g context _ hget hroutine]
      refine ⟨hwalk.finish hRd hidle hroutine hcovers _, ?_, Table.mem_keys_insert.2 (.inl rfl)⟩
      exact fun k hk => Table.mem_keys_insert.2 (.inr (hgrows hk))

/-- The end of the body of a routine that is read under a name, where no signatures are there yet
and the given routines count as being read. -/
def readBody (g : CallGraph ω) (context : Context ω) (routine : Routine ω) (name : Text)
    (busy : List Text) : BodyState ω (Readings ω) :=
  BodyState.block name (answer Readings.notebook g context
    (read Readings.notebook g context g.routines.size))
    routine.body ⟨⟨.empty, busy⟩,
      context.vars.insertAll (routine.params.map fun p => (p.name, p.type)), [], 0⟩

/-- The first routine to be read makes its signature from its body. -/
theorem analyze_empty {routine : Routine ω} {name : Text}
    (hroutine : g.routine? name = some routine) :
    g.analyze context name .empty =
      (some (signatureOf name routine (g.readBody context routine name [name]).returns),
        (g.readBody context routine name [name]).state.finish name
          (signatureOf name routine (g.readBody context routine name [name]).returns)) :=
  readWith_of_new (s := .empty) Readings.notebook g context
    (read Readings.notebook g context g.routines.size) rfl hroutine

/-- The body of a declared routine, read while nothing else or only the routine itself is being
read, comes to the routines to which asked calls lead from it. -/
theorem explored_body (hg : g.Faithful) (context : Context ω) {d : Text} {routine : Routine ω}
    (hd : d ∈ g.routines.keys) (hroutine : g.routine? d = some routine) (hnodup : busy.Nodup)
    (hbusy : ∀ b ∈ busy, b = d) (name : Text) :
    let st := g.readBody context routine name busy
    g.Made st.state.analyzed ∧ ∀ k, k ∈ st.state.analyzed.keys ↔
      k ∉ busy ∧ Relation.TransGen g.Asks d k := by
  intro st
  have hread : g.Explores (Relation.TransGen g.Asks d) busy
      (read Readings.notebook g context g.routines.size) := by
    refine explores_read hg (fun _ _ hu hask => hu.tail hask) _ hnodup ?_ ?_
    · exact fun b hb => hbusy b hb ▸ hd
    · rw [Table.size_eq_length_keys]
      omega
  obtain ⟨hexplored, -, hcovers⟩ : g.Explored (Relation.TransGen g.Asks d) busy st.state ∧ _ ∧ _ :=
    explored_block hg hread name (fun c hc e he => .single ⟨routine, hroutine, c, hc, he⟩)
      (Explored.empty g _ busy)
  refine ⟨hexplored.made, ?_⟩
  intro k
  constructor
  · exact fun hk => ⟨fun hb => hexplored.new k hb hk, hexplored.within k hk⟩
  · rintro ⟨hidle, hk⟩
    refine (hexplored.covers_transGen hbusy ?_ hk).resolve_right hidle
    rintro e ⟨routine', hroutine', c, hc, he⟩
    rw [hroutine, Option.some.injEq] at hroutine'
    exact hcovers c (hroutine' ▸ hc) e he

end

/-! ## Names aside -/

section

variable [Weight ω] {g : CallGraph ω} {context : Context ω} {x : Text}

/-- One more name counts as being read. -/
structure Aside (x : Text) (r r' : Readings ω) : Prop where
  analyzed : r'.analyzed = r.analyzed
  inProgress : r'.inProgress = r.inProgress ++ [x]

/-- A call that does not name the routine set aside is answered alike with and without it. -/
theorem agree_answer_aside {read : Text → StateM (Readings ω) (Option (Signature ω))} {name : Text}
    (hread : ∀ d, g.declaredName? name = some d → d ≠ x ∧ Agree (Aside x) (read d) (read d))
    (args : List (Resolution ω)) :
    Agree (Aside x) (answer Readings.notebook g context read name args)
      (answer Readings.notebook g context read name args) := by
  intro r r' hr
  cases hd : g.declaredName? name with
  | none =>
    rw [answer_of_undeclared Readings.notebook read args hd,
      answer_of_undeclared Readings.notebook read args hd]
    exact ⟨rfl, hr⟩
  | some d =>
    obtain ⟨hne, hread⟩ := hread d hd
    have hiff : d ∈ r'.inProgress ↔ d ∈ r.inProgress := by simp [hr.inProgress, hne]
    by_cases hin : d ∈ r.inProgress
    · rw [answer_of_mem Readings.notebook read args hd hin,
        answer_of_mem Readings.notebook read args hd (hiff.2 hin)]
      exact ⟨rfl, hr⟩
    · rw [answer_of_not_mem Readings.notebook read args hd hin,
        answer_of_not_mem Readings.notebook read args hd fun h => hin (hiff.1 h)]
      obtain ⟨hvalue, hstate⟩ := hread r r' hr
      rw [hvalue]
      exact ⟨rfl, hstate⟩

/-- A name aside makes no difference to the reading of a body, if it is not asked for and makes none
to the routines that are. -/
theorem inStep_aside {S : Text → Prop} (hx : ¬ S x)
    {read : Text → StateM (Readings ω) (Option (Signature ω))}
    (hread : ∀ d, S d → Agree (Aside x) (read d) (read d)) (name : Text) {body : List Stmt}
    (hbody : ∀ c ∈ Stmt.askedIn body, ∀ d, g.declaredName? c.callee = some d → S d)
    {st st' : BodyState ω (Readings ω)} (h : BodyState.InStep (Aside x) st st') :
    BodyState.InStep (Aside x)
      (BodyState.block name (answer Readings.notebook g context read) body st)
        (BodyState.block name (answer Readings.notebook g context read) body st') := by
  refine BodyState.inStep_block name body ?_ h
  intro c hc args
  refine agree_answer_aside (fun d hd => ?_) args
  have hSd := hbody c hc d hd
  exact ⟨fun heq => hx (heq ▸ hSd), hread d hSd⟩

/-- **A name aside makes no difference** to the reading of a routine from which no asked call leads
to it. By induction on the depth. -/
theorem agree_read_aside {S : Text → Prop} (hx : ¬ S x) (hS : ∀ u d, S u → g.Asks u d → S d)
    (n : Nat) {name : Text} (hname : S name) :
    Agree (Aside x) (read Readings.notebook g context n name)
      (read Readings.notebook g context n name) := by
  induction n generalizing name with
  | zero => exact .pure none
  | succ n ih =>
    intro r r' hr
    rw [read]
    cases hget : r.analyzed.get? name with
    | some signature =>
      have hget' : r'.analyzed.get? name = some signature := by rw [hr.analyzed, hget]
      rw [readWith_of_analyzed Readings.notebook g context _ hget,
        readWith_of_analyzed Readings.notebook g context _ hget']
      exact ⟨rfl, hr⟩
    | none =>
      have hget' : r'.analyzed.get? name = none := by rw [hr.analyzed, hget]
      cases hroutine : g.routine? name with
      | none =>
        rw [readWith_of_undeclared Readings.notebook g context _ hget hroutine,
          readWith_of_undeclared Readings.notebook g context _ hget' hroutine]
        exact ⟨rfl, hr⟩
      | some routine =>
        have hstart : Aside x (r.start name) (r'.start name) := by
          refine ⟨hr.analyzed, ?_⟩
          show name :: r'.inProgress = name :: r.inProgress ++ [x]
          rw [hr.inProgress, List.cons_append]
        have hstep : BodyState.InStep (Aside x)
            (walk Readings.notebook g context (read Readings.notebook g context n) name routine r)
            (walk Readings.notebook g context (read Readings.notebook g context n) name
              routine r') :=
          inStep_aside hx (fun d hd => ih hd) name
            (fun c hc d hd => hS name d hname ⟨routine, hroutine, c, hc, hd⟩)
              ⟨hstart, rfl, rfl, rfl⟩
        rw [readWith_of_new Readings.notebook g context _ hget hroutine,
          readWith_of_new Readings.notebook g context _ hget' hroutine, ← hstep.returns]
        refine ⟨rfl, ?_, ?_⟩
        · exact congrArg (fun t => Table.insert t name _) hstep.state.analyzed
        · show List.filter _ _ = List.filter _ _ ++ [x]
          have hkept : (x != name) = true := bne_iff_ne.2 fun h => hx (h ▸ hname)
          rw [hstep.state.inProgress, List.filter_append, List.filter_singleton, hkept]
          rfl

end

end CallGraph

end Gradual
