import Gradual.Proofs.Calls.Alongside
import Gradual.Proofs.Calls.Reach
import Gradual.Proofs.Types.Sameness

/-!
# Spellings of a routine's name

A routine can be read under any spelling of its name. Its signature is kept under that spelling, and
only the declared one is looked for when a call comes back to the routine. So a routine that leads
back to itself is read a second time under its declared name, and what is found there goes into the
signature. Where it does not lead back, the spelling is seen in the name of the signature and in the
origins of types, and nowhere else.

Main statement: `CallGraph.analyze_spelled`.
-/

namespace Gradual

variable {ω : Type}

/-! ## Origins under two names -/

/-- Not made while a routine was read under the name. -/
def Origin.NotOf (f : Text) : Origin → Prop
  | .bound routine _ _ => routine ≠ f
  | .result routine => routine ≠ f
  | _ => True

/-- What a routine has not bound has no origin there. -/
theorem Origin.NotOf.ne_bound {f : Text} {o : Origin} (h : o.NotOf f) (step : Nat) (name : Text) :
    o ≠ .bound f step name := by
  rintro rfl
  exact h rfl

/-- What a routine has not returned has no origin there. -/
theorem Origin.NotOf.ne_result {f : Text} {o : Origin} (h : o.NotOf f) : o ≠ .result f := by
  rintro rfl
  exact h rfl

/-- The same origins, up to two names of a routine. -/
inductive Origin.Respelled (n d : Text) : Origin → Origin → Prop
  | bound (step : Nat) (name : Text) : Respelled n d (.bound n step name) (.bound d step name)
  | result : Respelled n d (.result n) (.result d)
  | other {o : Origin} : o.NotOf n → o.NotOf d → Respelled n d o o

/-- The same origins are shared, since what is of one of the names is not among the other
origins. -/
theorem Origin.Respelled.eq_iff {n d : Text} {a a' b b' : Origin} (ha : a.Respelled n d a')
    (hb : b.Respelled n d b') : a = b ↔ a' = b' := by
  cases ha with
  | bound step name =>
    cases hb with
    | bound => simp
    | result => simp
    | other hn hd => exact iff_of_false (hn.ne_bound step name).symm (hd.ne_bound step name).symm
  | result =>
    cases hb with
    | bound => simp
    | result => simp
    | other hn hd => exact iff_of_false hn.ne_result.symm hd.ne_result.symm
  | other hn hd =>
    cases hb with
    | bound step name => exact iff_of_false (hn.ne_bound step name) (hd.ne_bound step name)
    | result => exact iff_of_false hn.ne_result hd.ne_result
    | other => rfl

/-- Respelling pairs recorded origins one to one. -/
theorem Origin.pairing_respelled (n d : Text) : Origin.Pairing (Origin.Respelled n d) :=
  ⟨.other trivial trivial, Origin.Respelled.eq_iff⟩

namespace Resolution

variable {n d : Text} {r r' : Resolution ω}

/-- The same resolution, up to two names of a routine. -/
abbrev Respelled (n d : Text) (r r' : Resolution ω) : Prop := r.UpTo (Origin.Respelled n d) r'

/-- Respelled resolutions say the same. -/
theorem sameness_respelled (n d : Text) : Sameness (Respelled (ω := ω) n d) :=
  sameness_upTo (Origin.pairing_respelled n d)

/-- Recording at respelled origins keeps resolutions respelled. -/
theorem Respelled.recordAt (h : r.Respelled n d r') {o o' : Origin} (ho : o.Respelled n d o') :
    (r.recordAt o).Respelled n d (r'.recordAt o') :=
  UpTo.recordAt (Origin.pairing_respelled n d) h (fun _ _ h => h) ho

end Resolution

/-- Two readings of one routine under two names. Every blend keeps this. -/
def Comparison.respelling (ω : Type) [Weight ω] (n d : Text) : Comparison ω where
  World := Unit
  le _ _ := True
  reached _ i j := i = j
  rel _ := Resolution.Respelled n d
  keeps _ _ := True
  le_refl _ := trivial
  le_trans _ _ := trivial
  rel_mono _ h := h
  rel_fresh _ _ h := (Resolution.sameness_respelled n d).fresh h
  rel_enter h := ⟨(), trivial, congrArg Nat.succ h,
    fun _ _ _ hrs => hrs.recordAt (h ▸ .other trivial trivial)⟩
  rel_ofBinary {_ op} _ _ _ _ hl hr _ := (Resolution.sameness_respelled n d).ofBinary op hl hr
  rel_ofUnary {_ op} _ _ h := (Resolution.sameness_respelled n d).ofUnary op h
  rel_choose ha hb _ := (Resolution.sameness_respelled n d).choose ha hb
  rel_resultOf hf h := (Resolution.sameness_respelled n d).resultOf hf h
  rel_join h _ name := (Resolution.sameness_respelled n d).join
    (Variables.forall₂_filterMap_get? h name)
  rel_returned h _ := (Resolution.sameness_respelled n d).join h

namespace Comparison

variable [Weight ω] {n d : Text}

/-- What is made under the two names is recorded under the two names. -/
theorem records_respelling (n d : Text) : (respelling ω n d).Records () n d :=
  ⟨fun step name h => Resolution.Respelled.recordAt h (.bound step name),
    fun h => Resolution.Respelled.recordAt h .result⟩

/-- A routine of neither spelling records alike in both readings. -/
theorem records_respelling_of_ne {e : Text} (hn : e ≠ n) (hd : e ≠ d) :
    (respelling ω n d).Records () e e :=
  ⟨fun _ _ h => Resolution.Respelled.recordAt h (.other hn hd),
    fun h => Resolution.Respelled.recordAt h (.other hn hd)⟩

/-- Nothing is asked of the values that are turned into one. -/
theorem passes_respelling (k k' : List (Blend ω)) : (respelling ω n d).Passes k k' :=
  fun _ _ => trivial

end Comparison

/-! ## What comes from outside -/

/-- Nothing in the context was made while a routine was read under the name. -/
structure Context.NotOf (f : Text) (c : Context ω) : Prop where
  vars : c.vars.All fun _ r => r.origin.NotOf f
  functions : c.functions.All fun _ s => (∀ p ∈ s.params, p.type.origin.NotOf f) ∧
    s.returns.origin.NotOf f

/-- The parameters of a routine have no origin in any routine. -/
theorem Routine.notOf_param {s : Stmt} {routine : Routine ω} (h : Routine.ofStmt? s = some routine)
    {q : RoutineParam ω} (hq : q ∈ routine.params) (f : Text) : q.type.origin.NotOf f := by
  cases s with
  | routine kind name params body exported loc =>
    cases h
    obtain ⟨i, hi, rfl⟩ := List.mem_mapIdx.1 hq
    show ((params[i].type : Resolution ω).recordAt (.parameter name i)).origin.NotOf f
    rw [Resolution.recordAt, if_pos (Param.origin_type _)]
    trivial
  | _ => cases h

theorem CallGraph.notOf_param (p : Program) {name : Text} {routine : Routine ω}
    (h : (ofProgram p : CallGraph ω).routine? name = some routine) {q : RoutineParam ω}
    (hq : q ∈ routine.params) (f : Text) : q.type.origin.NotOf f := by
  obtain ⟨r, hr, heq⟩ := List.mem_map.1
    (Table.mem_of_get?_ofList ((faithful_ofProgram p).get?_of_routine? h))
  obtain rfl : r = routine := congrArg Prod.snd heq
  obtain ⟨s, -, hs⟩ := List.mem_filterMap.1 hr
  exact Routine.notOf_param hs hq f

/-! ## Signatures without origins -/

/-- A signature without the origin of its result. -/
def Signature.unrecorded (s : Signature ω) : Signature ω :=
  { s with returns := s.returns.unrecorded }

/-- Signatures without the origins of their results. -/
def Signatures.unrecorded (t : Signatures ω) : Signatures ω := t.map fun _ s => s.unrecorded

/-- A new signature goes to the end of the signatures without origins. -/
theorem Signatures.entries_unrecorded_insert {t : Signatures ω} {k : Text} (hk : k ∉ t.keys)
    (s : Signature ω) :
    (Signatures.unrecorded (t.insert k s)).entries =
      t.unrecorded.entries ++ [(k, s.unrecorded)] := by
  show (t.insert k s).entries.map _ = t.entries.map _ ++ _
  rw [Table.entries_insert hk, List.map_append]
  rfl

namespace CallGraph

variable [Weight ω] {g : CallGraph ω} {context : Context ω} {n d : Text} {routine : Routine ω}

/-- Signatures that are made of the same routines differ in their results at most. -/
theorem unrecorded_eq_of_beside {O : Origin → Origin → Prop} {t t' : Signatures ω}
    (h : Table.Beside (Signature.Beside (Resolution.UpTo O)) t t')
    (hmade : g.Made t) (hmade' : g.Made t') : t.unrecorded = t'.unrecorded := by
  have hbeside : Table.Beside (fun s s' : Signature ω => s.unrecorded = s'.unrecorded) t t' := by
    refine ⟨h.keys_eq, ?_⟩
    intro k s s' hs hs'
    have hreturns := (h.values k s s' hs hs').returns.unrecorded_eq
    obtain ⟨routine, returns, hroutine, rfl⟩ := hmade k s hs
    obtain ⟨routine', returns', hroutine', rfl⟩ := hmade' k s' hs'
    rw [hroutine, Option.some.injEq] at hroutine'
    subst hroutine'
    exact congrArg (fun r => (⟨signatureParams routine, r, routine.exported⟩ : Signature ω))
      hreturns
  exact (hbeside.map fun _ _ _ hs => hs).eq

/-! ## Two readings of a body -/

/-- **Under two names a body is read alike**, as long as its declared name counts as being read both
times. -/
theorem alongside_readBody (hg : g.Faithful)
    (hparams : ∀ name routine, g.routine? name = some routine →
      ∀ q ∈ routine.params, ∀ f, q.type.origin.NotOf f)
    (hn : context.NotOf n) (hd : context.NotOf d) (hnew : n ∉ g.routines.keys)
    (hroutine : g.routine? d = some routine) :
    BodyState.Alongside (Resolution.Respelled n d)
      (Readings.BesideWhile (Resolution.Respelled n d) [d]) (g.readBody context routine n [d])
      (g.readBody context routine d [d]) := by
  have hself : ∀ r : Resolution ω, r.origin.NotOf n → r.origin.NotOf d → r.Respelled n d r :=
    fun _ hn hd => ⟨rfl, .other hn hd⟩
  have hvars : Table.Beside (Resolution.Respelled n d) context.vars context.vars :=
    .refl fun k r hr => hself r (hn.vars k r hr) (hd.vars k r hr)
  have hfunctions : Table.Beside (Signature.Beside (Resolution.Respelled n d)) context.functions
      context.functions := by
    refine .refl fun k s hs => ?_
    obtain ⟨hn, hnr⟩ := hn.functions k s hs
    obtain ⟨hd, hdr⟩ := hd.functions k s hs
    exact ⟨List.forall₂_same.2 fun p hp => hself p.type (hn p hp) (hd p hp),
      hself s.returns hnr hdr⟩
  have htypes : ∀ name routine, g.routine? name = some routine → ∀ q ∈ routine.params,
      q.type.Respelled n d q.type := fun name routine hroutine q hq =>
    hself q.type (hparams name routine hroutine q hq n) (hparams name routine hroutine q hq d)
  -- A routine that is read on the way is declared and not the one that is being read.
  have hrecords : ∀ name e, g.declaredName? name = some e → e ∉ [d] →
      (Comparison.respelling ω n d).Records () e e := by
    intro name e he hidle
    refine Comparison.records_respelling_of_ne ?_ ?_
    · exact fun heq => hnew (heq ▸ hg.mem_of_declaredName? he)
    · exact fun heq => hidle (heq ▸ List.mem_singleton_self d)
  have hread := readAlongside_read (C := .respelling ω n d)
    (w := ()) hvars hfunctions htypes hrecords g.routines.size
  have hstart : Readings.BesideWhile (Resolution.Respelled n d) [d] (⟨.empty, [d]⟩ : Readings ω)
      ⟨.empty, [d]⟩ := ⟨⟨.empty, rfl⟩, List.Subset.refl _⟩
  exact (BodyState.alongside_block (Comparison.records_respelling n d)
    (answered_answer (C := .respelling ω n d) (w := ()) hfunctions hrecords hread) routine.body
    (BodyState.alongside_start hstart hvars (htypes d routine hroutine))
    (Comparison.passes_respelling (_ ++ []) (_ ++ []))).1

/-- A spelling that is not declared makes no difference by being counted as being read. -/
theorem inStep_undeclared (hg : g.Faithful) (context : Context ω) (hnew : n ∉ g.routines.keys)
    (routine : Routine ω) :
    BodyState.InStep (Aside n) (g.readBody context routine n [])
      (g.readBody context routine n [n]) :=
  inStep_aside (S := fun u => u ∈ g.routines.keys) hnew
    (fun _ hu => agree_read_aside hnew (fun _ _ _ hask => hg.mem_keys_of_asks hask) _ hu) n
    (fun _ _ _ he => hg.mem_of_declaredName? he) ⟨⟨rfl, rfl⟩, rfl, rfl, rfl⟩

/-- Neither does the declared name, if the routine does not lead back to itself. -/
theorem inStep_acyclic (context : Context ω) (n : Text) (hroutine : g.routine? d = some routine)
    (hcycle : ¬ Relation.TransGen g.Asks d d) :
    BodyState.InStep (Aside d) (g.readBody context routine n [])
      (g.readBody context routine n [d]) :=
  inStep_aside hcycle (fun _ hu => agree_read_aside hcycle (fun _ _ hu hask => hu.tail hask) _ hu) n
    (fun c hc _ he => .single ⟨routine, hroutine, c, hc, he⟩) ⟨⟨rfl, rfl⟩, rfl, rfl, rfl⟩

/-- **The routines that get signatures**, whichever spelling is asked for: the routine under this
spelling, and all routines to which asked calls lead from it. -/
theorem mem_keys_analyze (hg : g.Faithful) (hd : g.declaredName? n = some d) (k : Text) :
    k ∈ (g.analyze context n .empty).2.analyzed.keys ↔ k = n ∨ Relation.TransGen g.Asks d k := by
  obtain ⟨routine, hn, hroutine⟩ := hg.routine?_of_declaredName? hd
  have hmem := hg.mem_of_declaredName? hd
  rw [analyze_empty hn]
  show k ∈ ((g.readBody context routine n [n]).state.analyzed.insert n _).keys ↔ _
  rw [Table.mem_keys_insert]
  by_cases hnew : n ∈ g.routines.keys
  · obtain rfl : n = d := hg.eq_of_declaredName? hnew hd
    rw [(explored_body hg context hmem hroutine (List.nodup_singleton n)
      (fun _ => List.mem_singleton.1) n).2 k, List.mem_singleton]
    tauto
  · rw [(inStep_undeclared hg context hnew routine).state.analyzed,
      (explored_body hg context hmem hroutine List.nodup_nil
        (fun _ h => absurd h List.not_mem_nil) n).2 k]
    simp

/-- Signatures that two bodies make for one routine say the same, if the returned values are the
same up to origins. -/
theorem unrecorded_signatureOf (routine : Routine ω) {returns returns' : List (Resolution ω)}
    (h : List.Forall₂ (Resolution.Respelled n d) returns returns') :
    (signatureOf n routine returns).unrecorded = (signatureOf d routine returns').unrecorded := by
  have hpasses : (Comparison.respelling ω n d).Passes (returnBlends routine returns ++ [])
      (returnBlends routine returns' ++ []) := Comparison.passes_respelling _ _
  have hreturn := (rel_returnType (C := .respelling ω n d) (w := ()) routine h hpasses).1
  have hrecorded : Resolution.Respelled n d _ _ :=
    (Comparison.records_respelling n d).result hreturn
  exact congrArg (fun r => (⟨signatureParams routine, r, routine.exported⟩ : Signature ω))
    hrecorded.unrecorded_eq

/-- **A routine that does not lead back to itself** has the same signature under every spelling, and
the same signatures are made before it. -/
theorem analyze_of_acyclic (hg : g.Faithful)
    (hparams : ∀ name routine, g.routine? name = some routine →
      ∀ q ∈ routine.params, ∀ f, q.type.origin.NotOf f)
    (hn : context.NotOf n) (hd : context.NotOf d) (hname : g.declaredName? n = some d)
    (hcycle : ¬ Relation.TransGen g.Asks d d) :
    ∃ (before : List (Text × Signature ω)) (s : Signature ω),
      (g.analyze context n .empty).1.map Signature.unrecorded = some s ∧
      (g.analyze context d .empty).1.map Signature.unrecorded = some s ∧
      (g.analyze context n .empty).2.analyzed.unrecorded.entries = before ++ [(n, s)] ∧
      (g.analyze context d .empty).2.analyzed.unrecorded.entries = before ++ [(d, s)] := by
  obtain ⟨routine, hroutine, hroutine'⟩ := hg.routine?_of_declaredName? hname
  have hmem := hg.mem_of_declaredName? hname
  rw [analyze_empty hroutine, analyze_empty hroutine']
  obtain ⟨hmade', hkeys'⟩ := explored_body hg context hmem hroutine' (List.nodup_singleton d)
    (fun _ => List.mem_singleton.1) d
  have hlast' : d ∉ (g.readBody context routine d [d]).state.analyzed.keys :=
    fun h => ((hkeys' d).1 h).1 (List.mem_singleton_self d)
  refine ⟨(g.readBody context routine d [d]).state.analyzed.unrecorded.entries,
    (signatureOf d routine (g.readBody context routine d [d]).returns).unrecorded, ?_⟩
  by_cases hnew : n ∈ g.routines.keys
  · obtain rfl : n = d := hg.eq_of_declaredName? hnew hname
    exact ⟨rfl, rfl, Signatures.entries_unrecorded_insert hlast' _,
      Signatures.entries_unrecorded_insert hlast' _⟩
  · -- From the given spelling to none, to the declared name, and then to the routine that has it.
    have hspelled := inStep_undeclared hg context hnew routine
    have hdeclared := inStep_acyclic context n hroutine' hcycle
    have hbody := alongside_readBody hg hparams hn hd hnew hroutine'
    obtain ⟨hmade, hkeys⟩ := explored_body hg context hmem hroutine' List.nodup_nil
      (fun _ h => absurd h List.not_mem_nil) n
    have hlast : n ∉ (g.readBody context routine n [n]).state.analyzed.keys := by
      rw [hspelled.state.analyzed]
      exact fun h => hnew (hg.mem_keys_of_transGen ((hkeys n).1 h).2)
    have hreturns := hbody.returns
    rw [← hdeclared.returns, hspelled.returns] at hreturns
    have hanalyzed := hbody.state.1.analyzed
    rw [hdeclared.state.analyzed] at hanalyzed
    have htable : (g.readBody context routine n [n]).state.analyzed.unrecorded =
        (g.readBody context routine d [d]).state.analyzed.unrecorded := by
      rw [hspelled.state.analyzed]
      exact unrecorded_eq_of_beside hanalyzed hmade hmade'
    have hsignature := unrecorded_signatureOf routine hreturns
    refine ⟨congrArg some hsignature, rfl, ?_, Signatures.entries_unrecorded_insert hlast' _⟩
    rw [← htable, ← hsignature]
    exact Signatures.entries_unrecorded_insert hlast _

end CallGraph

/-- **Spellings of a routine's name.** For every program, every context from outside of the readings
and every spelling of a declared routine: the routine gets a signature under the spelling, with the
same parameters as under its declared name. Signatures are then kept for the spelling and for all
routines to which asked calls lead, so under declared names only if and only if the spelling is the
declared one. If the routine does not lead back to itself, its signature is the same under both
names, up to the origin of its result, and so are those that are made before it. -/
theorem CallGraph.analyze_spelled [Weight ω] (p : Program) (context : Context ω) {n d : Text}
    (hd : (ofProgram p : CallGraph ω).declaredName? n = some d)
    (hcontext : ∀ f ∈ [n, d], context.NotOf f) :
    let g : CallGraph ω := .ofProgram p
    let spelled := g.analyze context n .empty
    let declared := g.analyze context d .empty
    (∃ s s', spelled.1 = some s ∧ declared.1 = some s' ∧ s.params = s'.params ∧
      s.exported = s'.exported) ∧
    (∀ k, k ∈ spelled.2.analyzed.keys ↔ k = n ∨ Relation.TransGen p.Asks d k) ∧
    ((∀ k ∈ spelled.2.analyzed.keys, k ∈ p.routineNames) ↔ n = d) ∧
    (¬ Relation.TransGen p.Asks d d → ∃ (before : List (Text × Signature ω)) (s : Signature ω),
      spelled.1.map Signature.unrecorded = some s ∧ declared.1.map Signature.unrecorded = some s ∧
      spelled.2.analyzed.unrecorded.entries = before ++ [(n, s)] ∧
      declared.2.analyzed.unrecorded.entries = before ++ [(d, s)]) := by
  intro g spelled declared
  have hg : g.Faithful := faithful_ofProgram p
  have hasks : g.Asks = p.Asks := asks_ofProgram p
  have hkeys : ∀ k, k ∈ spelled.2.analyzed.keys ↔ k = n ∨ Relation.TransGen p.Asks d k :=
    hasks ▸ mem_keys_analyze hg hd
  refine ⟨?_, hkeys, ?_, ?_⟩
  · obtain ⟨routine, hroutine, hroutine'⟩ := hg.routine?_of_declaredName? hd
    exact ⟨_, _, congrArg Prod.fst (analyze_empty hroutine),
      congrArg Prod.fst (analyze_empty hroutine'), rfl, rfl⟩
  · constructor
    · intro hall
      have hn : n ∈ g.routines.keys :=
        mem_keys_iff_mem_routineNames.2 (hall n ((hkeys n).2 (.inl rfl)))
      exact hg.eq_of_declaredName? hn hd
    · rintro rfl k hk
      rw [← mem_keys_iff_mem_routineNames (ω := ω)]
      rcases (hkeys k).1 hk with rfl | hk
      · exact hg.mem_of_declaredName? hd
      · exact hg.mem_keys_of_transGen (hasks ▸ hk)
  · intro hcycle
    exact analyze_of_acyclic hg (fun _ _ h _ => notOf_param p h) (hcontext n (by simp))
      (hcontext d (by simp)) hd (hasks ▸ hcycle)

/-- In capitals, a function is read that calls another and itself: the second call stands in a
condition, so it is not asked and the function does not lead back to itself. -/
theorem CallGraph.analyze_spelled_capitals :
    let condition : Expr := .call (.ident "Два" none) [] none
    let p : Program :=
      [.routine .function "Два" []
          [.conditional condition [.ret (some (.call (.ident "Один" none) [] none)) none] .none
            none] false none,
        .routine .function "Один" [] [.ret (some (.number 1 none)) none] false none]
    let context : Context Float := .make .global .empty
    let n : Text := "ДВА"
    let d : Text := "Два"
    let spelled := (ofProgram p).analyze context n .empty
    let declared := (ofProgram p).analyze context d .empty
    (ofProgram p : CallGraph Float).declaredName? n = some d ∧ (∀ f ∈ [n, d], context.NotOf f) ∧
      ¬ Relation.TransGen p.Asks d d ∧
      ∃ (before : List (Text × Signature Float)) (s : Signature Float),
        spelled.1.map Signature.unrecorded = some s ∧ declared.1.map Signature.unrecorded = some s ∧
        spelled.2.analyzed.unrecorded.entries = before ++ [(n, s)] ∧
        declared.2.analyzed.unrecorded.entries = before ++ [(d, s)] := by
  intro condition p context n d spelled declared
  have hd : (ofProgram p : CallGraph Float).declaredName? n = some d := by decide
  have hcontext : ∀ f ∈ [n, d], context.NotOf f := fun _ _ => ⟨.empty, .empty⟩
  have hcycle : ¬ Relation.TransGen p.Asks d d := by
    have htwo : p.askedBy d = [("Один" : Text)] := by decide
    have hone : p.askedBy "Один" = [] := by decide
    intro h
    obtain ⟨e, he, hrest⟩ := Relation.TransGen.head'_iff.1 h
    rw [Program.Asks, htwo, List.mem_singleton] at he
    subst he
    rcases Relation.ReflTransGen.cases_head hrest with heq | ⟨e', he', -⟩
    · exact absurd heq (by decide)
    · rw [Program.Asks, hone] at he'
      exact absurd he' List.not_mem_nil
  exact ⟨hd, hcontext, hcycle, (analyze_spelled p context hd hcontext).2.2.2 hcycle⟩

/-- The spelling makes a difference to a function that leads back to itself. It returns a text or
its own result: under the declared name the result is unknown, and a text is then only likely. In
lower case the function is read once more on the way, finds a likely text there, and is certain.
Both signatures are kept, one under a name that is not declared. -/
theorem CallGraph.not_analyze_eq_declared :
    (¬ ∀ (p : Program) (context : Context Float) (n d : Text),
        (ofProgram p : CallGraph Float).declaredName? n = some d →
        ((ofProgram p).analyze context n .empty).1.map Signature.unrecorded =
          ((ofProgram p).analyze context d .empty).1.map Signature.unrecorded) ∧
      ¬ ∀ (p : Program) (context : Context Float) (n d : Text),
        (ofProgram p : CallGraph Float).declaredName? n = some d →
        ∀ k ∈ ((ofProgram p).analyze context n .empty).2.analyzed.keys, k ∈ p.routineNames := by
  let p : Program :=
    [.routine .function "Ф" []
      [.ret (some (.choice (.boolean true none) (.string "а" none)
        (.call (.ident "Ф" none) [] none) none)) none]
      false none]
  have hd : (ofProgram p : CallGraph Float).declaredName? "ф" = some "Ф" := by decide
  constructor
  · intro h
    have heq := congrArg (Option.map fun s : Signature Float => s.returns.isKnown)
      (h p (.make .global .empty) "ф" "Ф" hd)
    exact absurd heq (by decide +kernel)
  · intro h
    exact absurd (h p (.make .global .empty) "ф" "Ф" hd "ф" (by decide +kernel)) (by decide)

end Gradual
