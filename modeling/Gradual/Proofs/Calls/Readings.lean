import Gradual.Proofs.Calls.Agree
import Gradual.Proofs.Calls.Declared

/-!
# Reading every routine once

A reading is run with a trace of the bodies that are walked and of the signatures that are stored. A
routine is read only if it was not read before and is not being read, so the routines that are being
read are distinct, the nesting is no deeper than their number, and what stands below that depth is
never asked. A signature is stored for a routine whose reading ends and that has none, so it goes to
the end of the table and stays there. A note of a walked body stands for one run of
`BodyState.block` over it (`walked_readWith`).

Main statement: `analyzeAll_spec`.
-/

namespace Gradual

variable {ω σ : Type}

/-! ## Traces -/

/-- Readings, and what was done for them. -/
structure Traced (ω : Type) where
  readings : Readings ω
  /-- The routines whose bodies were walked, in order. -/
  walked : List Text
  /-- The signatures that were stored, in order. -/
  stored : List (Text × Signature ω)

namespace Traced

/-- Nothing read yet. -/
def empty : Traced ω := ⟨.empty, [], []⟩

/-- Readings that note what is done. -/
def notebook : Notebook ω (Traced ω) where
  readings := readings
  start name t := { t with readings := t.readings.start name, walked := t.walked ++ [name] }
  finish name signature t :=
    { t with
      readings := t.readings.finish name signature
      stored := t.stored ++ [(name, signature)] }

/-- The trace fits the readings: every stored signature is kept as it was stored, and the bodies
that were walked are those of the routines that have signatures or are being read, each once. -/
structure Consistent (g : CallGraph ω) (t : Traced ω) : Prop where
  stored_eq : t.stored = t.readings.analyzed.entries
  walked_perm : t.walked.Perm (t.readings.analyzed.keys ++ t.readings.inProgress)
  nodup : (t.readings.analyzed.keys ++ t.readings.inProgress).Nodup
  declared : ∀ k ∈ t.readings.analyzed.keys ++ t.readings.inProgress, k ∈ g.routines.keys

/-- A completed reading leaves the routines in progress as they were and only adds signatures. -/
structure Grows (t t' : Traced ω) : Prop where
  inProgress_eq : t'.readings.inProgress = t.readings.inProgress
  analyzed_grows : t.readings.analyzed.entries <+: t'.readings.analyzed.entries

theorem Grows.refl (t : Traced ω) : t.Grows t := ⟨rfl, List.prefix_refl _⟩

/-- Readings one after another only add signatures. -/
theorem Grows.trans {a b c : Traced ω} (hab : a.Grows b) (hbc : b.Grows c) : a.Grows c :=
  ⟨hbc.inProgress_eq.trans hab.inProgress_eq, hab.analyzed_grows.trans hbc.analyzed_grows⟩

/-- A routine that has a signature keeps one. -/
theorem Grows.mem_keys {t t' : Traced ω} (h : t.Grows t') {k : Text}
    (hk : k ∈ t.readings.analyzed.keys) :
    k ∈ t'.readings.analyzed.keys := (h.analyzed_grows.map Prod.fst).subset hk

namespace Consistent

variable {g : CallGraph ω} {t : Traced ω} {name : Text}

/-- Before any reading the trace is consistent. -/
theorem empty : (Traced.empty : Traced ω).Consistent g := by
  refine ⟨rfl, List.Perm.refl _, List.nodup_nil, ?_⟩
  intro k hk
  cases hk

/-- Fewer routines are in progress than are declared, as long as one of these is not. -/
theorem length_lt (h : t.Consistent g) (hname : name ∈ g.routines.keys)
    (hnot : name ∉ t.readings.inProgress) :
    t.readings.inProgress.length < g.routines.keys.length := by
  have hnodup : (name :: t.readings.inProgress).Nodup :=
    List.nodup_cons.2 ⟨hnot, (List.nodup_append.1 h.nodup).2.1⟩
  have hsub : name :: t.readings.inProgress ⊆ g.routines.keys := by
    intro k hk
    rcases List.mem_cons.1 hk with rfl | hk
    · exact hname
    · exact h.declared k (List.mem_append_right _ hk)
  exact hnodup.length_le_of_subset hsub

/-- Starting on a new routine of the graph keeps the trace consistent. -/
theorem start (h : t.Consistent g) (hname : name ∈ g.routines.keys)
    (hnew : name ∉ t.readings.analyzed.keys) (hnot : name ∉ t.readings.inProgress) :
    (notebook.start name t).Consistent g := by
  have hperm : (name :: (t.readings.analyzed.keys ++ t.readings.inProgress)).Perm
      (t.readings.analyzed.keys ++ name :: t.readings.inProgress) := List.perm_middle.symm
  refine ⟨h.stored_eq, ?_, ?_, ?_⟩
  · show (t.walked ++ [name]).Perm (t.readings.analyzed.keys ++ name :: t.readings.inProgress)
    exact ((List.perm_append_singleton name t.walked).trans (h.walked_perm.cons name)).trans hperm
  · refine hperm.nodup_iff.1 (List.nodup_cons.2 ⟨?_, h.nodup⟩)
    rw [List.mem_append, not_or]
    exact ⟨hnew, hnot⟩
  · intro k hk
    rcases List.mem_cons.1 (hperm.mem_iff.2 hk) with rfl | hk
    · exact hname
    · exact h.declared k hk

/-- The routine whose reading ends has no signature yet. -/
theorem not_mem_keys (h : t.Consistent g) {rest : List Text}
    (hp : t.readings.inProgress = name :: rest) :
    name ∉ t.readings.analyzed.keys := by
  intro hmem
  have hin : name ∈ t.readings.inProgress := by
    rw [hp]
    exact List.mem_cons_self
  exact (List.nodup_append.1 h.nodup).2.2 name hmem name hin rfl

/-- Finishing a routine appends its signature. -/
theorem entries_finish (h : t.Consistent g) {rest : List Text}
    (hp : t.readings.inProgress = name :: rest) (signature : Signature ω) :
    (notebook.finish name signature t).readings.analyzed.entries =
      t.readings.analyzed.entries ++ [(name, signature)] :=
  Table.entries_insert (h.not_mem_keys hp) signature

/-- Finishing a routine goes back to those that were in progress before. -/
theorem inProgress_finish (h : t.Consistent g) {rest : List Text}
    (hp : t.readings.inProgress = name :: rest) (signature : Signature ω) :
    (notebook.finish name signature t).readings.inProgress = rest := by
  have hnodup : (name :: rest).Nodup := hp ▸ (List.nodup_append.1 h.nodup).2.1
  show t.readings.inProgress.filter (fun m => m != name) = rest
  rw [hp, List.filter_cons_of_neg (by simp), List.filter_eq_self]
  intro m hm
  have hne : m ≠ name := by
    rintro rfl
    exact (List.nodup_cons.1 hnodup).1 hm
  simpa using hne

/-- Finishing the innermost routine keeps the trace consistent. -/
theorem finish (h : t.Consistent g) {rest : List Text} (hp : t.readings.inProgress = name :: rest)
    (signature : Signature ω) : (notebook.finish name signature t).Consistent g := by
  have hkeys : (notebook.finish name signature t).readings.analyzed.keys =
      t.readings.analyzed.keys ++ [name] := by
    rw [Table.keys, h.entries_finish hp, List.map_append]
    rfl
  have heq : (notebook.finish name signature t).readings.analyzed.keys ++
      (notebook.finish name signature t).readings.inProgress =
        t.readings.analyzed.keys ++ t.readings.inProgress := by
    rw [hkeys, h.inProgress_finish hp, hp, List.append_assoc, List.singleton_append]
  refine ⟨?_, heq ▸ h.walked_perm, heq ▸ h.nodup, heq ▸ h.declared⟩
  rw [h.entries_finish hp, ← h.stored_eq]
  rfl

end Consistent

end Traced

namespace CallGraph

variable [Weight ω]

/-! ## Nested readings -/

/-- Readings nested to a depth; below it, `deepest` stands in for them. -/
def nested (book : Notebook ω σ) (g : CallGraph ω) (context : Context ω)
    (deepest : Text → StateM σ (Option (Signature ω))) :
    Nat → Text → StateM σ (Option (Signature ω))
  | 0 => deepest
  | n + 1 => readWith book g context (nested book g context deepest n)

/-- The trace goes with the readings, and came from `base` by completed readings. -/
def Follows (g : CallGraph ω) (base : Traced ω) (t : Traced ω) (r : Readings ω) : Prop :=
  t.readings = r ∧ t.Consistent g ∧ base.Grows t

/-- What a reading of a routine has to do: the same as the reading without a trace, and keep the
trace fitting. -/
def Reads (g : CallGraph ω) (read : Text → StateM (Traced ω) (Option (Signature ω)))
    (read' : Text → StateM (Readings ω) (Option (Signature ω))) (name : Text)
    (t : Traced ω) : Prop :=
  (read name t).1 = (read' name t.readings).1 ∧
    (read name t).2.readings = (read' name t.readings).2 ∧
    (read name t).2.Consistent g ∧ t.Grows (read name t).2 ∧
      name ∈ (read name t).2.readings.analyzed.keys

variable {g : CallGraph ω} {context : Context ω}

/-! ## Answers -/

section

variable (book : Notebook ω σ) (read : Text → StateM σ (Option (Signature ω))) {name d : Text}
  (args : List (Resolution ω)) {s : σ}

/-- A call of a name that no routine has is answered from the known functions. -/
theorem answer_of_undeclared (hd : g.declaredName? name = none) :
    answer book g context read name args s = (callResult context.functions name args, s) := by
  rw [answer, hd]
  rfl

/-- A call of a routine in progress is answered with a note of the recursion, and nothing is read.
-/
theorem answer_of_mem (hd : g.declaredName? name = some d)
    (hin : d ∈ (book.readings s).inProgress) :
    answer book g context read name args s = (.unknownBecause "Recursive call detected", s) := by
  rw [answer, hd]
  show (if (book.readings s).inProgress.contains d = true then
    (pure (.unknownBecause "Recursive call detected") : StateM σ (Resolution ω)) else _) s = _
  rw [if_pos (List.contains_iff_mem.2 hin)]
  rfl

/-- Any other call is answered with what reading the routine gives. -/
theorem answer_of_not_mem (hd : g.declaredName? name = some d)
    (hnot : d ∉ (book.readings s).inProgress) :
    answer book g context read name args s =
      (((read d s).1.map Signature.returns).getD .unknown, (read d s).2) := by
  rw [answer, hd]
  show (if (book.readings s).inProgress.contains d = true then _ else (read d >>= fun signature =>
    pure ((signature.map Signature.returns).getD .unknown) : StateM σ (Resolution ω))) s = _
  rw [if_neg fun hin => hnot (List.contains_iff_mem.1 hin)]
  rfl

end

/-- Calls are answered alike with a trace and without, if the routines that are not in progress are
read alike. -/
theorem agree_answer (hg : g.Faithful) {read : Text → StateM (Traced ω) (Option (Signature ω))}
    {read' : Text → StateM (Readings ω) (Option (Signature ω))} {base : Traced ω}
    (hread : ∀ d ∈ g.routines.keys, ∀ t : Traced ω, t.Consistent g → base.Grows t →
      d ∉ t.readings.inProgress →
      g.Reads read read' d t) (name : Text) (args : List (Resolution ω)) :
    Agree (g.Follows base) (answer Traced.notebook g context read name args)
      (answer Readings.notebook g context read' name args) := by
  intro t r hfollows
  obtain ⟨rfl, ht, hgrows⟩ := hfollows
  cases hd : g.declaredName? name with
  | none =>
    rw [answer_of_undeclared _ _ _ hd, answer_of_undeclared _ _ _ hd]
    exact ⟨rfl, rfl, ht, hgrows⟩
  | some d =>
    by_cases hin : d ∈ t.readings.inProgress
    · rw [answer_of_mem Traced.notebook read args hd hin,
        answer_of_mem Readings.notebook read' args hd hin]
      exact ⟨rfl, rfl, ht, hgrows⟩
    · obtain ⟨hvalue, hstate, ht', hgrows', -⟩ :=
        hread d (hg.mem_of_declaredName? hd) t ht hgrows hin
      rw [answer_of_not_mem Traced.notebook read args hd hin,
        answer_of_not_mem Readings.notebook read' args hd hin,
        hvalue]
      exact ⟨rfl, hstate, ht', hgrows.trans hgrows'⟩

/-! ## One reading -/

section

variable (book : Notebook ω σ) (g : CallGraph ω) (context : Context ω)
  (deeper : Text → StateM σ (Option (Signature ω))) {name : Text} {s : σ}

/-- The point of a reading at which the body of the routine was walked. -/
def walk (name : Text) (r : Routine ω) (s : σ) : BodyState ω σ :=
  BodyState.block name (answer book g context deeper) r.body
    ⟨book.start name s, context.vars.insertAll (r.params.map fun p => (p.name, p.type)), [], 0⟩

/-- The signature of a routine whose body returned the types. -/
def signatureOf (name : Text) (r : Routine ω) (returns : List (Resolution ω)) : Signature ω :=
  ⟨signatureParams r, (returnType r returns).recordAt (.result name), r.exported⟩

/-- A routine that has a signature is not read again. -/
theorem readWith_of_analyzed {signature : Signature ω}
    (h : (book.readings s).analyzed.get? name = some signature) :
    readWith book g context deeper name s = (some signature, s) := by
  rw [readWith, h]

/-- A name that no routine has is not read. -/
theorem readWith_of_undeclared (h : (book.readings s).analyzed.get? name = none)
    (hr : g.routine? name = none) :
    readWith book g context deeper name s = (none, s) := by
  rw [readWith, h]
  dsimp only
  rw [hr]

/-- A new routine is read by walking its body, and its signature is stored behind that. -/
theorem readWith_of_new {r : Routine ω} (h : (book.readings s).analyzed.get? name = none)
    (hr : g.routine? name = some r) :
    readWith book g context deeper name s =
      (some (signatureOf name r (walk book g context deeper name r s).returns),
        book.finish name (signatureOf name r (walk book g context deeper name r s).returns)
          (walk book g context deeper name r s).state) := by
  rw [readWith, h]
  dsimp only
  rw [hr]
  rfl

end

/-- Answers note nothing by themselves: what is noted while a call is answered, the reading of its
callee notes. -/
theorem walked_answer {read : Text → StateM (Traced ω) (Option (Signature ω))}
    (hread : ∀ d t, (read d t).2.walked = t.walked) (name : Text) (args : List (Resolution ω))
    (t : Traced ω) :
    (answer Traced.notebook g context read name args t).2.walked = t.walked := by
  cases hd : g.declaredName? name with
  | none => rw [answer_of_undeclared _ _ _ hd]
  | some d =>
    by_cases hin : d ∈ t.readings.inProgress
    · rw [answer_of_mem Traced.notebook read args hd hin]
    · rw [answer_of_not_mem Traced.notebook read args hd hin]
      exact hread d t

/-- A walk notes nothing by itself either. -/
theorem walked_walk {deeper : Text → StateM (Traced ω) (Option (Signature ω))}
    (hdeeper : ∀ d t, (deeper d t).2.walked = t.walked) (name : Text) (r : Routine ω)
    (t : Traced ω) :
    (walk Traced.notebook g context deeper name r t).state.walked = t.walked ++ [name] := by
  have hcalls : ∀ c ∈ Stmt.askedIn r.body, ∀ args,
      Agree (fun u u' : Traced ω => u.walked = t.walked ++ [name] ∧ u' = u)
        (answer Traced.notebook g context deeper c.callee args)
        (answer Traced.notebook g context deeper c.callee args) := by
    rintro c - args _ u ⟨hu, rfl⟩
    exact ⟨rfl, (walked_answer hdeeper c.callee args u).trans hu, rfl⟩
  exact (BodyState.inStep_block name r.body hcalls ⟨⟨rfl, rfl⟩, rfl, rfl, rfl⟩).state.1

/-- **A note is a walk.** A reading either finds a signature, or finds no routine, and then leaves
the trace as it is; or it runs once through the body of the routine, from the point at which it
noted its name, and ends with what was noted there. Apart from the readings of callees, the name is
all that is noted. -/
theorem walked_readWith (g : CallGraph ω) (context : Context ω)
    (deeper : Text → StateM (Traced ω) (Option (Signature ω))) (name : Text) (t : Traced ω) :
    let t' := (readWith Traced.notebook g context deeper name t).2
    (name ∈ t.readings.analyzed.keys ∨ g.routine? name = none) ∧ t' = t ∨
      ∃ r, g.routine? name = some r ∧
        t'.walked = (walk Traced.notebook g context deeper name r t).state.walked ∧
        ((∀ d t, (deeper d t).2.walked = t.walked) → t'.walked = t.walked ++ [name]) := by
  intro t'
  cases hget : t.readings.analyzed.get? name with
  | some signature =>
    have hread := readWith_of_analyzed Traced.notebook g context deeper hget
    exact .inl ⟨.inl (Table.mem_keys_iff.2 ⟨signature, hget⟩), congrArg Prod.snd hread⟩
  | none =>
    cases hr : g.routine? name with
    | none =>
      have hread := readWith_of_undeclared Traced.notebook g context deeper hget hr
      exact .inl ⟨.inr rfl, congrArg Prod.snd hread⟩
    | some r =>
      have hread := readWith_of_new Traced.notebook g context deeper hget hr
      have hwalked : t'.walked = (walk Traced.notebook g context deeper name r t).state.walked :=
        congrArg (fun result => result.2.walked) hread
      refine .inr ⟨r, rfl, hwalked, fun hdeeper => ?_⟩
      rw [hwalked, walked_walk hdeeper]

/-- A routine that is not in progress is read alike with a trace and without, if the routines that
it calls are. -/
theorem reads_readWith (hg : g.Faithful) {deeper : Text → StateM (Traced ω) (Option (Signature ω))}
    {deeper' : Text → StateM (Readings ω) (Option (Signature ω))} {name : Text}
    (hname : name ∈ g.routines.keys) {t : Traced ω} (ht : t.Consistent g)
    (hnot : name ∉ t.readings.inProgress)
    (hdeeper : ∀ d ∈ g.routines.keys, ∀ t' : Traced ω, t'.Consistent g →
      (Traced.notebook.start name t).Grows t' →
      d ∉ t'.readings.inProgress → g.Reads deeper deeper' d t') :
    g.Reads (readWith Traced.notebook g context deeper)
      (readWith Readings.notebook g context deeper') name t := by
  cases hget : t.readings.analyzed.get? name with
  | some signature =>
    have hkey : name ∈ t.readings.analyzed.keys := Table.mem_keys_iff.2 ⟨signature, hget⟩
    have hread := readWith_of_analyzed Traced.notebook g context deeper hget
    have hread' := readWith_of_analyzed Readings.notebook g context deeper' hget
    rw [Reads, hread, hread']
    exact ⟨rfl, rfl, ht, .refl t, hkey⟩
  | none =>
    obtain ⟨r, hr, -⟩ := Faithful.routine?_eq hname
    have hnew : name ∉ t.readings.analyzed.keys := Table.get?_eq_none_iff.1 hget
    have hstart := ht.start hname hnew hnot
    have hstep : BodyState.InStep (g.Follows (Traced.notebook.start name t))
        (walk Traced.notebook g context deeper name r t)
          (walk Readings.notebook g context deeper' name r t.readings) :=
      BodyState.inStep_block name r.body (fun c _ args => agree_answer hg hdeeper c.callee args)
        ⟨⟨rfl, hstart, .refl _⟩, rfl, rfl, rfl⟩
    obtain ⟨hstate, hcons, hgrows⟩ := hstep.state
    have hprogress : (walk Traced.notebook g context deeper name r t).state.readings.inProgress =
        name :: t.readings.inProgress := hgrows.inProgress_eq
    have hread := readWith_of_new Traced.notebook g context deeper hget hr
    have hread' := readWith_of_new Readings.notebook g context deeper' hget hr
    rw [Reads, hread, hread', ← hstep.returns, ← hstate]
    refine ⟨rfl, rfl, hcons.finish hprogress _, ⟨hcons.inProgress_finish hprogress _, ?_⟩, ?_⟩
    · rw [hcons.entries_finish hprogress]
      exact hgrows.analyzed_grows.trans (List.prefix_append _ _)
    · exact Table.mem_keys_insert.2 (.inl rfl)

/-- **Readings do not reach below the number of routines.** By induction on the depth: every nested
reading puts one more routine in progress. -/
theorem reads_nested (hg : g.Faithful)
    (deepest : Text → StateM (Traced ω) (Option (Signature ω))) (n m : Nat) {name : Text}
    (hname : name ∈ g.routines.keys) {t : Traced ω} (ht : t.Consistent g)
    (hnot : name ∉ t.readings.inProgress)
    (hn : g.routines.keys.length ≤ n + t.readings.inProgress.length)
    (hm : g.routines.keys.length ≤ m + t.readings.inProgress.length) :
    g.Reads (nested Traced.notebook g context deepest n)
      (read Readings.notebook g context m) name t := by
  induction n generalizing m name t with
  | zero =>
    have hlt := ht.length_lt hname hnot
    omega
  | succ n ih =>
    have hlt := ht.length_lt hname hnot
    obtain ⟨m, rfl⟩ : ∃ k, m = k + 1 := ⟨m - 1, by omega⟩
    refine reads_readWith hg hname ht hnot fun d hd t' ht' hgrows hnot' => ?_
    have hlen : t'.readings.inProgress.length = t.readings.inProgress.length + 1 := by
      rw [hgrows.inProgress_eq]
      rfl
    exact ih m hd ht' hnot' (by omega) (by omega)

/-! ## All readings -/

/-- Reading routines one after the other, with a trace and without. -/
theorem reads_foldl (hg : g.Faithful)
    (deepest : Text → StateM (Traced ω) (Option (Signature ω))) {n : Nat}
    (hn : g.routines.keys.length ≤ n) {names : List Text}
    (hnames : ∀ k ∈ names, k ∈ g.routines.keys) {t : Traced ω} (ht : t.Consistent g)
    (hp : t.readings.inProgress = []) :
    let t' := names.foldl (fun t name => (nested Traced.notebook g context deepest n name t).2) t
    t'.readings = names.foldl (fun r name => (g.analyze context name r).2) t.readings ∧
      t'.Consistent g ∧ t.Grows t' ∧ ∀ k ∈ names, k ∈ t'.readings.analyzed.keys := by
  induction names generalizing t with
  | nil => exact ⟨rfl, ht, .refl t, by simp⟩
  | cons name names ih =>
    have hname := hnames name List.mem_cons_self
    have hsize : g.routines.keys.length ≤ g.routines.size + 1 := by
      rw [Table.size_eq_length_keys]
      omega
    have hreads : g.Reads (nested Traced.notebook g context deepest n) (g.analyze context) name t :=
      reads_nested hg deepest n (g.routines.size + 1) hname ht
        (by rw [hp]; exact List.not_mem_nil) (by omega)
        (by omega)
    obtain ⟨-, hreadings, ht', hgrows, hkey⟩ := hreads
    obtain ⟨hrest, hcons, hgrows', hkeys⟩ :=
      ih (fun k hk => hnames k (List.mem_cons_of_mem name hk)) ht'
      (hgrows.inProgress_eq.trans hp)
    refine ⟨?_, hcons, hgrows.trans hgrows', ?_⟩
    · rw [List.foldl_cons, hrest, hreadings, List.foldl_cons]
    · intro k hk
      rcases List.mem_cons.1 hk with rfl | hk
      · exact hgrows'.mem_keys hkey
      · exact hkeys k hk

/-- Reading all routines, with a trace and without. -/
theorem reads_readAll (hg : g.Faithful) (deepest : Text → StateM (Traced ω) (Option (Signature ω)))
    (more : Nat) :
    let t :=
      g.readAll (nested Traced.notebook g context deepest (g.routines.size + 1 + more)) .empty
    t.readings = g.analyzeAll context .empty ∧ t.Consistent g ∧ t.readings.inProgress = [] ∧
      ∀ name ∈ g.routines.keys, name ∈ t.readings.analyzed.keys := by
  have hn : g.routines.keys.length ≤ g.routines.size + 1 + more := by
    rw [Table.size_eq_length_keys]
    omega
  obtain ⟨hreadings, hcons, hgrows, hkeys⟩ :=
    reads_foldl hg deepest hn (fun k hk => hg.mem_calleesFirst.1 hk)
      (Traced.Consistent.empty (g := g)) rfl
  exact ⟨hreadings, hcons, hgrows.inProgress_eq,
    fun name hname => hkeys name (hg.mem_calleesFirst.2 hname)⟩

/-! ## Callees first -/

/-- In a routine whose callees all have signatures, a call is answered from what is there. -/
theorem answer_of_callees (hg : g.Faithful) {name : Text} {routine : Routine ω}
    (hget : g.routines.get? name = some routine) {r : Readings ω}
    (hcallees : ∀ d ∈ g.callees name, d ∈ r.analyzed.keys) {c : CallSite}
    (hc : c ∈ Stmt.callsIn routine.body) (n : Nat) (args : List (Resolution ω)) :
    (answer Readings.notebook g context (read Readings.notebook g context (n + 1)) c.callee args
      (r.start name)).2 = r.start name := by
  cases hd : g.declaredName? c.callee with
  | none => rw [answer_of_undeclared _ _ _ hd]
  | some d =>
    by_cases hin : d ∈ (r.start name).inProgress
    · rw [answer_of_mem (s := r.start name) Readings.notebook _ args hd hin]
    · have hcallee : d ∈ g.callees name := by
        rw [Faithful.mem_callees, hg.callsFrom_eq name routine hget]
        exact ⟨c, hc, hd⟩
      obtain ⟨signature, hsignature⟩ := Table.mem_keys_iff.1 (hcallees d hcallee)
      have hread : read Readings.notebook g context (n + 1) d (r.start name) =
          (some signature, r.start name) :=
        readWith_of_analyzed Readings.notebook g context _ hsignature
      rw [answer_of_not_mem (s := r.start name) Readings.notebook _ args hd hin, hread]

/-- A routine whose callees all have signatures is read alone. -/
theorem analyze_of_callees (hg : g.Faithful) {name : Text} (hname : name ∈ g.routines.keys)
    {r : Readings ω} (hnew : name ∉ r.analyzed.keys)
    (hcallees : ∀ d ∈ g.callees name, d ∈ r.analyzed.keys) :
    (g.analyze context name r).2.analyzed.keys = r.analyzed.keys ++ [name] := by
  obtain ⟨routine, hr, hget⟩ := Faithful.routine?_eq hname
  obtain ⟨n, hn⟩ : ∃ n, g.routines.size = n + 1 := by
    have hpos := List.length_pos_of_mem hname
    rw [← Table.size_eq_length_keys] at hpos
    exact ⟨g.routines.size - 1, by omega⟩
  -- The body leaves the state as it was at its start.
  have hcalls : ∀ c ∈ Stmt.askedIn routine.body, ∀ args,
      Agree (fun s s' : Readings ω => s = r.start name ∧ s' = r.start name)
        (answer Readings.notebook g context (read Readings.notebook g context (n + 1))
          c.callee args)
        (answer Readings.notebook g context (read Readings.notebook g context (n + 1))
          c.callee args) := by
    rintro c hc args _ _ ⟨rfl, rfl⟩
    have hstands := Stmt.askedIn_subset routine.body hc
    exact ⟨rfl, answer_of_callees hg hget hcallees hstands n args,
      answer_of_callees hg hget hcallees hstands n args⟩
  have hwalk : (walk Readings.notebook g context (read Readings.notebook g context (n + 1)) name
    routine r).state =
      r.start name :=
    (BodyState.inStep_block name routine.body hcalls ⟨⟨rfl, rfl⟩, rfl, rfl, rfl⟩).state.1
  have hread := readWith_of_new Readings.notebook g context
    (read Readings.notebook g context (n + 1)) (Table.get?_eq_none_iff.2 hnew) hr
  rw [hwalk] at hread
  rw [analyze, hn, read, hread]
  show (r.analyzed.insert name _).keys = _
  rw [Table.keys_insert, if_neg hnew]

/-- In an order with the callees first, the signatures are stored in that order. -/
theorem keys_foldl (hg : g.Faithful) {order : List Text} (ho : g.calleesFirst? = some order)
    {xs ys : List Text} (heq : order = xs ++ ys) {r : Readings ω} (hr : r.analyzed.keys = xs) :
    (ys.foldl (fun r name => (g.analyze context name r).2) r).analyzed.keys = order := by
  obtain ⟨hperm, hbefore⟩ := hg.calleesFirst?_spec ho
  induction ys generalizing xs r with
  | nil => rw [List.foldl_nil, hr, heq, List.append_nil]
  | cons v ys ih =>
    have hnodup : order.Nodup := hperm.nodup_iff.2 g.routines.nodup_keys
    have hv : v ∈ g.routines.keys := hperm.mem_iff.1 (by rw [heq]; simp)
    have hnew : v ∉ r.analyzed.keys := by
      rw [hr]
      rw [heq] at hnodup
      exact fun hmem => (List.nodup_append.1 hnodup).2.2 v hmem v List.mem_cons_self rfl
    have hkeys : (g.analyze context v r).2.analyzed.keys = xs ++ [v] := by
      rw [analyze_of_callees hg hv hnew, hr]
      intro d hd
      rw [hr]
      exact hbefore xs v ys heq d hd
    rw [List.foldl_cons]
    exact ih (by rw [heq, List.append_assoc, List.singleton_append]) hkeys

end CallGraph

/-- **Every routine is read once.** For every program and context: whatever stands in for readings
that are nested deeper than the routines are many, reading all routines comes to the same end. The
signatures are then those of the declared routines, none is being read, every signature is kept as
it was stored, the body of every routine was walked once, and if the routines can be ordered with
the callees first, they were stored in this order. -/
theorem CallGraph.analyzeAll_spec [Weight ω] (p : Program) (context : Context ω) :
    let g : CallGraph ω := .ofProgram p
    let r := g.analyzeAll context .empty
    (∀ (deepest : Text → StateM (Traced ω) (Option (Signature ω))) (more : Nat),
      let t := g.readAll (nested Traced.notebook g context deepest (g.routines.size + 1 + more))
        .empty
      t.readings = r ∧ t.stored = r.analyzed.entries ∧ t.walked.Perm r.analyzed.keys) ∧
    (∀ name, name ∈ r.analyzed.keys ↔
      ∃ kind params body exported loc, Stmt.routine kind name params body exported loc ∈ p) ∧
    r.inProgress = [] ∧
    ∀ order ∈ g.calleesFirst?, r.analyzed.keys = order := by
  intro g r
  have hg : g.Faithful := faithful_ofProgram p
  -- The run without a trace is the run with one that gives up below the depth.
  obtain ⟨hreadings, hcons, hprogress, hkeys⟩ :
      let t := g.readAll (nested Traced.notebook g context (fun _ => pure none)
        (g.routines.size + 1 + 0)) .empty
      t.readings = r ∧ t.Consistent g ∧ t.readings.inProgress = [] ∧
        ∀ name ∈ g.routines.keys, name ∈ t.readings.analyzed.keys := reads_readAll hg _ 0
  rw [hreadings] at hprogress hkeys
  refine ⟨?_, ?_, hprogress, ?_⟩
  · intro deepest more t
    obtain ⟨ht, hcons, -, -⟩ : t.readings = r ∧ t.Consistent g ∧ _ ∧ _ :=
      reads_readAll hg deepest more
    have hwalked := hcons.walked_perm
    rw [ht, hprogress, List.append_nil] at hwalked
    exact ⟨ht, ht ▸ hcons.stored_eq, hwalked⟩
  · intro name
    rw [← mem_keys_ofProgram (ω := ω)]
    constructor
    · intro hname
      rw [← hreadings] at hname
      exact hcons.declared name (List.mem_append_left _ hname)
    · exact hkeys name
  · intro order ho
    have horder : g.calleesFirst?.getD g.routines.keys = order := by
      rw [Option.mem_def.1 ho, Option.getD_some]
    have hrun : r = order.foldl (fun r name => (g.analyze context name r).2) .empty := by
      show List.foldl _ _ (g.calleesFirst?.getD g.routines.keys) = _
      rw [horder]
    rw [hrun]
    exact keys_foldl hg ho (List.nil_append order).symm rfl

end Gradual
