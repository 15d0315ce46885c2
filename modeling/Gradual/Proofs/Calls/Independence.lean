import Gradual.Proofs.Calls.Named
import Gradual.Proofs.Calls.Readings

/-!
# Signatures without recursion

A reading keeps the signatures that it makes and looks out for routines that it is still reading.
Without recursion neither matters: a reading that keeps nothing and looks out for nothing makes the
same signatures. For the callees of a routine stand in front of it in the order with the callees
first, and the routines that are being read behind it. So the table that is left does not depend on
the order in which routines are asked for, and no call meets a routine that is being read.

Main statement: `analyze_independent`.
-/

namespace Gradual

variable {ω : Type}

/-- Tables that hold the same values differ only in the order of their entries. -/
theorem Table.entries_perm {κ ν : Type} [DecidableEq κ] {t t' : Table κ ν}
    (h : ∀ k, t.get? k = t'.get? k) :
    t.entries.Perm t'.entries := by
  refine (List.perm_ext_iff_of_nodup (List.Nodup.of_map _ t.nodup_keys)
    (List.Nodup.of_map _ t'.nodup_keys)).2 ?_
  rintro ⟨k, v⟩
  rw [← get?_eq_some_iff, h, get?_eq_some_iff]

/-! ## Readings that are watched -/

/-- Readings, and the calls of declared routines that were made for them. -/
structure Watched (ω : Type) where
  readings : Readings ω
  /-- The routines that were called, each with those that were being read at that time. -/
  asked : List (Text × List Text)

namespace Watched

/-- Nothing read yet. -/
def empty : Watched ω := ⟨.empty, []⟩

/-- Readings that show no routine as being read, so that all calls of declared routines are passed
on. -/
def notebook : Notebook ω (Watched ω) where
  readings w := { w.readings with inProgress := [] }
  start name w := { w with readings := w.readings.start name }
  finish name signature w := { w with readings := w.readings.finish name signature }

/-- Notes that a routine is called. -/
def note (d : Text) (w : Watched ω) : Watched ω :=
  { w with asked := w.asked ++ [(d, w.readings.inProgress)] }

/-- Reads a routine that is called, after noting the call, unless it is being read. -/
def ask (read : Text → StateM (Watched ω) (Option (Signature ω))) (d : Text) :
    StateM (Watched ω) (Option (Signature ω)) := fun w =>
  if w.readings.inProgress.contains d then
    (some ⟨[], .unknownBecause "Recursive call detected", false⟩, w.note d)
  else read d (w.note d)

/-- No call met a routine that was being read. -/
def Undisturbed (w : Watched ω) : Prop := ∀ call ∈ w.asked, call.1 ∉ call.2

end Watched

namespace CallGraph

variable {g : CallGraph ω}

/-- What a routine calls stands in front of it in the order with the callees first. -/
theorem Faithful.idxOf_lt (hg : g.Faithful) {order : List Text} (ho : g.calleesFirst? = some order)
    {u d : Text} (hd : d ∈ g.callees u) : order.idxOf d < order.idxOf u := by
  obtain ⟨hperm, hbefore⟩ := hg.calleesFirst?_spec ho
  have hnodup : order.Nodup := hperm.nodup_iff.2 g.routines.nodup_keys
  obtain ⟨xs, ys, rfl⟩ := List.append_of_mem (hperm.mem_iff.2 (hg.caller_mem_keys hd))
  exact Order.idxOf_lt_of_mem hnodup (hbefore xs u ys rfl d hd)

/-- Every place in the order lies below the depth that a reading is given. -/
theorem Faithful.idxOf_lt_size (hg : g.Faithful) {order : List Text}
    (ho : g.calleesFirst? = some order) (name : Text) :
    order.idxOf name < g.routines.size + 1 := by
  rw [Table.size_eq_length_keys, ← (hg.calleesFirst?_spec ho).1.length_eq]
  exact Nat.lt_succ_of_le List.idxOf_le_length

variable [Weight ω]

/-- Reads a routine and what it calls, and notes the calls. -/
def watch (g : CallGraph ω) (context : Context ω) :
    (bound : Nat) → Text → StateM (Watched ω) (Option (Signature ω))
  | 0, _ => pure none
  | n + 1, name => readWith Watched.notebook g context (Watched.ask (watch g context n)) name

variable {context : Context ω}

/-- A call is answered alike whether or not it is watched, if the routines that are not being read
are read alike. -/
theorem agree_ask (hg : g.Faithful) {read : Text → StateM (Watched ω) (Option (Signature ω))}
    {read' : Text → StateM (Readings ω) (Option (Signature ω))}
    (hread : ∀ d ∈ g.routines.keys, Agree (fun w r => w.readings = r) (read d) (read' d))
    (name : Text) (args : List (Resolution ω)) :
    Agree (fun w r => w.readings = r)
      (answer Watched.notebook g context (Watched.ask read) name args)
        (answer Readings.notebook g context read' name args) := by
  rintro w _ rfl
  cases hd : g.declaredName? name with
  | none =>
    rw [answer_of_undeclared _ _ _ hd, answer_of_undeclared _ _ _ hd]
    exact ⟨rfl, rfl⟩
  | some d =>
    rw [answer_of_not_mem (s := w) Watched.notebook _ args hd List.not_mem_nil, Watched.ask]
    by_cases hin : d ∈ w.readings.inProgress
    · rw [answer_of_mem Readings.notebook read' args hd hin, if_pos (List.contains_iff_mem.2 hin)]
      exact ⟨rfl, rfl⟩
    · rw [answer_of_not_mem Readings.notebook read' args hd hin,
        if_neg fun h => hin (List.contains_iff_mem.1 h)]
      obtain ⟨hvalue, hstate⟩ := hread d (hg.mem_of_declaredName? hd) (w.note d) w.readings rfl
      rw [hvalue]
      exact ⟨rfl, hstate⟩

/-- Watching changes nothing: the same signatures are made and kept. By induction on the depth. -/
theorem agree_watch (hg : g.Faithful) (n : Nat) {name : Text} (hname : name ∈ g.routines.keys) :
    Agree (fun (w : Watched ω) r => w.readings = r) (watch g context n name)
      (read Readings.notebook g context n name) := by
  induction n generalizing name with
  | zero => exact .pure none
  | succ n ih =>
    rintro w _ rfl
    rw [watch, read]
    cases hget : w.readings.analyzed.get? name with
    | some signature =>
      rw [readWith_of_analyzed Watched.notebook g context _ hget,
        readWith_of_analyzed Readings.notebook g context _ hget]
      exact ⟨rfl, rfl⟩
    | none =>
      obtain ⟨r, hr, -⟩ := Faithful.routine?_eq hname
      have hstep : BodyState.InStep (fun (w : Watched ω) r => w.readings = r)
          (walk Watched.notebook g context (Watched.ask (watch g context n)) name r w)
          (walk Readings.notebook g context (read Readings.notebook g context n) name r
            w.readings) :=
        BodyState.inStep_block name r.body
          (fun c _ args => agree_ask hg (fun d hd => ih hd) c.callee args)
          ⟨rfl, rfl, rfl, rfl⟩
      rw [readWith_of_new Watched.notebook g context _ hget hr,
        readWith_of_new Readings.notebook g context _ hget hr,
        ← hstep.returns, ← hstep.state]
      exact ⟨rfl, rfl⟩

/-! ## Readings that keep nothing -/

/-- A state that keeps no signatures and no routines that are being read. -/
def forgetful : Notebook ω Unit := ⟨fun _ => .empty, fun _ s => s, fun _ _ s => s⟩

/-- The signature of a routine, made anew for every call to a depth. -/
def unfolded (g : CallGraph ω) (context : Context ω) (n : Nat) (name : Text) :
    Option (Signature ω) :=
  (read forgetful g context n name ()).1

/-- The signatures that are kept are those that are made anew to any depth that reaches all
callees. -/
def Settled (g : CallGraph ω) (context : Context ω) (order : List Text) (r : Readings ω) : Prop :=
  ∀ k v, r.analyzed.get? k = some v → ∀ n, order.idxOf k < n → g.unfolded context n k = some v

/-- Storing the signature that unfolding gives keeps the readings settled. -/
theorem Settled.finish {order : List Text} {r : Readings ω} (h : g.Settled context order r)
    {name : Text} {signature : Signature ω}
    (hnew : ∀ n, order.idxOf name < n → g.unfolded context n name = some signature) :
    g.Settled context order (r.finish name signature) := by
  intro k v hk
  change (r.analyzed.insert name signature).get? k = some v at hk
  rw [Table.get?_insert] at hk
  by_cases hname : k = name
  · rw [if_pos hname] at hk
    rw [hname, ← hk]
    exact hnew
  · rw [if_neg hname] at hk
    exact h k v hk

/-- A watched state in which signatures are settled, no call met a routine that was being read, and
these are given. -/
structure Calm (g : CallGraph ω) (context : Context ω) (order busy : List Text)
    (w : Watched ω) : Prop where
  settled : g.Settled context order w.readings
  undisturbed : w.Undisturbed
  inProgress_eq : w.readings.inProgress = busy

theorem Settled.empty (order : List Text) : g.Settled context order .empty := by
  intro k v hk
  cases hk

namespace Calm

variable {order busy : List Text} {w : Watched ω} {name : Text}

theorem empty (order : List Text) : g.Calm context order [] .empty := by
  refine ⟨.empty order, ?_, rfl⟩
  intro call hcall
  cases hcall

/-- Noting a routine that is not in progress keeps the watch calm. -/
theorem note (h : g.Calm context order busy w) (hname : name ∉ busy) :
    g.Calm context order busy (w.note name) := by
  refine ⟨h.settled, ?_, h.inProgress_eq⟩
  intro call hcall
  rcases List.mem_append.1 hcall with hcall | hcall
  · exact h.undisturbed call hcall
  · rw [List.mem_singleton.1 hcall, h.inProgress_eq]
    exact hname

theorem start (h : g.Calm context order busy w) (name : Text) :
    g.Calm context order (name :: busy) (Watched.notebook.start name w) :=
  ⟨h.settled, h.undisturbed, congrArg (name :: ·) h.inProgress_eq⟩

/-- Finishing a routine with the signature that unfolding gives keeps the watch calm. -/
theorem finish (h : g.Calm context order (name :: busy) w) (hname : name ∉ busy)
    {signature : Signature ω}
    (hnew : ∀ n, order.idxOf name < n → g.unfolded context n name = some signature) :
    g.Calm context order busy (Watched.notebook.finish name signature w) := by
  refine ⟨h.settled.finish hnew, h.undisturbed, ?_⟩
  show w.readings.inProgress.filter (fun m => m != name) = busy
  rw [h.inProgress_eq, List.filter_cons_of_neg (by simp), List.filter_eq_self]
  intro m hm
  have hne : m ≠ name := fun heq => hname (heq ▸ hm)
  simpa using hne

end Calm

/-- A call in the body of a routine is answered as by readings that keep nothing, if its callees are
read so and none of them is being read. -/
theorem agree_forgetful (hg : g.Faithful) {order busy : List Text} {u : Text} {r : Routine ω}
    (hu : g.routines.get? u = some r) {read : Text → StateM (Watched ω) (Option (Signature ω))}
    {read' : Text → StateM Unit (Option (Signature ω))} (hbusy : ∀ d ∈ g.callees u, d ∉ busy)
    (hread : ∀ d ∈ g.callees u, ∀ w, g.Calm context order busy w →
      (read d w).1 = (read' d ()).1 ∧ g.Calm context order busy (read d w).2) :
    ∀ c ∈ Stmt.askedIn r.body, ∀ args, Agree (fun w (_ : Unit) => g.Calm context order busy w)
      (answer Watched.notebook g context (Watched.ask read) c.callee args)
      (answer forgetful g context read' c.callee args) := by
  intro c hc args w _ hw
  cases hd : g.declaredName? c.callee with
  | none =>
    rw [answer_of_undeclared _ _ _ hd, answer_of_undeclared _ _ _ hd]
    exact ⟨rfl, hw⟩
  | some d =>
    have hcallee : d ∈ g.callees u := by
      rw [Faithful.mem_callees, hg.callsFrom_eq u r hu]
      exact ⟨c, Stmt.askedIn_subset r.body hc, hd⟩
    have hin : d ∉ w.readings.inProgress := hw.inProgress_eq ▸ hbusy d hcallee
    rw [answer_of_not_mem (s := w) Watched.notebook _ args hd List.not_mem_nil,
      answer_of_not_mem forgetful _ args hd List.not_mem_nil, Watched.ask,
      if_neg fun h => hin (List.contains_iff_mem.1 h)]
    obtain ⟨hvalue, hcalm⟩ := hread d hcallee (w.note d) (hw.note (hbusy d hcallee))
    rw [hvalue]
    exact ⟨rfl, hcalm⟩

/-- **Reading without recursion.** A routine in front of all that are being read is read as if
nothing were kept, and the state stays calm. By induction on the depth: callees stand in front of
the routine, which is now being read. -/
theorem watch_calm (hg : g.Faithful) {order : List Text} (ho : g.calleesFirst? = some order)
    (n : Nat) {name : Text} (hname : name ∈ g.routines.keys) (hn : order.idxOf name < n)
    {busy : List Text} (hbusy : ∀ b ∈ busy, order.idxOf name < order.idxOf b) {w : Watched ω}
    (hw : g.Calm context order busy w) :
    (∀ m, order.idxOf name < m → (watch g context n name w).1 = g.unfolded context m name) ∧
      g.Calm context order busy (watch g context n name w).2 := by
  induction n generalizing name busy w with
  | zero => omega
  | succ n ih =>
    rw [watch]
    cases hget : w.readings.analyzed.get? name with
    | some signature =>
      rw [readWith_of_analyzed Watched.notebook g context _ hget]
      exact ⟨fun m hm => (hw.settled name signature hget m hm).symm, hw⟩
    | none =>
      obtain ⟨r, hr, hroutine⟩ := Faithful.routine?_eq hname
      -- The routines that are being read stand behind `name`, and so behind its callees.
      have hfront : ∀ d ∈ g.callees name, ∀ b ∈ name :: busy, order.idxOf d < order.idxOf b := by
        intro d hd b hb
        have hlt := hg.idxOf_lt ho hd
        rcases List.mem_cons.1 hb with rfl | hb
        · exact hlt
        · exact Nat.lt_trans hlt (hbusy b hb)
      have hstep : ∀ m, order.idxOf name < m + 1 →
          BodyState.InStep (fun w (_ : Unit) => g.Calm context order (name :: busy) w)
            (walk Watched.notebook g context (Watched.ask (watch g context n)) name r w)
            (walk forgetful g context (read forgetful g context m) name r ()) := by
        intro m hm
        refine BodyState.inStep_block name r.body (agree_forgetful hg hroutine ?_ ?_)
          ⟨hw.start name, rfl, rfl, rfl⟩
        · intro d hd hmem
          exact absurd (hfront d hd d hmem) (Nat.lt_irrefl _)
        · intro d hd w' hw'
          have hlt := hg.idxOf_lt ho hd
          obtain ⟨hvalue, hcalm⟩ := ih (hg.callee_mem_keys hd) (by omega) (hfront d hd) hw'
          exact ⟨hvalue m (by omega), hcalm⟩
      -- The walk does not depend on the depth to which its callees are made anew, so neither does
      -- the signature.
      have hunfolded : ∀ m, order.idxOf name < m → g.unfolded context m name =
          some (signatureOf name r (walk Watched.notebook g context
            (Watched.ask (watch g context n)) name r w).returns) := by
        intro m hm
        obtain ⟨m, rfl⟩ : ∃ k, m = k + 1 := ⟨m - 1, by omega⟩
        rw [unfolded, read, readWith_of_new forgetful g context _ rfl hr, (hstep m hm).returns]
      rw [readWith_of_new Watched.notebook g context _ hget hr]
      refine ⟨fun m hm => (hunfolded m hm).symm, ?_⟩
      have hnot : name ∉ busy := fun hmem => absurd (hbusy name hmem) (Nat.lt_irrefl _)
      exact (hstep n hn).state.finish hnot hunfolded

/-! ## Sequences of readings -/

/-- Reads routines one after the other. -/
def analyzeEach (g : CallGraph ω) (context : Context ω) (names : List Text) (r : Readings ω) :
    Readings ω :=
  names.foldl (fun r name => (g.analyze context name r).2) r

/-- Reads routines one after the other, and notes the calls. -/
def watchEach (g : CallGraph ω) (context : Context ω) (names : List Text) (w : Watched ω) :
    Watched ω :=
  names.foldl (fun w name => (g.watch context (g.routines.size + 1) name w).2) w

/-- Watching routines one after another stays calm and reads what reading them does. -/
theorem watchEach_calm (hg : g.Faithful) {order : List Text} (ho : g.calleesFirst? = some order)
    {names : List Text} (hnames : ∀ k ∈ names, k ∈ g.routines.keys) {w : Watched ω}
    (hw : g.Calm context order [] w) :
    (g.watchEach context names w).readings = g.analyzeEach context names w.readings ∧
      g.Calm context order [] (g.watchEach context names w) := by
  induction names generalizing w with
  | nil => exact ⟨rfl, hw⟩
  | cons name names ih =>
    have hname := hnames name List.mem_cons_self
    obtain ⟨-, hcalm⟩ := watch_calm hg ho (g.routines.size + 1) hname (hg.idxOf_lt_size ho name)
      (by simp) hw
    have hreadings : (g.watch context (g.routines.size + 1) name w).2.readings =
        (g.analyze context name w.readings).2 :=
      (agree_watch hg _ hname w w.readings rfl).2
    obtain ⟨hrest, hcalm'⟩ := ih (fun k hk => hnames k (List.mem_cons_of_mem name hk)) hcalm
    refine ⟨?_, hcalm'⟩
    rw [watchEach, List.foldl_cons, analyzeEach, List.foldl_cons]
    rw [watchEach, analyzeEach, hreadings] at hrest
    exact hrest

/-- Readings of all routines leave signatures for exactly these. -/
theorem mem_keys_analyzeEach (hg : g.Faithful) {names : List Text}
    (hnames : ∀ k, k ∈ names ↔ k ∈ g.routines.keys) {k : Text} :
    k ∈ (g.analyzeEach context names .empty).analyzed.keys ↔ k ∈ g.routines.keys := by
  have hsize : g.routines.keys.length ≤ g.routines.size + 1 := by
    rw [Table.size_eq_length_keys]
    omega
  obtain ⟨hreadings, hcons, -, hkeys⟩ :=
    @reads_foldl _ _ g context hg (fun _ => pure none) _ hsize names
      (fun k hk => (hnames k).1 hk) _ .empty rfl
  have hrun : g.analyzeEach context names .empty = _ := hreadings.symm
  rw [hrun]
  exact ⟨fun h => hcons.declared k (List.mem_append_left _ h), fun h => hkeys k ((hnames k).2 h)⟩

/-- Readings of all routines leave the signatures that are made anew for every call. -/
theorem get?_analyzeEach (hg : g.Faithful) {order : List Text} (ho : g.calleesFirst? = some order)
    {names : List Text} (hnames : ∀ k, k ∈ names ↔ k ∈ g.routines.keys) (k : Text) :
    (g.analyzeEach context names .empty).analyzed.get? k =
      if k ∈ g.routines.keys then g.unfolded context (g.routines.size + 1) k else none := by
  obtain ⟨hreadings, hcalm⟩ :=
    watchEach_calm (w := .empty) hg ho (fun k hk => (hnames k).1 hk) (.empty order)
  have hsettled : g.Settled context order (g.analyzeEach context names .empty) :=
    hreadings ▸ hcalm.settled
  by_cases hk : k ∈ g.routines.keys
  · obtain ⟨v, hv⟩ := Table.mem_keys_iff.1 ((mem_keys_analyzeEach hg hnames).2 hk)
    rw [if_pos hk, hv, hsettled k v hv _ (hg.idxOf_lt_size ho k)]
  · rw [if_neg hk, Table.get?_eq_none_iff, mem_keys_analyzeEach hg hnames]
    exact hk

end CallGraph

/-- **The order of readings makes no difference without recursion.** Let the routines of a program
have an order with the callees first. Then for every context, any two sequences of readings that
each ask for all routines, in any order and as often as they like, leave the same signatures under
the same names. In neither of them does a call meet a routine that is being read: so it is noted in
the watched sequences, which leave the same readings. -/
theorem CallGraph.analyze_independent [Weight ω] (p : Program) (context : Context ω)
    (h : (ofProgram p : CallGraph ω).calleesFirst? ≠ none) {names names' : List Text}
    (hnames : ∀ k, k ∈ names ↔ k ∈ p.routineNames)
    (hnames' : ∀ k, k ∈ names' ↔ k ∈ p.routineNames) :
    let g : CallGraph ω := .ofProgram p
    (g.analyzeEach context names .empty).analyzed.entries.Perm
      (g.analyzeEach context names' .empty).analyzed.entries ∧
      ∀ ns ∈ [names, names'], (g.watchEach context ns .empty).readings =
        g.analyzeEach context ns .empty ∧ (g.watchEach context ns .empty).Undisturbed := by
  intro g
  have hg : g.Faithful := faithful_ofProgram p
  obtain ⟨order, ho⟩ := Option.ne_none_iff_exists'.1 h
  have hkeys : ∀ ns : List Text, (∀ k, k ∈ ns ↔ k ∈ p.routineNames) → ∀ k, k ∈ ns ↔
      k ∈ g.routines.keys :=
    fun ns hns k => (hns k).trans mem_keys_iff_mem_routineNames.symm
  constructor
  · refine Table.entries_perm fun k => ?_
    rw [get?_analyzeEach hg ho (hkeys names hnames), get?_analyzeEach hg ho (hkeys names' hnames')]
  · intro ns hns
    have hdeclared : ∀ k ∈ ns, k ∈ g.routines.keys := by
      rcases List.mem_pair.1 hns with rfl | rfl
      · exact fun k hk => (hkeys ns hnames k).1 hk
      · exact fun k hk => (hkeys ns hnames' k).1 hk
    obtain ⟨hreadings, hcalm⟩ := watchEach_calm hg ho hdeclared (.empty order)
    exact ⟨hreadings, hcalm.undisturbed⟩

/-- A module whose first routine calls the second. -/
def callingPair (a b : Text) : Program :=
  [.routine .function a [] [.ret (some (.call (.ident b none) [] none)) none] false none,
    .routine .function b [] [] false none]

/-- A caller and its callee can be asked for in either order: in one the callee is read on the way,
in the other before. -/
theorem CallGraph.analyze_independent_pair :
    let a : Text := "A"
    let b : Text := "B"
    (ofProgram (callingPair a b) : CallGraph Float).calleesFirst? = some [b, a] ∧
      ((ofProgram (callingPair a b)).analyzeEach (.make .global .empty : Context Float) [a, b]
        .empty).analyzed.entries.Perm
        ((ofProgram (callingPair a b)).analyzeEach
          (.make .global .empty) [b, a, a] .empty).analyzed.entries := by
  intro a b
  have ho : (ofProgram (callingPair a b) : CallGraph Float).calleesFirst? = some [b, a] := by decide
  have hnames : ∀ k, k ∈ [a, b] ↔ k ∈ (callingPair a b).routineNames := fun k => Iff.rfl
  have hnames' : ∀ k, k ∈ [b, a, a] ↔ k ∈ (callingPair a b).routineNames := by
    intro k
    rw [← hnames]
    simp [or_comm]
  exact ⟨ho, (analyze_independent _ (.make .global .empty) (by rw [ho]; simp) hnames hnames').1⟩

end Gradual
