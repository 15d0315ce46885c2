import Gradual.Calls.Graph
import Gradual.Proofs.Graph.Order

/-!
# Call graphs of programs

Every routine is listed under its own name with the calls in its body. So the counts of callers are
right, and an order with the callees first, if there is one, has every routine behind all routines
that it calls.
-/

namespace Gradual

/-- What is found for a name is listed. -/
theorem Table.get?_of_entry {α : Type} {t : Table Text α} {name k : Text} {a : α}
    (h : t.findEntry? name = some (k, a)) : t.get? k = some a := by
  rw [Table.findEntry?] at h
  split at h
  · next a' hget =>
    cases h
    exact hget
  · exact get?_eq_some_iff.2 (List.mem_of_find?_eq_some h)

namespace CallGraph

variable {ω : Type}

/-- The routines are listed under their own names, and the calls are those in their bodies. -/
structure Faithful (g : CallGraph ω) : Prop where
  name_eq : ∀ k r, g.routines.get? k = some r → r.name = k
  callsFrom_eq : ∀ k r, g.routines.get? k = some r → g.callsFrom k = Stmt.callsIn r.body
  mem_keys : ∀ k, g.callsFrom k ≠ [] → k ∈ g.routines.keys

/-- The graph of a module is faithful. -/
theorem faithful_ofProgram (p : Program) : (ofProgram p : CallGraph ω).Faithful := by
  have hcalls : ∀ k, (ofProgram p : CallGraph ω).calls.get? k =
      ((ofProgram p : CallGraph ω).routines.get? k).map fun r => Stmt.callsIn r.body :=
    Table.get?_ofList_map Routine.name (fun r => Stmt.callsIn r.body) (p.filterMap Routine.ofStmt?)
  refine ⟨?_, ?_, ?_⟩
  · intro k r hr
    obtain ⟨r', -, heq⟩ := List.mem_map.1 (Table.mem_of_get?_ofList hr)
    cases heq
    rfl
  · intro k r hr
    rw [callsFrom, Table.getD, hcalls, hr]
    rfl
  · intro k hk
    rw [callsFrom, Table.getD, hcalls] at hk
    cases hr : (ofProgram p : CallGraph ω).routines.get? k with
    | none =>
      rw [hr] at hk
      exact absurd rfl hk
    | some r => exact Table.mem_keys_iff.2 ⟨r, hr⟩

/-- The listed routines are those that the program declares. -/
theorem mem_keys_ofProgram {p : Program} {name : Text} :
    name ∈ (ofProgram p : CallGraph ω).routines.keys ↔
      ∃ kind params body exported loc, Stmt.routine kind name params body exported loc ∈ p := by
  have hkeys : name ∈ (ofProgram p : CallGraph ω).routines.keys ↔
      ∃ r ∈ p.filterMap (Routine.ofStmt? (ω := ω)), r.name = name := by
    rw [ofProgram, Table.mem_keys_ofList, List.map_map, List.mem_map]
    rfl
  rw [hkeys]
  constructor
  · rintro ⟨r, hr, rfl⟩
    obtain ⟨s, hs, heq⟩ := List.mem_filterMap.1 hr
    cases s with
    | routine kind name params body exported loc =>
      cases heq
      exact ⟨kind, params, body, exported, loc, hs⟩
    | _ => cases heq
  · rintro ⟨kind, params, body, exported, loc, hs⟩
    exact ⟨_, List.mem_filterMap.2 ⟨_, hs, rfl⟩, rfl⟩

namespace Faithful

variable {g : CallGraph ω}

/-- A listed name finds its own routine. -/
theorem routine?_eq {k : Text} (hk : k ∈ g.routines.keys) :
    ∃ r, g.routine? k = some r ∧ g.routines.get? k = some r := by
  obtain ⟨r, hr⟩ := Table.mem_keys_iff.1 hk
  refine ⟨r, ?_, hr⟩
  rw [routine?, Table.findWord?, Table.findEntry?, hr]
  rfl

/-- The spelling of a declaration is a listed name. -/
theorem mem_of_declaredName? (h : g.Faithful) {name d : Text} (hd : g.declaredName? name = some d) :
    d ∈ g.routines.keys := by
  obtain ⟨r, hr, rfl⟩ := Option.map_eq_some_iff.1 hd
  obtain ⟨⟨k, r'⟩, hentry, rfl⟩ := Option.map_eq_some_iff.1 hr
  have hget := Table.get?_of_entry hentry
  rw [h.name_eq k r' hget]
  exact Table.mem_keys_iff.2 ⟨r', hget⟩

/-- A routine has the callees that its calls are declared as. -/
theorem mem_callees {u d : Text} :
    d ∈ g.callees u ↔ ∃ c ∈ g.callsFrom u, g.declaredName? c.callee = some d := by
  rw [callees, Table.mem_keys_ofList, List.map_map, List.mem_map]
  constructor
  · rintro ⟨d', hd', rfl⟩
    exact List.mem_filterMap.1 hd'
  · rintro ⟨c, hc, hd⟩
    exact ⟨d, List.mem_filterMap.2 ⟨c, hc, hd⟩, rfl⟩

theorem callee_mem_keys (h : g.Faithful) {u d : Text} (hd : d ∈ g.callees u) :
    d ∈ g.routines.keys := by
  obtain ⟨c, -, hc⟩ := mem_callees.1 hd
  exact h.mem_of_declaredName? hc

theorem caller_mem_keys (h : g.Faithful) {u d : Text} (hd : d ∈ g.callees u) :
    u ∈ g.routines.keys := by
  obtain ⟨c, hc, -⟩ := mem_callees.1 hd
  exact h.mem_keys u (List.ne_nil_of_mem hc)

end Faithful

/-! ## Order -/

/-- Counting one more for each name of a list. -/
theorem getD_foldl_count (ds : List Text) (t : Table Text Nat) (k : Text) :
    (ds.foldl (fun counts d => counts.insert d (counts.getD d 0 + 1)) t).getD k 0 =
      t.getD k 0 + ds.count k := by
  induction ds generalizing t with
  | nil => rw [List.foldl_nil, List.count_nil, Nat.add_zero]
  | cons d ds ih =>
    rw [List.foldl_cons, ih, Table.getD_insert]
    by_cases h : k = d
    · rw [if_pos h, h, List.count_cons_self]
      omega
    · rw [if_neg h, List.count_cons_of_ne fun h' => h h'.symm]

theorem keys_foldl_count {ds : List Text} {t : Table Text Nat} (h : ∀ d ∈ ds, d ∈ t.keys) :
    (ds.foldl (fun counts d => counts.insert d (counts.getD d 0 + 1)) t).keys = t.keys := by
  induction ds generalizing t with
  | nil => rfl
  | cons d ds ih =>
    have hkeys : (t.insert d (t.getD d 0 + 1)).keys = t.keys := by
      rw [Table.keys_insert, if_pos (h d List.mem_cons_self)]
    rw [List.foldl_cons, ih, hkeys]
    intro d' hd'
    rw [hkeys]
    exact h d' (List.mem_cons_of_mem d hd')

namespace Faithful

variable {g : CallGraph ω}

/-- The callers of all routines are counted, and of nothing else. -/
theorem keys_callerCounts (h : g.Faithful) : g.callerCounts.keys = g.routines.keys := by
  rw [callerCounts, keys_foldl_count, Table.keys_map]
  intro d hd
  obtain ⟨u, -, hu⟩ := List.mem_flatMap.1 hd
  rw [Table.keys_map]
  exact h.callee_mem_keys hu

/-- Callers are counted once for each call. -/
theorem counts (h : g.Faithful) : Order.Counts g.callees g.callerCounts := by
  constructor
  · intro t
    have hzero : (g.routines.map fun _ _ => 0).getD t 0 = 0 := by
      rw [Table.getD, Table.get?_map]
      cases g.routines.get? t <;> rfl
    rw [h.keys_callerCounts, callerCounts, getD_foldl_count, hzero, Nat.zero_add]
  · intro u t ht
    rw [h.keys_callerCounts]
    exact h.caller_mem_keys ht

/-- The routines in an order with the callees first: each of them once, and what it calls before
it. -/
theorem calleesFirst?_spec (h : g.Faithful) {order : List Text}
    (ho : g.calleesFirst? = some order) : order.Perm g.routines.keys ∧
      ∀ xs v ys, order = xs ++ v :: ys → ∀ d ∈ g.callees v, d ∈ xs := by
  obtain ⟨sorted, hs, rfl⟩ := Option.map_eq_some_iff.1 ho
  obtain ⟨hperm, hforward⟩ := h.counts.perm_of_sort? hs
  rw [h.keys_callerCounts] at hperm hforward
  refine ⟨(List.reverse_perm sorted).trans hperm, ?_⟩
  intro xs v ys heq d hd
  have hsorted : sorted = ys.reverse ++ v :: xs.reverse := by
    rw [← List.reverse_reverse sorted, heq]
    simp
  have hnot : v ∉ ys.reverse := by
    have hnodup : sorted.Nodup := hperm.nodup_iff.2 g.routines.nodup_keys
    rw [hsorted] at hnodup
    exact fun hmem => (List.nodup_append.1 hnodup).2.2 v hmem v List.mem_cons_self rfl
  have hmem : d ∈ ys.reverse ++ v :: xs.reverse := hsorted ▸ hperm.mem_iff.2 (h.callee_mem_keys hd)
  have hv : v ∈ g.routines.keys := h.caller_mem_keys hd
  -- The caller `v` stands in front of `d` in the order before it was turned round.
  rcases List.mem_append.1 hmem with hmem | hmem
  · obtain ⟨as, bs, hys⟩ := List.append_of_mem hmem
    have hsplit : sorted = as ++ d :: (bs ++ v :: xs.reverse) := by
      rw [hsorted, hys, List.append_assoc, List.cons_append]
    have hfront : v ∈ as := hforward as d _ hsplit v hv hd
    exact absurd (hys ▸ List.mem_append_left _ hfront) hnot
  · rcases List.mem_cons.1 hmem with rfl | hmem
    · exact absurd (hforward _ d _ hsorted d hv hd) hnot
    · exact List.mem_reverse.1 hmem

/-- All routines are read, in either order. -/
theorem mem_calleesFirst (h : g.Faithful) {name : Text} :
    name ∈ g.calleesFirst?.getD g.routines.keys ↔ name ∈ g.routines.keys := by
  cases ho : g.calleesFirst? with
  | none => rfl
  | some order => exact (h.calleesFirst?_spec ho).1.mem_iff

end Faithful

end CallGraph

end Gradual
