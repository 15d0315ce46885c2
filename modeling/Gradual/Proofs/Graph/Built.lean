import Gradual.Graph.Dependency
import Gradual.Proofs.Graph.Order

/-!
# Graphs that were built

A graph is built by adding nodes and edges. Whatever the order of the additions, the edges under a
key are those of the added edges that start or end there, in the order in which they were added, and
both ends of every edge are nodes.
-/

namespace Gradual

/-- An addition to a graph. -/
inductive GraphUpdate where
  | node (n : Node)
  | edge (e : Edge)

namespace DependencyGraph

/-- Makes an addition. -/
def apply (g : DependencyGraph) : GraphUpdate → DependencyGraph
  | .node n => g.addNode n
  | .edge e => g.addEdge e

/-- The graph after additions. -/
def ofUpdates (us : List GraphUpdate) : DependencyGraph := us.foldl apply empty

/-- The graph holds the edges, listed in the order in which they were added. -/
structure Holds (g : DependencyGraph) (log : List Edge) : Prop where
  key_eq : ∀ k n, g.table.get? k = some n → n.key = k
  edgesFrom_eq : ∀ k, g.edgesFrom k = log.filter fun e => e.source.key == k
  edgesTo_eq : ∀ k, g.edgesTo k = log.filter fun e => e.target.key == k
  source_mem : ∀ e ∈ log, e.source.key ∈ g.table.keys
  target_mem : ∀ e ∈ log, e.target.key ∈ g.table.keys

theorem holds_empty : empty.Holds [] := by
  refine ⟨?_, ?_, ?_, by simp, by simp⟩
  · intro k n h
    cases h
  · intro k
    rfl
  · intro k
    rfl

/-- An edge is appended under its key only. -/
theorem getD_append (t : Table Text (List Edge)) (key k : Text) (e : Edge) :
    (append t key e).getD k [] = if key = k then t.getD k [] ++ [e] else t.getD k [] := by
  rw [append, Table.getD_insert]
  by_cases h : key = k
  · rw [if_pos h.symm, if_pos h, h]
  · rw [if_neg fun h' => h h'.symm, if_neg h]

namespace Holds

variable {g : DependencyGraph} {log : List Edge}

/-- Nodes do not change which edges the graph holds. -/
theorem addNode (h : g.Holds log) (n : Node) : (g.addNode n).Holds log := by
  refine ⟨?_, h.edgesFrom_eq, h.edgesTo_eq, ?_, ?_⟩
  · intro k m hm
    rcases Table.get?_insertNew hm with hm | ⟨rfl, rfl⟩
    · exact h.key_eq k m hm
    · rfl
  · intro e he
    exact Table.mem_keys_insertNew.2 (.inr (h.source_mem e he))
  · intro e he
    exact Table.mem_keys_insertNew.2 (.inr (h.target_mem e he))

/-- An edge comes behind those that the graph holds. -/
theorem addEdge (h : g.Holds log) (e : Edge) : (g.addEdge e).Holds (log ++ [e]) := by
  have hnodes := (h.addNode e.source).addNode e.target
  have hends : ∀ k, k = e.target.key ∨ k = e.source.key ∨ k ∈ g.table.keys →
      k ∈ (g.addEdge e).table.keys := by
    intro k hk
    exact Table.mem_keys_insertNew.2 (hk.imp_right Table.mem_keys_insertNew.2)
  refine ⟨hnodes.key_eq, ?_, ?_, ?_, ?_⟩
  · intro k
    show (append g.outgoing e.source.key e).getD k [] = _
    have hk : g.outgoing.getD k [] = _ := h.edgesFrom_eq k
    rw [getD_append, hk, List.filter_append]
    by_cases hs : e.source.key = k <;> simp [hs]
  · intro k
    show (append g.incoming e.target.key e).getD k [] = _
    have hk : g.incoming.getD k [] = _ := h.edgesTo_eq k
    rw [getD_append, hk, List.filter_append]
    by_cases ht : e.target.key = k <;> simp [ht]
  · intro e' he'
    rcases List.mem_append.1 he' with he' | he'
    · exact hends _ (.inr (.inr (h.source_mem e' he')))
    · rw [List.mem_singleton.1 he']
      exact hends _ (.inr (.inl rfl))
  · intro e' he'
    rcases List.mem_append.1 he' with he' | he'
    · exact hends _ (.inr (.inr (h.target_mem e' he')))
    · rw [List.mem_singleton.1 he']
      exact hends _ (.inl rfl)

/-- Any updates leave a graph that holds some edges, by induction on them. -/
theorem foldl (us : List GraphUpdate) (h : g.Holds log) :
    ∃ log', (us.foldl apply g).Holds log' := by
  induction us generalizing g log with
  | nil => exact ⟨log, h⟩
  | cons u us ih =>
    cases u with
    | node n => exact ih (h.addNode n)
    | edge e => exact ih (h.addEdge e)

end Holds

/-- Every graph that was built holds some edges. -/
theorem holds_ofUpdates (us : List GraphUpdate) : ∃ log, (ofUpdates us).Holds log :=
  holds_empty.foldl us

/-! ## Links -/

/-- There is an edge from the first key to the second. -/
def Linked (g : DependencyGraph) (a b : Text) : Prop :=
  ∃ e ∈ g.edges, e.source.key = a ∧ e.target.key = b

/-- The keys that the edges out of a key lead to, once per edge. -/
def targets (g : DependencyGraph) (k : Text) : List Text :=
  (g.edgesFrom k).map fun e => e.target.key

namespace Holds

variable {g : DependencyGraph} {log : List Edge}

/-- The edges of a graph are those it holds. -/
theorem mem_edges (h : g.Holds log) {e : Edge} : e ∈ g.edges ↔ e ∈ log := by
  have hfrom : e ∈ g.edges ↔ ∃ k, e ∈ g.edgesFrom k := by
    rw [edges, List.mem_flatten]
    constructor
    · rintro ⟨es, hes, he⟩
      obtain ⟨k, hk⟩ := Table.mem_values_iff.1 hes
      exact ⟨k, by rwa [edgesFrom, Table.getD, hk]⟩
    · rintro ⟨k, he⟩
      rw [edgesFrom, Table.getD] at he
      cases hk : g.outgoing.get? k with
      | none =>
        rw [hk] at he
        cases he
      | some es =>
        rw [hk] at he
        exact ⟨es, Table.mem_values_iff.2 ⟨k, hk⟩, he⟩
  rw [hfrom]
  constructor
  · rintro ⟨k, he⟩
    rw [h.edgesFrom_eq] at he
    exact (List.mem_filter.1 he).1
  · intro he
    refine ⟨e.source.key, ?_⟩
    rw [h.edgesFrom_eq]
    exact List.mem_filter.2 ⟨he, beq_self_eq_true _⟩

/-- A key leads to those that it is linked to. -/
theorem mem_targets (h : g.Holds log) {a b : Text} : b ∈ g.targets a ↔ g.Linked a b := by
  rw [targets, List.mem_map, Linked]
  constructor
  · rintro ⟨e, he, rfl⟩
    rw [h.edgesFrom_eq] at he
    obtain ⟨he, hsource⟩ := List.mem_filter.1 he
    exact ⟨e, h.mem_edges.2 he, beq_iff_eq.1 hsource, rfl⟩
  · rintro ⟨e, he, rfl, rfl⟩
    refine ⟨e, ?_, rfl⟩
    rw [h.edgesFrom_eq]
    exact List.mem_filter.2 ⟨h.mem_edges.1 he, beq_self_eq_true _⟩

/-- Links start in the graph. -/
theorem source_mem_keys (h : g.Holds log) {a b : Text} (hab : g.Linked a b) : a ∈ g.table.keys := by
  obtain ⟨e, he, rfl, -⟩ := hab
  exact h.source_mem e (h.mem_edges.1 he)

/-- Links end in the graph. -/
theorem target_mem_keys (h : g.Holds log) {a b : Text} (hab : g.Linked a b) : b ∈ g.table.keys := by
  obtain ⟨e, he, -, rfl⟩ := hab
  exact h.target_mem e (h.mem_edges.1 he)

end Holds

/-! ## Counting edges -/

/-- Edges sorted by the keys of one of their ends are all edges. -/
theorem flatMap_filter_perm {f : Edge → Text} {ks : List Text} (hks : ks.Nodup) {log : List Edge}
    (hlog : ∀ e ∈ log, f e ∈ ks) : (ks.flatMap fun k => log.filter fun e => f e == k).Perm log := by
  induction ks generalizing log with
  | nil =>
    cases log with
    | nil => exact .refl _
    | cons e log => exact absurd (hlog e List.mem_cons_self) List.not_mem_nil
  | cons k ks ih =>
    obtain ⟨hk, hks⟩ := List.nodup_cons.1 hks
    have hothers : ∀ e ∈ log.filter (fun e => !(f e == k)), f e ∈ ks := by
      intro e he
      obtain ⟨he, hne⟩ := List.mem_filter.1 he
      rcases List.mem_cons.1 (hlog e he) with heq | hmem
      · simp [heq] at hne
      · exact hmem
    have hsame : (ks.flatMap fun k' => log.filter fun e => f e == k') =
        ks.flatMap fun k' => (log.filter fun e => !(f e == k)).filter fun e => f e == k' := by
      rw [List.flatMap_def, List.flatMap_def]
      refine congrArg List.flatten (List.map_congr_left fun k' hk' => ?_)
      rw [List.filter_filter]
      refine List.filter_congr fun e _ => ?_
      by_cases he : f e = k'
      · have hne : k' ≠ k := by
          rintro rfl
          exact hk hk'
        simp [he, hne]
      · simp [he]
    rw [List.flatMap_cons, hsame]
    exact ((ih hks hothers).append_left _).trans (List.filter_append_perm _ _)

/-- The edges into each key are counted rightly. -/
theorem Holds.counts {g : DependencyGraph} {log : List Edge} (h : g.Holds log) :
    Order.Counts g.targets (g.table.map fun k _ => (g.edgesTo k).length) := by
  constructor
  · intro t
    have hcount : (g.table.map fun k _ => (g.edgesTo k).length).getD t 0 =
        (g.edgesTo t).length := by
      rw [Table.getD, Table.get?_map]
      cases hn : g.table.get? t with
      | some n => rfl
      | none =>
        have hnil : g.edgesTo t = [] := by
          rw [h.edgesTo_eq, List.filter_eq_nil_iff]
          intro e he ht
          have hmem := h.target_mem e he
          rw [beq_iff_eq.1 ht] at hmem
          exact Table.get?_eq_none_iff.1 hn hmem
        rw [hnil]
        rfl
    have htargets : g.table.keys.flatMap g.targets =
        (g.table.keys.flatMap fun k => log.filter fun e => e.source.key == k).map fun e =>
          e.target.key := by
      rw [List.map_flatMap]
      refine congrArg g.table.keys.flatMap (funext fun k => ?_)
      rw [targets, h.edgesFrom_eq]
    have hnodup : g.table.keys.Nodup := g.table.nodup_keys
    have hperm := (flatMap_filter_perm hnodup h.source_mem).map fun e => e.target.key
    rw [hcount, Table.keys_map, htargets, hperm.count_eq, h.edgesTo_eq,
      ← List.countP_eq_length_filter, List.count, List.countP_map]
    rfl
  · intro u t ht
    rw [Table.keys_map]
    exact h.source_mem_keys (h.mem_targets.1 ht)

end DependencyGraph

end Gradual
