import Gradual.Proofs.Graph.Built

/-!
# What a graph stores

A graph keeps its nodes, the edges out of each key, the edges into each key and the number of edges
apart from each other. They agree with one list of additions all the same, whatever was added and in
whatever order: a node that is added twice, two edges between the same nodes, an edge from a node to
itself.

Main statement: `stored_ofUpdates`.
-/

namespace Gradual

namespace GraphUpdate

/-- The nodes that an addition mentions: an edge mentions its source and then its target. -/
def nodes : GraphUpdate → List Node
  | node n => [n]
  | edge e => [e.source, e.target]

/-- The edge that an addition adds, if it adds one. -/
def edge? : GraphUpdate → Option Edge
  | node _ => none
  | edge e => some e

end GraphUpdate

namespace Table

variable {κ ν : Type} [DecidableEq κ]

/-- The values are what is read under the keys. -/
theorem values_eq_map_getD (t : Table κ ν) (d : ν) : t.values = t.keys.map fun k => t.getD k d := by
  unfold values keys
  rw [List.map_map]
  apply List.map_congr_left
  intro e he
  have hget : t.get? e.1 = some e.2 := get?_eq_some_iff.2 he
  show e.2 = t.getD e.1 d
  unfold getD
  rw [hget, Option.getD_some]

/-- What was there stays, and a pair is added only under a new key. -/
theorem get?_insertNew_eq (t : Table κ ν) (k k' : κ) (v : ν) :
    (t.insertNew k v).get? k' = (t.get? k').or (if k = k' then some v else none) := by
  unfold insertNew
  split
  · rename_i hmem
    rw [contains_iff] at hmem
    by_cases hk : k = k'
    · obtain ⟨v', hv'⟩ := mem_keys_iff.1 hmem
      rw [← hk, hv', Option.some_or]
    · rw [if_neg hk, Option.or_none]
  · rename_i hmem
    rw [contains_iff] at hmem
    rw [get?_insert]
    by_cases hk : k = k'
    · have hnone : t.get? k' = none := by
        rw [← hk]
        exact get?_eq_none_iff.2 hmem
      rw [if_pos hk.symm, if_pos hk, hnone, Option.none_or]
    · have hne : k' ≠ k := fun h => hk h.symm
      rw [if_neg hne, if_neg hk, Option.or_none]

end Table

namespace DependencyGraph

/-- The graph stores the nodes that were mentioned and the edges that were added, both listed in
their order. -/
structure Stores (g : DependencyGraph) (mentioned : List Node) (log : List Edge) : Prop where
  get?_eq : ∀ k, g.table.get? k = mentioned.find? fun n => n.key == k
  holds : g.Holds log
  edgeCount_eq : g.edgeCount = log.length

theorem stores_empty : empty.Stores [] [] := ⟨fun _ => rfl, holds_empty, rfl⟩

namespace Stores

variable {g : DependencyGraph} {mentioned : List Node} {log : List Edge}

/-! ## Additions -/

/-- A node is mentioned once more. -/
theorem addNode (h : g.Stores mentioned log) (n : Node) :
    (g.addNode n).Stores (mentioned ++ [n]) log := by
  refine ⟨?_, h.holds.addNode n, h.edgeCount_eq⟩
  intro k
  show (g.table.insertNew n.key n).get? k = _
  rw [Table.get?_insertNew_eq, h.get?_eq, List.find?_append, List.find?_cons, List.find?_nil]
  by_cases hk : n.key = k
  · rw [if_pos hk, hk, beq_self_eq_true]
  · rw [if_neg hk, beq_false_of_ne hk]

/-- An edge is stored behind the others and mentions both of its ends. -/
theorem addEdge (h : g.Stores mentioned log) (e : Edge) :
    (g.addEdge e).Stores (mentioned ++ [e.source, e.target]) (log ++ [e]) := by
  have hends := (h.addNode e.source).addNode e.target
  rw [List.append_assoc, List.singleton_append] at hends
  refine ⟨hends.get?_eq, h.holds.addEdge e, ?_⟩
  show g.edgeCount + 1 = _
  rw [h.edgeCount_eq, List.length_append, List.length_singleton]

theorem apply (h : g.Stores mentioned log) (u : GraphUpdate) :
    (g.apply u).Stores (mentioned ++ u.nodes) (log ++ u.edge?.toList) := by
  cases u with
  | node n =>
    have hnode := h.addNode n
    rw [← List.append_nil log] at hnode
    exact hnode
  | edge e => exact h.addEdge e

/-- Updates one after another store their edges and mention their nodes, by induction on them. -/
theorem foldl (h : g.Stores mentioned log) (us : List GraphUpdate) :
    (us.foldl DependencyGraph.apply g).Stores (mentioned ++ us.flatMap GraphUpdate.nodes)
      (log ++ us.filterMap GraphUpdate.edge?) := by
  induction us generalizing g mentioned log with
  | nil =>
    rw [List.flatMap_nil, List.filterMap_nil, List.append_nil, List.append_nil]
    exact h
  | cons u us ih =>
    have hrest := ih (h.apply u)
    rw [List.append_assoc, List.append_assoc] at hrest
    rw [List.flatMap_cons, List.filterMap_cons]
    cases hu : u.edge? with
    | none =>
      rw [hu, Option.toList_none, List.nil_append] at hrest
      exact hrest
    | some e =>
      rw [hu, Option.toList_some, List.singleton_append] at hrest
      exact hrest

end Stores

/-! ## Lists of edges -/

/-- Lists of edges under keys hold all edges if every edge is under its key. -/
theorem flatten_values_perm {t : Table Text (List Edge)} {f : Edge → Text} {log : List Edge}
    (h : ∀ k, t.getD k [] = log.filter fun e => f e == k) : t.values.flatten.Perm log := by
  have hkeys : ∀ e ∈ log, f e ∈ t.keys := by
    intro e he
    apply Classical.byContradiction
    intro hmem
    have hnil : t.getD (f e) [] = [] := by
      unfold Table.getD
      rw [Table.get?_eq_none_iff.2 hmem, Option.getD_none]
    have hfilter : e ∈ log.filter fun e' => f e' == f e :=
      List.mem_filter.2 ⟨he, beq_self_eq_true _⟩
    rw [← h, hnil] at hfilter
    exact List.not_mem_nil hfilter
  have hlists : t.values = t.keys.map fun k => log.filter fun e => f e == k := by
    rw [t.values_eq_map_getD []]
    apply List.map_congr_left
    intro k _
    exact h k
  rw [hlists, ← List.flatMap_def]
  exact flatMap_filter_perm t.nodup_keys hkeys

namespace Holds

variable {g : DependencyGraph} {log : List Edge}

/-- Either side of a pair of nodes counts the edges between them. -/
theorem count_dependencies (h : g.Holds log) (a b : Node) :
    ((g.dependencies a).map Node.key).count b.key =
      log.countP fun e => e.target.key == b.key && e.source.key == a.key := by
  unfold dependencies
  rw [h.edgesFrom_eq, List.map_map, List.count, List.countP_map, List.countP_filter]
  rfl

/-- A node depends on another as often as edges lead from it to that one. -/
theorem count_dependents (h : g.Holds log) (a b : Node) :
    ((g.dependents b).map Node.key).count a.key =
      log.countP fun e => e.source.key == a.key && e.target.key == b.key := by
  unfold dependents
  rw [h.edgesTo_eq, List.map_map, List.count, List.countP_map, List.countP_filter]
  rfl

end Holds

/-- **What a graph stores.** After any additions to the graph without nodes: a key leads to the
first node with this key that was mentioned; both ends of every added edge are there; the edges out
of a key, and those into it, are the added edges from it, and to it, in the order of the additions,
so that the lists of either direction together are the added edges; the edges are counted rightly;
and a node is among what another depends on as often as the other is among what depends on it. -/
theorem stored_ofUpdates (us : List GraphUpdate) :
    let g := ofUpdates us
    let mentioned := us.flatMap GraphUpdate.nodes
    let log := us.filterMap GraphUpdate.edge?
    (∀ k n, g.table.get? k = some n → n.key = k) ∧
      (∀ k, g.table.get? k = mentioned.find? fun n => n.key == k) ∧
      (∀ e ∈ log, g.hasNode e.source = true ∧ g.hasNode e.target = true) ∧
      (∀ k, g.edgesFrom k = log.filter fun e => e.source.key == k) ∧
      (∀ k, g.edgesTo k = log.filter fun e => e.target.key == k) ∧
      g.outgoing.values.flatten.Perm log ∧
      g.incoming.values.flatten.Perm log ∧
      g.edges.length = g.stats.edges ∧
      ∀ a b : Node, ((g.dependencies a).map Node.key).count b.key =
        ((g.dependents b).map Node.key).count a.key := by
  intro g mentioned log
  have hstores : g.Stores mentioned log := by
    have hrun := stores_empty.foldl us
    rw [List.nil_append, List.nil_append] at hrun
    exact hrun
  have hholds := hstores.holds
  have hout : g.outgoing.values.flatten.Perm log := flatten_values_perm hholds.edgesFrom_eq
  have hin : g.incoming.values.flatten.Perm log := flatten_values_perm hholds.edgesTo_eq
  refine ⟨hholds.key_eq, hstores.get?_eq, ?_, hholds.edgesFrom_eq, hholds.edgesTo_eq, hout,
    hin, ?_, ?_⟩
  · intro e he
    exact ⟨Table.contains_iff.2 (hholds.source_mem e he),
      Table.contains_iff.2 (hholds.target_mem e he)⟩
  · calc g.edges.length = log.length := hout.length_eq
      _ = g.stats.edges := hstores.edgeCount_eq.symm
  · intro a b
    rw [hholds.count_dependencies, hholds.count_dependents]
    apply List.countP_congr
    intro e _
    rw [Bool.and_comm]

end DependencyGraph

end Gradual
