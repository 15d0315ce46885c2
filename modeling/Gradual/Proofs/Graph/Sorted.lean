import Gradual.Proofs.Graph.Cycles

/-!
# Nodes in the order of their edges

The nodes are put in order by counting, for every key, the edges into it from nodes that were not
taken yet. Parallel edges are counted and taken off one by one, so a key is free when its last edge
is, and a loop never is.

Main statement: `topological?_exact`.
-/

namespace Gradual

/-- Looking up all keys gives all values. -/
theorem Table.filterMap_get?_keys {κ ν : Type} [DecidableEq κ] (t : Table κ ν) :
    t.keys.filterMap (fun k => t.get? k) = t.values := by
  unfold keys values
  rw [List.filterMap_map, ← List.filterMap_eq_map]
  apply List.filterMap_congr
  intro e he
  show t.get? e.1 = some e.2
  exact get?_eq_some_iff.2 he

namespace DependencyGraph

/-- **An order of the nodes is found exactly when there is no cycle.** For every graph that was
built, with parallel edges and loops: nodes are returned if and only if no key leads back to itself
along edges; they are then all nodes of the graph, no key occurs twice, and the source of every edge
stands before its target. -/
theorem topological?_exact (us : List GraphUpdate) :
    let g := ofUpdates us
    (g.topological?.isSome = true ↔ ∀ k, ¬ Relation.TransGen g.Linked k k) ∧
      ∀ ns ∈ g.topological?, ns.Perm g.nodes ∧ (ns.map Node.key).Nodup ∧
        ∀ e ∈ g.edges, (ns.map Node.key).idxOf e.source.key <
          (ns.map Node.key).idxOf e.target.key := by
  intro g
  obtain ⟨log, hg⟩ := holds_ofUpdates us
  have hcounts : Order.Counts g.targets (g.table.map fun k _ => (g.edgesTo k).length) := hg.counts
  constructor
  · have hlinked : (fun u v => v ∈ g.targets u) = g.Linked := by
      funext u v
      exact propext hg.mem_targets
    have hsort := hcounts.sort?_isSome_iff
    rw [Order.Acyclic, hlinked] at hsort
    rw [topological?, Option.isSome_map]
    exact hsort
  · intro ns hns
    obtain ⟨keys, hkeys, rfl⟩ := Option.map_eq_some_iff.1 hns
    obtain ⟨hperm, hforward⟩ := hcounts.perm_of_sort? hkeys
    rw [Table.keys_map] at hperm hforward
    have hnodup : keys.Nodup := hperm.nodup_iff.2 g.table.nodup_keys
    have hnodes : (keys.filterMap fun k => g.table.get? k).map Node.key = keys := by
      apply map_key_filterMap hg
      intro k hk
      exact hperm.mem_iff.1 hk
    rw [hnodes]
    refine ⟨?_, hnodup, ?_⟩
    · have hvalues := hperm.filterMap fun k => g.table.get? k
      rw [Table.filterMap_get?_keys] at hvalues
      exact hvalues
    · intro e he
      have hlink : g.Linked e.source.key e.target.key := ⟨e, he, rfl, rfl⟩
      have htarget : e.target.key ∈ keys := hperm.mem_iff.2 (hg.target_mem_keys hlink)
      exact hforward.idxOf_lt hnodup (hg.source_mem_keys hlink) (hg.mem_targets.2 hlink) htarget

end DependencyGraph

end Gradual
