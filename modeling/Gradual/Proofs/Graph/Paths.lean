import Gradual.Proofs.Graph.Search

/-!
# Shortest paths

The search for a path notes for every new key the node that it comes from, its parent. A parent was
looked at before and is one step nearer to the start, so the way back along parents ends at the
start after as many steps as the distance says, which is the least number that any path can have.

Main statements: `path?_shortest` and `reachable_in_order`.
-/

namespace Gradual

namespace Table

variable {κ ν : Type}

/-- A table with more keys is larger. -/
theorem size_le_of_keys_subset {t t' : Table κ ν} (h : t.keys ⊆ t'.keys) : t.size ≤ t'.size := by
  have hnodup : t.keys.Nodup := t.nodup_keys
  rw [size_eq_length_keys, size_eq_length_keys]
  exact hnodup.length_le_of_subset h

variable [DecidableEq κ]

/-- Pairs leave alone what is under other keys. -/
theorem get?_insertAll_of_not_mem {t : Table κ ν} {pairs : List (κ × ν)} {k : κ}
    (h : k ∉ pairs.map Prod.fst) :
    (t.insertAll pairs).get? k = t.get? k := by
  induction pairs generalizing t with
  | nil => rfl
  | cons e pairs ih =>
    rw [List.map_cons, List.mem_cons, not_or] at h
    have hstep : t.insertAll (e :: pairs) = (t.insert e.1 e.2).insertAll pairs := rfl
    rw [hstep, ih h.2, get?_insert_of_ne t h.1]

end Table

namespace DependencyGraph

variable {g : DependencyGraph} {log : List Edge} {start : Node}

/-! ## Ways back -/

/-- The nodes lead back from a node to the start along edges, one step nearer each time. -/
inductive WayBack (g : DependencyGraph) (start : Node) : Node → List Node → Prop
  | root : WayBack g start start [start]
  | step {p v : Node} {way : List Node} : g.Linked p.key v.key →
      g.distance start.key v.key = g.distance start.key p.key + 1 → WayBack g start p way →
      WayBack g start v (v :: way)

namespace WayBack

variable {v : Node} {way : List Node}

/-- The way back has one node more than its distance. -/
theorem length_eq (h : g.WayBack start v way) : way.length = g.distance start.key v.key + 1 := by
  induction h with
  | root => rw [distance_self, List.length_singleton]
  | step _ hdistance _ ih => rw [List.length_cons, ih, hdistance]

/-- No node of the way back is further from the start than its end is. -/
theorem distance_le (h : g.WayBack start v way) {n : Node} (hn : n ∈ way) :
    g.distance start.key n.key ≤ g.distance start.key v.key := by
  induction h with
  | root => rw [List.mem_singleton.1 hn]
  | step _ hdistance _ ih =>
    rcases List.mem_cons.1 hn with rfl | hn
    · exact Nat.le_refl _
    · have hle := ih hn
      omega

/-- No key is on the way back twice. -/
theorem nodup (h : g.WayBack start v way) : (way.map Node.key).Nodup := by
  induction h with
  | root => simp
  | @step p v way _ hdistance hway ih =>
    rw [List.map_cons, List.nodup_cons]
    refine ⟨?_, ih⟩
    -- All that comes behind is nearer.
    intro hmem
    obtain ⟨n, hn, hkey⟩ := List.mem_map.1 hmem
    have hle := hway.distance_le hn
    rw [hkey] at hle
    omega

theorem head?_eq (h : g.WayBack start v way) : way.head? = some v := by
  cases h <;> rfl

theorem getLast?_eq (h : g.WayBack start v way) : way.getLast? = some start := by
  induction h with
  | root => rfl
  | step _ _ _ ih => rw [List.getLast?_cons, ih, Option.getD_some]

/-- Each node of the way back is linked to from the next one. -/
theorem isChain (h : g.WayBack start v way) :
    (way.map Node.key).IsChain fun a b => g.Linked b a := by
  induction h with
  | root => exact List.isChain_singleton _
  | step hlink _ hway ih =>
    obtain ⟨ms, rfl⟩ := List.head?_eq_some_iff.1 hway.head?_eq
    exact List.isChain_cons_cons.2 ⟨hlink, ih⟩

/-- Turned round, the way is a path. -/
theorem isPath (h : g.WayBack start v way) {target : Node} (hkey : v.key = target.key) :
    g.IsPath start target way.reverse := by
  refine ⟨?_, ⟨v, ?_, hkey⟩, ?_⟩
  · rw [List.head?_reverse]
    exact h.getLast?_eq
  · rw [List.getLast?_reverse]
    exact h.head?_eq
  · rw [List.map_reverse]
    exact List.isChain_reverse.2 h.isChain

end WayBack

/-! ## Parents -/

/-- A search for a path from a node has looked at `done`. The parent of a key was looked at, leads
to it and is one step nearer, and every node but the start has one. -/
structure Tracked (g : DependencyGraph) (start : Node) (done : List Node)
    (s : PathSearch) : Prop where
  frontier : g.Frontier start done s.queue s.seen
  exists_parent : ∀ n ∈ done ++ s.queue, n.key ≠ start.key → ∃ p, s.parents.get? n.key = some p
  parent : ∀ k p, s.parents.get? k = some p → p ∈ done ∧ k ∈ s.seen ∧ g.Linked p.key k ∧
    g.distance start.key k = g.distance start.key p.key + 1
  distance_le : ∀ n ∈ done ++ s.queue, g.distance start.key n.key ≤ s.parents.size

/-- Before the first step the start alone is queued, and nothing has a parent. -/
theorem tracked_start (g : DependencyGraph) (start : Node) :
    g.Tracked start [] ⟨[start], [start.key], .empty⟩ := by
  refine ⟨frontier_start g start, ?_, ?_, ?_⟩
  · intro n hn hne
    rw [List.nil_append, List.mem_singleton] at hn
    exact absurd (congrArg Node.key hn) hne
  · intro k p hp
    simp at hp
  · intro n hn
    rw [List.nil_append, List.mem_singleton] at hn
    rw [hn, distance_self]
    exact Nat.zero_le _

namespace Tracked

variable {done : List Node} {s : PathSearch}

/-- What is new comes from the node that was looked at. -/
theorem parent_new (h : g.Tracked start done s) {v : Node} {k : Text} (queue : List Node)
    (hk : k ∈ (unseen (g.edgesFrom v.key) s.seen).1.map Node.key) :
    (s.look g v queue).parents.get? k = some v := by
  have hmem : k ∈ ((unseen (g.edgesFrom v.key) s.seen).1.map fun n => (n.key, v)).map Prod.fst := by
    simpa using hk
  obtain ⟨p, hp⟩ : ∃ p, (s.look g v queue).parents.get? k = some p :=
    Table.mem_keys_iff.1 (Table.mem_keys_insertAll.2 (.inl hmem))
  rcases Table.get?_insertAll hp with hpair | hold
  · obtain ⟨n, -, heq⟩ := List.mem_map.1 hpair
    rw [hp, (Prod.mk.inj heq).2]
  · exact absurd (h.parent k p hold).2.1 ((mem_keys_unseen _ _ _).1 hk).1

/-- All other keys keep their parents. -/
theorem parent_old {s : PathSearch} {v : Node} {k : Text} (queue : List Node)
    (hk : k ∉ (unseen (g.edgesFrom v.key) s.seen).1.map Node.key) :
    (s.look g v queue).parents.get? k = s.parents.get? k :=
  Table.get?_insertAll_of_not_mem (by simpa using hk)

/-- Looking at a node takes no parent away. -/
theorem size_parents_le (s : PathSearch) (v : Node) (queue : List Node) :
    s.parents.size ≤ (s.look g v queue).parents.size := by
  apply Table.size_le_of_keys_subset
  intro k hk
  exact Table.mem_keys_insertAll.2 (.inr hk)

/-- A key that is new is one more key with a parent. -/
theorem size_parents_lt (h : g.Tracked start done s) {v : Node} {queue : List Node} {n : Node}
    (hn : n ∈ (unseen (g.edgesFrom v.key) s.seen).1) :
    s.parents.size < (s.look g v queue).parents.size := by
  have hnew := (mem_keys_unseen _ _ _).1 (List.mem_map_of_mem hn)
  have hnot : n.key ∉ s.parents.keys := by
    intro hmem
    obtain ⟨p, hp⟩ := Table.mem_keys_iff.1 hmem
    exact hnew.1 (h.parent _ p hp).2.1
  have hnodup : (n.key :: s.parents.keys).Nodup := List.nodup_cons.2 ⟨hnot, s.parents.nodup_keys⟩
  have hsub : n.key :: s.parents.keys ⊆ (s.look g v queue).parents.keys := by
    intro k hk
    rcases List.mem_cons.1 hk with rfl | hk
    · exact Table.mem_keys_iff.2 ⟨v, h.parent_new queue (List.mem_map_of_mem hn)⟩
    · exact Table.mem_keys_insertAll.2 (.inr hk)
  have hlen := hnodup.length_le_of_subset hsub
  rw [List.length_cons, ← Table.size_eq_length_keys, ← Table.size_eq_length_keys] at hlen
  exact hlen

/-- Looking at the front of the queue. -/
theorem look (hg : g.Holds log) (h : g.Tracked start done s) {v : Node} {queue : List Node}
    (hqueue : s.queue = v :: queue) : g.Tracked start (done ++ [v]) (s.look g v queue) := by
  have hfrontier : g.Frontier start done (v :: queue) s.seen := hqueue ▸ h.frontier
  have hlist : done ++ [v] ++ (s.look g v queue).queue =
      (done ++ s.queue) ++ (unseen (g.edgesFrom v.key) s.seen).1 := by
    rw [hqueue, PathSearch.look]
    simp
  refine ⟨hfrontier.step hg, ?_, ?_, ?_⟩
  · intro n hn hne
    by_cases hnew : n.key ∈ (unseen (g.edgesFrom v.key) s.seen).1.map Node.key
    · exact ⟨v, h.parent_new queue hnew⟩
    · rw [parent_old queue hnew]
      rw [hlist] at hn
      rcases List.mem_append.1 hn with hn | hn
      · exact h.exists_parent n hn hne
      · exact absurd (List.mem_map_of_mem hn) hnew
  · intro k p hp
    have hseen : k ∈ (s.look g v queue).seen ↔ _ := mem_seen_unseen (g.edgesFrom v.key) s.seen k
    rw [hseen]
    by_cases hnew : k ∈ (unseen (g.edgesFrom v.key) s.seen).1.map Node.key
    · rw [h.parent_new queue hnew, Option.some.injEq] at hp
      obtain ⟨n, hn, rfl⟩ := List.mem_map.1 hnew
      obtain ⟨-, hlink, hdistance⟩ := hfrontier.new_of_mem hg hn
      exact hp ▸ ⟨by simp, .inr hnew, hlink, hdistance⟩
    · rw [parent_old queue hnew] at hp
      obtain ⟨hdone, hk, hlink, hdistance⟩ := h.parent k p hp
      exact ⟨List.mem_append_left _ hdone, .inl hk, hlink, hdistance⟩
  · intro n hn
    rw [hlist] at hn
    rcases List.mem_append.1 hn with hn | hn
    · exact (h.distance_le n hn).trans (size_parents_le s v queue)
    · have hv := h.distance_le v (by simp [hqueue])
      have hlt : s.parents.size < (s.look g v queue).parents.size := h.size_parents_lt hn
      rw [(hfrontier.new_of_mem hg hn).2.2]
      omega

/-- The search ends in front of a node with the key, or with nothing left, and has looked at no node
with the key. -/
theorem run (hg : g.Holds log) (key : Text) (n : Nat) (h : g.Tracked start done s)
    (hn : g.table.size + 1 ≤ n + done.length) (hkey : key ∉ done.map Node.key) :
    ∃ done', g.Tracked start done' (PathSearch.run g key n s) ∧ key ∉ done'.map Node.key ∧
      ∀ v ∈ (PathSearch.run g key n s).queue.head?, v.key = key := by
  induction n generalizing done s with
  | zero =>
    have hlen := h.frontier.length_le hg
    have hqueue : s.queue = [] := List.eq_nil_of_length_eq_zero (by omega)
    refine ⟨done, h, hkey, ?_⟩
    rw [PathSearch.run, hqueue]
    simp
  | succ n ih =>
    rw [PathSearch.run]
    split
    · rename_i hqueue
      refine ⟨done, h, hkey, ?_⟩
      rw [hqueue]
      simp
    · rename_i v queue hqueue
      split
      · rename_i hv
        refine ⟨done, h, hkey, ?_⟩
        rw [hqueue]
        simpa using hv
      · rename_i hv
        have hne : ¬ key = v.key := fun heq => hv (by simp [heq])
        apply ih (h.look hg hqueue)
        · rw [List.length_append, List.length_singleton]
          omega
        · simp only [List.map_append, List.map_cons, List.map_nil, List.mem_append,
            List.mem_singleton]
          exact fun hmem => hmem.elim hkey hne

section

variable (h : g.Tracked start done s)

include h

/-- The start has no parent. -/
theorem get?_start : s.parents.get? start.key = none := by
  rw [Option.eq_none_iff_forall_ne_some]
  intro p hp
  have hdistance := (h.parent start.key p hp).2.2.2
  rw [distance_self] at hdistance
  omega

/-- Only the start has no parent. -/
theorem eq_start {v : Node} (hv : v ∈ done ++ s.queue) (hparent : s.parents.get? v.key = none) :
    v = start := by
  apply h.frontier.eq_of_key hv h.frontier.start_mem
  by_contra hne
  obtain ⟨p, hp⟩ := h.exists_parent v hv hne
  rw [hparent] at hp
  cases hp

/-- The way back along parents ends at the start, whatever bound is not below the distance. -/
theorem wayBack {v : Node} (hv : v ∈ done ++ s.queue) (n : Nat)
    (hn : g.distance start.key v.key ≤ n) :
    g.WayBack start v (s.wayBack n v) := by
  induction n generalizing v with
  | zero =>
    have hparent : s.parents.get? v.key = none := by
      rw [Option.eq_none_iff_forall_ne_some]
      intro p hp
      have hdistance := (h.parent v.key p hp).2.2.2
      omega
    rw [h.eq_start hv hparent]
    exact .root
  | succ n ih =>
    rw [PathSearch.wayBack]
    split
    · rename_i hparent
      rw [h.eq_start hv hparent]
      exact .root
    · rename_i p hp
      obtain ⟨hdone, -, hlink, hdistance⟩ := h.parent v.key p hp
      exact .step hlink hdistance (ih (List.mem_append_left _ hdone) (by omega))

/-- No larger bound leads farther. -/
theorem wayBack_add {v : Node} (hv : v ∈ done ++ s.queue) (n m : Nat)
    (hn : g.distance start.key v.key ≤ n) :
    s.wayBack (n + m) v = s.wayBack n v := by
  induction n generalizing v with
  | zero =>
    have hstart : v = start := by
      have hway := h.wayBack hv 0 hn
      have hlast := hway.getLast?_eq
      simpa [PathSearch.wayBack] using hlast
    rcases m with _ | m
    · rfl
    · simp [hstart, PathSearch.wayBack, h.get?_start]
  | succ n ih =>
    rw [Nat.add_right_comm, PathSearch.wayBack, PathSearch.wayBack]
    split
    · rfl
    · rename_i p hp
      obtain ⟨hdone, -, -, hdistance⟩ := h.parent v.key p hp
      rw [ih (List.mem_append_left _ hdone) (by omega)]

/-- Going from node to parent comes to an end from everywhere. -/
theorem wellFounded_parent : WellFounded fun p v : Node => s.parents.get? v.key = some p := by
  refine Subrelation.wf ?_ (measure fun v : Node => g.distance start.key v.key).wf
  intro p v hp
  have hdistance := (h.parent v.key p hp).2.2.2
  show g.distance start.key p.key < g.distance start.key v.key
  omega

end

end Tracked

/-- The search ends with the target in front of its queue or with an empty one. -/
theorem tracked_pathSearch (hg : g.Holds log) (start target : Node) :
    ∃ done, g.Tracked start done (g.pathSearch start target) ∧ target.key ∉ done.map Node.key ∧
      ∀ v ∈ (g.pathSearch start target).queue.head?, v.key = target.key :=
  (tracked_start g start).run hg target.key (g.table.size + 1) (by simp) (by simp)

/-- There is a path exactly to the keys that edges lead to. -/
theorem path?_eq_none_iff (hg : g.Holds log) (start target : Node) :
    g.path? start target = none ↔ ¬ ∃ i, g.Walk start.key i target.key := by
  obtain ⟨done, h, hnot, hfront⟩ := tracked_pathSearch hg start target
  rw [path?, Option.map_eq_none_iff]
  constructor
  · rintro hnone ⟨i, hwalk⟩
    have hend := h.frontier
    rw [List.head?_eq_none_iff.1 hnone] at hend
    exact hnot (hend.complete hwalk)
  · intro hnowalk
    rw [Option.eq_none_iff_forall_ne_some]
    intro v hv
    obtain ⟨i, hwalk⟩ := h.frontier.walk v (List.mem_append_right _ (List.mem_of_head? hv))
    rw [hfront v hv] at hwalk
    exact hnowalk ⟨i, hwalk⟩

/-- **The path that is found is a shortest one.** For every graph that was built and any two nodes:
none is found exactly if the second key is not the first one and edges do not lead to it. What is
found starts with the first node, ends with a node of the second key, has an edge from each node to
the next one and no key twice, and no path between them has fewer nodes. Going from node to parent
comes to an end, so that no larger bound changes the way back. -/
theorem path?_shortest (us : List GraphUpdate) (a b : Node) :
    let g := ofUpdates us
    let s := g.pathSearch a b
    (g.path? a b = none ↔ ¬ (b.key = a.key ∨ Relation.TransGen g.Linked a.key b.key)) ∧
      (∀ ns ∈ g.path? a b, g.IsPath a b ns ∧ (ns.map Node.key).Nodup ∧
        ∀ ms, g.IsPath a b ms → ns.length ≤ ms.length) ∧
      (WellFounded fun p v : Node => s.parents.get? v.key = some p) ∧
      ∀ more, g.path? a b = s.queue.head?.map fun v =>
        (s.wayBack (s.parents.size + more) v).reverse := by
  intro g s
  obtain ⟨log, hg⟩ := holds_ofUpdates us
  obtain ⟨done, h, -, hfront⟩ : ∃ done, g.Tracked a done s ∧ _ ∧
      ∀ v ∈ s.queue.head?, v.key = b.key :=
    tracked_pathSearch hg a b
  have hmem : ∀ v ∈ s.queue.head?, v ∈ done ++ s.queue := fun v hv =>
    List.mem_append_right _ (List.mem_of_head? hv)
  refine ⟨?_, ?_, h.wellFounded_parent, ?_⟩
  · rw [path?_eq_none_iff hg, exists_walk_iff]
  · intro ns hns
    obtain ⟨v, hv, rfl⟩ := Option.map_eq_some_iff.1 hns
    have hkey : v.key = b.key := hfront v hv
    have hway := h.wayBack (hmem v hv) s.parents.size (h.distance_le v (hmem v hv))
    refine ⟨hway.isPath hkey, ?_, ?_⟩
    · rw [List.map_reverse]
      exact (List.reverse_perm _).nodup_iff.2 hway.nodup
    · intro ms hms
      have hlt := hms.distance_lt
      rw [List.length_reverse, hway.length_eq, hkey]
      omega
  · intro more
    apply Option.map_congr
    intro v hv
    rw [h.wayBack_add (hmem v hv) _ more (h.distance_le v (hmem v hv))]

/-- **All nodes are reached, the nearest first.** For every graph that was built and every start: no
key is reached twice; the keys are that of the start, which comes first, and those that edges lead
to, and so those to which a path is found; and they come in the order of their distances. -/
theorem reachable_in_order (us : List GraphUpdate) (start : Node) :
    let g := ofUpdates us
    let ns := g.reachable start
    ns.head? = some start ∧
      (ns.map Node.key).Nodup ∧
      (∀ k, k ∈ ns.map Node.key ↔ k = start.key ∨ Relation.TransGen g.Linked start.key k) ∧
      (∀ n : Node, n.key ∈ ns.map Node.key ↔ g.path? start n ≠ none) ∧
      ns.Pairwise fun m n => g.distance start.key m.key ≤ g.distance start.key n.key := by
  intro g ns
  obtain ⟨log, hg⟩ := holds_ofUpdates us
  obtain ⟨seen, h⟩ : ∃ seen, g.Frontier start ns [] seen := frontier_reachable hg start
  have hwalk : ∀ k, k ∈ ns.map Node.key ↔ ∃ i, g.Walk start.key i k := by
    intro k
    constructor
    · intro hk
      obtain ⟨n, hn, rfl⟩ := List.mem_map.1 hk
      exact h.walk n (List.mem_append_left _ hn)
    · rintro ⟨i, hwalk⟩
      exact h.complete hwalk
  have hhead := h.head
  have hnodup := h.nodup
  have hordered := h.ordered
  rw [List.append_nil] at hhead hnodup hordered
  refine ⟨hhead, hnodup, ?_, ?_, hordered⟩
  · intro k
    rw [hwalk, exists_walk_iff]
  · intro n
    rw [hwalk, Ne, path?_eq_none_iff hg, not_not]

end DependencyGraph

end Gradual
