import Mathlib.Data.List.Chain
import Mathlib.Logic.Relation
import Mathlib.Order.Lattice.Nat
import Gradual.Proofs.Graph.Built

/-!
# Breadth-first search

A breadth-first search looks at nodes in the order in which their keys are seen. The nodes that it
has looked at, followed by its queue, always stand in the order of their distances from the start,
and the queue spans two distances at most. So a key that is new is one step farther away than the
node whose edge leads to it: any way to it leaves the seen keys from a node of the queue, since what
was looked at leads to seen keys only, and the front of the queue is nearest.

Main statements: `Frontier.step`, `Frontier.complete` and `frontier_reachable`.
-/

namespace Gradual

namespace DependencyGraph

variable {g : DependencyGraph} {log : List Edge}

/-! ## Walks -/

/-- Edges lead from one key to another in so many steps. -/
inductive Walk (g : DependencyGraph) (a : Text) : Nat → Text → Prop
  | stay : Walk g a 0 a
  | step {i : Nat} {b c : Text} : Walk g a i b → g.Linked b c → Walk g a (i + 1) c

/-- A walk leads to the start itself or to what is linked to from it. -/
theorem exists_walk_iff {a b : Text} :
    (∃ i, g.Walk a i b) ↔ b = a ∨ Relation.TransGen g.Linked a b := by
  rw [← Relation.reflTransGen_iff_eq_or_transGen]
  constructor
  · rintro ⟨i, h⟩
    induction h with
    | stay => exact .refl
    | step _ hlink ih => exact ih.tail hlink
  · intro h
    induction h with
    | refl => exact ⟨0, .stay⟩
    | tail _ hlink ih =>
      obtain ⟨i, hi⟩ := ih
      exact ⟨i + 1, hi.step hlink⟩

/-- The least number of steps from one key to another, where edges lead there at all. -/
noncomputable def distance (g : DependencyGraph) (a b : Text) : Nat := sInf {i | g.Walk a i b}

/-- No walk is shorter than the distance. -/
theorem distance_le {a b : Text} {i : Nat} (h : g.Walk a i b) : g.distance a b ≤ i := Nat.sInf_le h

/-- Where there is a walk, there is one of the distance. -/
theorem Walk.shortest {a b : Text} {i : Nat} (h : g.Walk a i b) : g.Walk a (g.distance a b) b :=
  Nat.sInf_mem (s := {i | g.Walk a i b}) ⟨i, h⟩

/-- Every key is at no distance from itself. -/
theorem distance_self (a : Text) : g.distance a a = 0 := Nat.le_zero.1 (distance_le .stay)

/-- Nodes from a given one to one with a given key, each linked to the next one. -/
structure IsPath (g : DependencyGraph) (a b : Node) (ns : List Node) : Prop where
  head : ns.head? = some a
  last : ∃ n ∈ ns.getLast?, n.key = b.key
  chain : (ns.map Node.key).IsChain g.Linked

/-- A walk may start one link earlier. -/
theorem Walk.head {a b c : Text} {i : Nat} (hlink : g.Linked a b) (h : g.Walk b i c) :
    g.Walk a (i + 1) c := by
  induction h with
  | stay => exact .step .stay hlink
  | step _ hlast ih => exact ih.step hlast

/-- A chain of links is a walk of as many steps. -/
theorem walk_of_isChain {a b : Text} {ks : List Text} (h : (a :: ks).IsChain g.Linked)
    (hb : b ∈ (a :: ks).getLast?) : g.Walk a ks.length b := by
  induction ks generalizing a with
  | nil =>
    simp only [List.getLast?_singleton, Option.mem_def, Option.some.injEq] at hb
    exact hb ▸ .stay
  | cons c ks ih =>
    obtain ⟨hac, hchain⟩ := List.isChain_cons_cons.1 h
    rw [List.getLast?_cons_cons] at hb
    exact (ih hchain hb).head hac

/-- A path has more nodes than the distance of its ends. -/
theorem IsPath.distance_lt {a b : Node} {ns : List Node} (h : g.IsPath a b ns) :
    g.distance a.key b.key < ns.length := by
  obtain ⟨hhead, ⟨n, hn, hkey⟩, hchain⟩ := h
  obtain ⟨ms, rfl⟩ := List.head?_eq_some_iff.1 hhead
  have hlast : b.key ∈ ((a :: ms).map Node.key).getLast? := by
    rw [List.getLast?_map, Option.mem_def.1 hn, ← hkey]
    rfl
  have hle := distance_le (walk_of_isChain hchain hlast)
  rw [List.length_map] at hle
  rw [List.length_cons]
  omega

/-! ## What the edges of a node lead to -/

section

variable {e : Edge} {es : List Edge} {seen : List Text}

/-- An edge to a key that was seen is passed over. -/
theorem unseen_cons_of_mem (h : e.target.key ∈ seen) : unseen (e :: es) seen = unseen es seen := by
  rw [unseen, if_pos h]

/-- An edge to a new key brings its target, which is seen from then on. -/
theorem unseen_cons_of_not_mem (h : e.target.key ∉ seen) :
    unseen (e :: es) seen =
      (e.target :: (unseen es (e.target.key :: seen)).1, (unseen es (e.target.key :: seen)).2) := by
  rw [unseen, if_neg h]

/-- The new keys are those of targets that were not seen. -/
theorem mem_keys_unseen (es : List Edge) (seen : List Text) (k : Text) :
    k ∈ (unseen es seen).1.map Node.key ↔ k ∉ seen ∧ k ∈ es.map fun e => e.target.key := by
  induction es generalizing seen with
  | nil => simp [unseen]
  | cons e es ih =>
    by_cases h : e.target.key ∈ seen
    · rw [unseen_cons_of_mem h, ih, List.map_cons, List.mem_cons]
      constructor
      · exact fun hk => ⟨hk.1, .inr hk.2⟩
      · rintro ⟨hk, rfl | hmem⟩
        · exact absurd h hk
        · exact ⟨hk, hmem⟩
    · rw [unseen_cons_of_not_mem h, List.map_cons, List.mem_cons, ih, List.map_cons, List.mem_cons,
        List.mem_cons]
      by_cases hk : k = e.target.key
      · simp [hk, h]
      · simp [hk]

/-- No node is brought twice. -/
theorem nodup_keys_unseen (es : List Edge) (seen : List Text) :
    ((unseen es seen).1.map Node.key).Nodup := by
  induction es generalizing seen with
  | nil => simp [unseen]
  | cons e es ih =>
    by_cases h : e.target.key ∈ seen
    · rw [unseen_cons_of_mem h]
      exact ih seen
    · rw [unseen_cons_of_not_mem h, List.map_cons, List.nodup_cons]
      refine ⟨?_, ih _⟩
      rw [mem_keys_unseen]
      exact fun hmem => hmem.1 List.mem_cons_self

/-- What is seen then was seen or is new. -/
theorem mem_seen_unseen (es : List Edge) (seen : List Text) (k : Text) :
    k ∈ (unseen es seen).2 ↔ k ∈ seen ∨ k ∈ (unseen es seen).1.map Node.key := by
  induction es generalizing seen with
  | nil => simp [unseen]
  | cons e es ih =>
    by_cases h : e.target.key ∈ seen
    · rw [unseen_cons_of_mem h]
      exact ih seen
    · rw [unseen_cons_of_not_mem h, ih, List.map_cons, List.mem_cons, List.mem_cons]
      tauto

end

/-! ## The order of the search -/

/-- A search from a node has looked at `done`, is to look at `queue` and has seen the keys
`seen`. -/
structure Frontier (g : DependencyGraph) (start : Node) (done queue : List Node)
    (seen : List Text) : Prop where
  head : (done ++ queue).head? = some start
  nodup : ((done ++ queue).map Node.key).Nodup
  seen_iff : ∀ k, k ∈ seen ↔ k ∈ (done ++ queue).map Node.key
  walk : ∀ n ∈ done ++ queue, ∃ i, g.Walk start.key i n.key
  closed : ∀ n ∈ done, ∀ k, g.Linked n.key k → k ∈ seen
  ordered : (done ++ queue).Pairwise fun m n =>
    g.distance start.key m.key ≤ g.distance start.key n.key
  span : ∀ v ∈ queue.head?, ∀ n ∈ done ++ queue, g.distance start.key n.key ≤
    g.distance start.key v.key + 1

/-- Before the first step the start alone is queued. -/
theorem frontier_start (g : DependencyGraph) (start : Node) :
    g.Frontier start [] [start] [start.key] := by
  refine ⟨rfl, by simp, by simp, ?_, by simp, by simp, ?_⟩
  · intro n hn
    rw [List.nil_append, List.mem_singleton] at hn
    exact ⟨0, hn ▸ .stay⟩
  · intro v hv n hn
    simp only [List.head?_cons, Option.mem_def, Option.some.injEq] at hv
    rw [List.nil_append, List.mem_singleton] at hn
    rw [hn, hv]
    omega

namespace Frontier

variable {start v : Node} {done queue : List Node} {seen : List Text}

/-- The start is always among the nodes that were met. -/
theorem start_mem (h : g.Frontier start done queue seen) : start ∈ done ++ queue :=
  List.mem_of_head? h.head

/-- A node of the search is determined by its key. -/
theorem eq_of_key (h : g.Frontier start done queue seen) {m n : Node} (hm : m ∈ done ++ queue)
    (hn : n ∈ done ++ queue) (hkey : m.key = n.key) : m = n :=
  List.inj_on_of_nodup_map h.nodup hm hn hkey

/-- No more nodes are met than there are keys. -/
theorem length_le (hg : g.Holds log) (h : g.Frontier start done queue seen) :
    done.length + queue.length ≤ g.table.size + 1 := by
  have hsub : (done ++ queue).map Node.key ⊆ start.key :: g.table.keys := by
    intro k hk
    obtain ⟨n, hn, rfl⟩ := List.mem_map.1 hk
    obtain ⟨i, hwalk⟩ := h.walk n hn
    generalize n.key = k at hwalk
    rcases hwalk with _ | ⟨-, hlink⟩
    · exact List.mem_cons_self
    · exact List.mem_cons_of_mem _ (hg.target_mem_keys hlink)
  have hlen := h.nodup.length_le_of_subset hsub
  rw [List.length_map, List.length_append, List.length_cons, ← Table.size_eq_length_keys] at hlen
  exact hlen

/-- The front of the queue is nearest. -/
theorem distance_front_le (h : g.Frontier start done (v :: queue) seen) {n : Node}
    (hn : n ∈ v :: queue) :
    g.distance start.key v.key ≤ g.distance start.key n.key := by
  have hqueue := (List.pairwise_append.1 h.ordered).2.1
  rcases List.mem_cons.1 hn with rfl | hn
  · exact Nat.le_refl _
  · exact List.rel_of_pairwise_cons hqueue hn

/-- A walk to a key that was not seen is longer than one to the front of the queue: it leaves the
seen keys from a node that was not looked at. -/
theorem distance_front_lt (h : g.Frontier start done (v :: queue) seen) {i : Nat} {k : Text}
    (hwalk : g.Walk start.key i k) (hk : k ∉ seen) : g.distance start.key v.key < i := by
  induction hwalk with
  | stay =>
    refine absurd ?_ hk
    rw [h.seen_iff]
    exact List.mem_map_of_mem h.start_mem
  | @step i b c hwalk hlink ih =>
    by_cases hb : b ∈ seen
    · rw [h.seen_iff] at hb
      obtain ⟨n, hn, rfl⟩ := List.mem_map.1 hb
      rcases List.mem_append.1 hn with hn | hn
      · exact absurd (h.closed n hn c hlink) hk
      · have hfront := h.distance_front_le hn
        have hle := distance_le hwalk
        omega
    · have hlt := ih hb
      omega

/-- A key that is new is one step farther away than the node in front. -/
theorem distance_new (h : g.Frontier start done (v :: queue) seen) {k : Text}
    (hlink : g.Linked v.key k) (hk : k ∉ seen) :
    g.distance start.key k = g.distance start.key v.key + 1 := by
  obtain ⟨i, hv⟩ := h.walk v (by simp)
  have hwalk := hv.shortest.step hlink
  have hle := distance_le hwalk
  have hlt := h.distance_front_lt hwalk.shortest hk
  omega

/-- The nodes that the edges of the front lead to are new, and one step farther away. -/
theorem new_of_mem (hg : g.Holds log) (h : g.Frontier start done (v :: queue) seen) {n : Node}
    (hn : n ∈ (unseen (g.edgesFrom v.key) seen).1) :
    n.key ∉ seen ∧ g.Linked v.key n.key ∧
      g.distance start.key n.key = g.distance start.key v.key + 1 := by
  obtain ⟨hnew, htarget⟩ := (mem_keys_unseen _ _ _).1 (List.mem_map_of_mem hn)
  have hlink : g.Linked v.key n.key := hg.mem_targets.1 htarget
  exact ⟨hnew, hlink, h.distance_new hlink hnew⟩

/-- Looking at the front of the queue. -/
theorem step (hg : g.Holds log) (h : g.Frontier start done (v :: queue) seen) :
    g.Frontier start (done ++ [v]) (queue ++ (unseen (g.edgesFrom v.key) seen).1)
      (unseen (g.edgesFrom v.key) seen).2 := by
  have hnew : ∀ n ∈ (unseen (g.edgesFrom v.key) seen).1, _ := fun n hn => h.new_of_mem hg hn
  have hnodup := nodup_keys_unseen (g.edgesFrom v.key) seen
  have hseen := mem_seen_unseen (g.edgesFrom v.key) seen
  have hkeys := mem_keys_unseen (g.edgesFrom v.key) seen
  generalize unseen (g.edgesFrom v.key) seen = found at *
  obtain ⟨more, seen'⟩ := found
  dsimp only at *
  have hspan : ∀ n ∈ done ++ v :: queue, g.distance start.key n.key ≤
      g.distance start.key v.key + 1 :=
    h.span v (by simp)
  have hlist : done ++ [v] ++ (queue ++ more) = (done ++ v :: queue) ++ more := by simp
  refine ⟨?_, ?_, ?_, ?_, ?_, ?_, ?_⟩
  · rw [hlist, List.head?_append, h.head, Option.some_or]
  · rw [hlist, List.map_append, List.nodup_append]
    refine ⟨h.nodup, hnodup, ?_⟩
    rintro k hk _ hk' rfl
    exact ((hkeys k).1 hk').1 ((h.seen_iff k).2 hk)
  · intro k
    rw [hlist, List.map_append, List.mem_append, hseen, h.seen_iff]
  · rw [hlist]
    intro n hn
    rcases List.mem_append.1 hn with hn | hn
    · exact h.walk n hn
    · obtain ⟨i, hv⟩ := h.walk v (by simp)
      exact ⟨i + 1, hv.step (hnew n hn).2.1⟩
  · intro n hn k hlink
    rw [hseen, hkeys]
    rcases List.mem_append.1 hn with hn | hn
    · exact .inl (h.closed n hn k hlink)
    · rw [List.mem_singleton] at hn
      subst hn
      by_cases hk : k ∈ seen
      · exact .inl hk
      · exact .inr ⟨hk, hg.mem_targets.2 hlink⟩
  · rw [hlist, List.pairwise_append]
    refine ⟨h.ordered, ?_, ?_⟩
    · apply List.pairwise_of_forall_mem_list
      intro m hm n hn
      rw [(hnew m hm).2.2, (hnew n hn).2.2]
    · intro m hm n hn
      rw [(hnew n hn).2.2]
      exact hspan m hm
  · -- The new front is no nearer than the old one, and all that is new is one step behind that.
    intro w hw n hn
    have hfront : g.distance start.key v.key ≤ g.distance start.key w.key := by
      rcases List.mem_append.1 (List.mem_of_head? hw) with hw | hw
      · exact h.distance_front_le (List.mem_cons_of_mem v hw)
      · rw [(hnew w hw).2.2]
        omega
    rw [hlist] at hn
    rcases List.mem_append.1 hn with hn | hn
    · have hle := hspan n hn
      omega
    · have heq := (hnew n hn).2.2
      omega

/-- Where nothing is left to look at, every key that edges lead to was seen. -/
theorem complete (h : g.Frontier start done [] seen) {i : Nat} {k : Text}
    (hwalk : g.Walk start.key i k) : k ∈ done.map Node.key := by
  have hseen : ∀ k', k' ∈ seen ↔ k' ∈ done.map Node.key := by
    intro k'
    rw [h.seen_iff, List.append_nil]
  induction hwalk with
  | stay =>
    have hstart := h.start_mem
    rw [List.append_nil] at hstart
    exact List.mem_map_of_mem hstart
  | step _ hlink ih =>
    obtain ⟨n, hn, rfl⟩ := List.mem_map.1 ih
    rw [← hseen]
    exact h.closed n hn _ hlink

/-- The bound is never met: what is reached is all that is to be looked at. -/
theorem reach (hg : g.Holds log) (n : Nat) (h : g.Frontier start done queue seen)
    (hn : g.table.size + 1 ≤ n + done.length) :
    ∃ seen', g.Frontier start (done ++ g.reach n queue seen) [] seen' := by
  induction n generalizing done queue seen with
  | zero =>
    have hlen := h.length_le hg
    have hqueue : queue = [] := List.eq_nil_of_length_eq_zero (by omega)
    subst hqueue
    exact ⟨seen, by simpa [DependencyGraph.reach] using h⟩
  | succ n ih =>
    match queue, h with
    | [], h => exact ⟨seen, by simpa [DependencyGraph.reach] using h⟩
    | v :: queue, h =>
      have hlen : g.table.size + 1 ≤ n + (done ++ [v]).length := by
        rw [List.length_append, List.length_singleton]
        omega
      obtain ⟨seen', hend⟩ := ih (h.step hg) hlen
      refine ⟨seen', ?_⟩
      rw [List.append_assoc, List.singleton_append] at hend
      exact hend

end Frontier

/-- The search for all nodes ends with nothing left to look at. -/
theorem frontier_reachable (hg : g.Holds log) (start : Node) :
    ∃ seen, g.Frontier start (g.reachable start) [] seen := by
  obtain ⟨seen, h⟩ := (frontier_start g start).reach hg (g.table.size + 1) (by simp)
  exact ⟨seen, h⟩

end DependencyGraph

end Gradual
