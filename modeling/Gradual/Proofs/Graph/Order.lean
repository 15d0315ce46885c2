import Gradual.Graph.Order
import Gradual.Proofs.Table

/-!
# Topological orders and cycles

While vertices are taken, the counts are the numbers of edges that come from vertices not taken yet,
and the queue holds those of them without such an edge. So a vertex is taken after all vertices with
an edge to it, and what is never taken has, each, an edge from a vertex that is never taken either:
going back along these edges ends in a cycle.

Main statements: `Counts.perm_of_sort?` and `Counts.sort?_isSome_iff`.
-/

namespace Gradual

namespace Order

variable {targets : Text → List Text}

/-! ## Releasing targets -/

/-- Releasing targets lowers the count of each by as often as it is released. -/
theorem getD_release (ts : List Text) (counts : Table Text Nat) (t : Text) :
    (release ts counts).2.getD t 0 = counts.getD t 0 - ts.count t := by
  induction ts generalizing counts with
  | nil => rw [release, List.count_nil, Nat.sub_zero]
  | cons s ts ih =>
    rw [release]
    show (release ts (counts.insert s (counts.getD s 0 - 1))).2.getD t 0 = _
    rw [ih, Table.getD_insert]
    by_cases h : t = s
    · rw [if_pos h, h, List.count_cons_self]
      omega
    · rw [if_neg h, List.count_cons_of_ne fun h' => h h'.symm]

/-- Where no count is released too often, the rest is not either after the first step. -/
theorem count_le_of_cons {s : Text} {ts : List Text} {counts : Table Text Nat}
    (hle : ∀ t, (s :: ts).count t ≤ counts.getD t 0) (t : Text) :
    ts.count t ≤ (counts.insert s (counts.getD s 0 - 1)).getD t 0 := by
  have ht := hle t
  rw [Table.getD_insert]
  by_cases h : t = s
  · rw [h, List.count_cons_self] at ht
    rw [if_pos h, h]
    omega
  · rw [List.count_cons_of_ne fun h' => h h'.symm] at ht
    rw [if_neg h]
    exact ht

/-- The targets that are released are those whose edges all come from here. -/
theorem mem_release {ts : List Text} {counts : Table Text Nat}
    (hle : ∀ t, ts.count t ≤ counts.getD t 0) (t : Text) :
    t ∈ (release ts counts).1 ↔ t ∈ ts ∧ counts.getD t 0 = ts.count t := by
  induction ts generalizing counts with
  | nil => simp [release]
  | cons s ts ih =>
    have hs := hle s
    rw [List.count_cons_self] at hs
    have hmem : t ∈ (release (s :: ts) counts).1 ↔
        (counts.getD s 0 = 1 ∧ t = s) ∨
          t ∈ (release ts (counts.insert s (counts.getD s 0 - 1))).1 := by
      rw [release]
      by_cases h : counts.getD s 0 = 1 <;> simp [h]
    rw [hmem, ih (count_le_of_cons hle), Table.getD_insert, List.mem_cons]
    by_cases h : t = s
    · subst h
      rw [if_pos rfl, List.count_cons_self]
      by_cases hm : t ∈ ts
      · have hpos : 0 < ts.count t := List.count_pos_iff.2 hm
        simp only [hm, and_true, true_and, true_or]
        omega
      · have hzero : ts.count t = 0 := List.count_eq_zero.2 hm
        simp only [hm, and_true, false_and, or_false, true_and, hzero]
    · rw [if_neg h, List.count_cons_of_ne fun h' => h h'.symm]
      simp [h]

/-- No target is set free twice. -/
theorem nodup_release {ts : List Text} {counts : Table Text Nat}
    (hle : ∀ t, ts.count t ≤ counts.getD t 0) :
    (release ts counts).1.Nodup := by
  induction ts generalizing counts with
  | nil => simp [release]
  | cons s ts ih =>
    have hrest := ih (count_le_of_cons hle)
    have hs := hle s
    rw [List.count_cons_self] at hs
    rw [release]
    by_cases h : counts.getD s 0 = 1
    · -- This was the last edge to `s`, so there is none among the others.
      have hnot : s ∉ ts := List.count_eq_zero.1 (by omega)
      have hfreed : s ∉ (release ts (counts.insert s (counts.getD s 0 - 1))).1 := by
        rw [mem_release (count_le_of_cons hle)]
        exact fun hm => hnot hm.1
      simpa [h] using ⟨by simpa [h] using hfreed, by simpa [h] using hrest⟩
    · simpa [h] using hrest

/-! ## Taking vertices -/

/-- Every vertex stands behind all vertices with an edge to it. -/
def Forward (targets : Text → List Text) (vs order : List Text) : Prop :=
  ∀ xs v ys, order = xs ++ v :: ys → ∀ u ∈ vs, v ∈ targets u → u ∈ xs

/-- The vertices `done` were taken and `rest` were not, when the queue and the counts are as
given. -/
structure Progress (targets : Text → List Text) (vs done rest queue : List Text)
    (counts : Table Text Nat) : Prop where
  nodup : vs.Nodup
  closed : ∀ u ∈ vs, ∀ v ∈ targets u, v ∈ vs
  perm : (done ++ rest).Perm vs
  counted : ∀ t, counts.getD t 0 = (rest.flatMap targets).count t
  queued : ∀ v, v ∈ queue ↔ v ∈ rest ∧ v ∉ rest.flatMap targets
  nodup_queue : queue.Nodup
  forward : Forward targets vs done

namespace Progress

variable {vs done rest queue : List Text} {counts : Table Text Nat}

/-- What is done and what is left have nothing in common. -/
theorem nodup_append (h : Progress targets vs done rest queue counts) : (done ++ rest).Nodup :=
  h.perm.nodup_iff.2 h.nodup

/-- All vertices are done or left. -/
theorem mem_vs (h : Progress targets vs done rest queue counts) {v : Text} :
    v ∈ vs ↔ v ∈ done ∨ v ∈ rest := by
  rw [← h.perm.mem_iff, List.mem_append]

/-- What leads to a vertex that was taken was taken. -/
theorem mem_done (h : Progress targets vs done rest queue counts) {u v : Text} (hv : v ∈ done)
    (hu : u ∈ vs) (huv : v ∈ targets u) : u ∈ done := by
  obtain ⟨xs, ys, rfl⟩ := List.append_of_mem hv
  exact List.mem_append_left _ (h.forward xs v ys rfl u hu huv)

end Progress

/-- A vertex that goes takes its edges along. -/
theorem count_flatMap_erase {rest : List Text} {v : Text} (hv : v ∈ rest) (t : Text) :
    (rest.flatMap targets).count t = (targets v).count t +
      ((rest.erase v).flatMap targets).count t := by
  have hperm := (List.perm_cons_erase hv).flatMap_right targets
  rw [hperm.count_eq, List.flatMap_cons, List.count_append]

/-- A target of those left is one of the vertex taken or of the others. -/
theorem mem_flatMap_erase {rest : List Text} {v : Text} (hv : v ∈ rest) {t : Text} :
    t ∈ rest.flatMap targets ↔ t ∈ targets v ∨ t ∈ (rest.erase v).flatMap targets := by
  rw [((List.perm_cons_erase hv).flatMap_right targets).mem_iff, List.flatMap_cons, List.mem_append]

namespace Progress

variable {vs done rest queue : List Text} {counts : Table Text Nat} {v : Text}

/-- No target is released more often than it is counted. -/
theorem count_le (h : Progress targets vs done rest (v :: queue) counts) (t : Text) :
    (targets v).count t ≤ counts.getD t 0 := by
  have hv : v ∈ rest := ((h.queued v).1 List.mem_cons_self).1
  rw [h.counted t, count_flatMap_erase hv]
  exact Nat.le_add_right _ _

/-- A released vertex is one whose last edges came from the vertex that is taken. -/
theorem mem_freed (h : Progress targets vs done rest (v :: queue) counts) (t : Text) :
    t ∈ (release (targets v) counts).1 ↔ t ∈ targets v ∧ t ∉ (rest.erase v).flatMap targets := by
  have hv : v ∈ rest := ((h.queued v).1 List.mem_cons_self).1
  rw [mem_release h.count_le, h.counted t, count_flatMap_erase hv, ← List.count_eq_zero]
  constructor
  · intro ht
    exact ⟨ht.1, by omega⟩
  · intro ht
    exact ⟨ht.1, by omega⟩

/-- Behind a step, those are queued which nothing that is left leads to. -/
theorem queued_step (h : Progress targets vs done rest (v :: queue) counts) (x : Text) :
    x ∈ queue ++ (release (targets v) counts).1 ↔ x ∈ rest.erase v ∧
      x ∉ (rest.erase v).flatMap targets := by
  obtain ⟨hv, hfree⟩ := (h.queued v).1 List.mem_cons_self
  have hrest : rest.Nodup := (List.nodup_append.1 h.nodup_append).2.1
  have herase : ∀ {x}, x ∈ rest.erase v ↔ x ≠ v ∧ x ∈ rest := hrest.mem_erase_iff
  rw [List.mem_append, h.mem_freed]
  constructor
  · rintro (hx | ⟨hx, hopen⟩)
    · obtain ⟨hxrest, hxfree⟩ := (h.queued x).1 (List.mem_cons_of_mem v hx)
      have hne : x ≠ v := by
        rintro rfl
        exact (List.nodup_cons.1 h.nodup_queue).1 hx
      rw [mem_flatMap_erase hv, not_or] at hxfree
      exact ⟨herase.2 ⟨hne, hxrest⟩, hxfree.2⟩
    · refine ⟨herase.2 ⟨?_, ?_⟩, hopen⟩
      · rintro rfl
        exact hfree (List.mem_flatMap.2 ⟨x, hv, hx⟩)
      · -- A target that was taken before would stand in front of `v`.
        have hvs : v ∈ vs := h.mem_vs.2 (.inr hv)
        rcases h.mem_vs.1 (h.closed v hvs x hx) with hdone | hxrest
        · have hvdone : v ∈ done := h.mem_done hdone hvs hx
          exact absurd rfl ((List.nodup_append.1 h.nodup_append).2.2 v hvdone v hv)
        · exact hxrest
  · rintro ⟨hx, hopen⟩
    obtain ⟨hne, hxrest⟩ := herase.1 hx
    by_cases htarget : x ∈ targets v
    · exact .inr ⟨htarget, hopen⟩
    · have hxfree : x ∉ rest.flatMap targets := by
        rw [mem_flatMap_erase hv, not_or]
        exact ⟨htarget, hopen⟩
      rcases List.mem_cons.1 ((h.queued x).2 ⟨hxrest, hxfree⟩) with rfl | hx
      · exact absurd rfl hne
      · exact .inl hx

/-- The vertex that is taken has all that lead to it in front of it. -/
theorem forward_step (h : Progress targets vs done rest (v :: queue) counts) :
    Forward targets vs (done ++ [v]) := by
  obtain ⟨-, hfree⟩ := (h.queued v).1 List.mem_cons_self
  intro xs w ys heq u hu huw
  rcases List.eq_nil_or_concat ys with rfl | ⟨ys, y, rfl⟩
  · obtain ⟨rfl, hvw⟩ := List.append_inj' heq rfl
    cases hvw
    rcases h.mem_vs.1 hu with hdone | hrest
    · exact hdone
    · exact absurd (List.mem_flatMap.2 ⟨u, hrest, huw⟩) hfree
  · have heq' : done ++ [v] = (xs ++ w :: ys) ++ [y] := by
      rw [heq, List.concat_eq_append, List.append_assoc, List.cons_append]
    exact h.forward xs w ys (List.append_inj' heq' rfl).1 u hu huw

/-- Taking the first vertex of the queue. -/
theorem step (h : Progress targets vs done rest (v :: queue) counts) :
    Progress targets vs (done ++ [v]) (rest.erase v) (queue ++ (release (targets v) counts).1)
      (release (targets v) counts).2 := by
  obtain ⟨hv, hfree⟩ := (h.queued v).1 List.mem_cons_self
  refine ⟨h.nodup, h.closed, ?_, ?_, h.queued_step, ?_, h.forward_step⟩
  · rw [List.append_assoc]
    exact ((List.perm_cons_erase hv).symm.append_left done).trans h.perm
  · intro t
    rw [getD_release, h.counted, count_flatMap_erase hv]
    omega
  · rw [List.nodup_append]
    refine ⟨(List.nodup_cons.1 h.nodup_queue).2, nodup_release h.count_le, ?_⟩
    rintro x hx y hy rfl
    obtain ⟨-, hxfree⟩ := (h.queued x).1 (List.mem_cons_of_mem v hx)
    exact hxfree ((mem_flatMap_erase hv).2 (.inl ((h.mem_freed x).1 hy).1))

/-- The vertices that are never taken each have an edge from one of them. -/
theorem run (n : Nat) (h : Progress targets vs done rest queue counts)
    (hn : n + done.length = vs.length) :
    ∃ left : List Text, (done ++ take targets n queue counts ++ left).Perm vs ∧
      Forward targets vs (done ++ take targets n queue counts) ∧
        ∀ v ∈ left, v ∈ left.flatMap targets := by
  induction n generalizing done rest queue counts with
  | zero =>
    have hlen := h.perm.length_eq
    rw [List.length_append] at hlen
    have hrest : rest = [] := List.eq_nil_of_length_eq_zero (by omega)
    refine ⟨[], ?_, ?_, by simp⟩
    · have hperm := h.perm
      rw [hrest] at hperm
      simpa [take] using hperm
    · simpa [take] using h.forward
  | succ n ih =>
    cases queue with
    | nil =>
      refine ⟨rest, by simpa [take] using h.perm, by simpa [take] using h.forward, ?_⟩
      intro v hv
      by_cases hopen : v ∈ rest.flatMap targets
      · exact hopen
      · exact absurd ((h.queued v).2 ⟨hv, hopen⟩) List.not_mem_nil
    | cons v queue =>
      have hlen : n + (done ++ [v]).length = vs.length := by
        rw [List.length_append, List.length_singleton]
        omega
      have hrun := ih h.step hlen
      rw [List.append_assoc done] at hrun
      exact hrun

end Progress

/-! ## Sorting -/

/-- The table counts the edges to every vertex, and all edges come from its keys. -/
structure Counts (targets : Text → List Text) (counts : Table Text Nat) : Prop where
  getD_eq : ∀ t, counts.getD t 0 = (counts.keys.flatMap targets).count t
  mem_keys : ∀ u, ∀ t ∈ targets u, u ∈ counts.keys

namespace Counts

variable {counts : Table Text Nat}

/-- Every target is counted. -/
theorem target_mem_keys (h : Counts targets counts) {u t : Text} (ht : t ∈ targets u) :
    t ∈ counts.keys := by
  have hmem : t ∈ counts.keys.flatMap targets := List.mem_flatMap.2 ⟨u, h.mem_keys u t ht, ht⟩
  have hpos : 0 < counts.getD t 0 := by
    rw [h.getD_eq]
    exact List.count_pos_iff.2 hmem
  by_cases hkey : t ∈ counts.keys
  · exact hkey
  · rw [Table.getD, Table.get?_eq_none_iff.2 hkey] at hpos
    exact absurd hpos (Nat.lt_irrefl 0)

/-- Before the first step nothing is done and the vertices that nothing leads to are queued. -/
theorem progress (h : Counts targets counts) :
    Progress targets counts.keys [] counts.keys
      ((counts.entries.filter fun e => e.2 == 0).map Prod.fst) counts := by
  refine ⟨counts.nodup_keys, fun u _ t ht => h.target_mem_keys ht, List.Perm.refl _,
    h.getD_eq, ?_, ?_, ?_⟩
  · intro v
    rw [← List.count_eq_zero, ← h.getD_eq v, List.mem_map]
    constructor
    · rintro ⟨⟨k, n⟩, hm, rfl⟩
      obtain ⟨hm, hzero⟩ := List.mem_filter.1 hm
      have hget := Table.get?_eq_some_iff.2 hm
      refine ⟨Table.mem_keys_iff.2 ⟨n, hget⟩, ?_⟩
      rw [Table.getD, hget]
      exact beq_iff_eq.1 hzero
    · rintro ⟨hkey, hzero⟩
      obtain ⟨n, hget⟩ := Table.mem_keys_iff.1 hkey
      rw [Table.getD, hget, Option.getD_some] at hzero
      exact ⟨(v, n), List.mem_filter.2 ⟨Table.get?_eq_some_iff.1 hget, by simpa using hzero⟩, rfl⟩
  · exact counts.nodup_keys.sublist (List.filter_sublist.map Prod.fst)
  · intro xs v ys heq
    simp at heq

/-- What is taken comes in order, and everything left is a target of something left. -/
theorem taken (h : Counts targets counts) :
    ∃ left : List Text, (Order.taken targets counts ++ left).Perm counts.keys ∧
      Forward targets counts.keys (Order.taken targets counts) ∧
        ∀ v ∈ left, v ∈ left.flatMap targets := by
  have hrun := h.progress.run counts.size
    (by rw [Table.size_eq_length_keys, List.length_nil, Nat.add_zero])
  exact hrun

/-- A complete order has every vertex once, behind all vertices with an edge to it. -/
theorem perm_of_sort? (h : Counts targets counts) {order : List Text}
    (hs : sort? targets counts = some order) :
    order.Perm counts.keys ∧ Forward targets counts.keys order := by
  obtain ⟨left, hperm, hforward, -⟩ := h.taken
  rw [sort?] at hs
  split at hs
  · next hlen =>
    cases hs
    have hlength := hperm.length_eq
    rw [List.length_append, beq_iff_eq.1 hlen, Table.size_eq_length_keys] at hlength
    have hleft : left = [] := List.eq_nil_of_length_eq_zero (by omega)
    rw [hleft, List.append_nil] at hperm
    exact ⟨hperm, hforward⟩
  · cases hs

end Counts

/-! ## Cycles -/

/-- No vertex leads back to itself. -/
def Acyclic (targets : Text → List Text) : Prop :=
  ∀ v, ¬ Relation.TransGen (fun u v => v ∈ targets u) v v

/-- Going back from vertex to vertex in a finite set ends in a cycle. `way` is the way so far. -/
theorem exists_cycle {R : Text → Text → Prop} {vs : List Text}
    (hback : ∀ v ∈ vs, ∃ u ∈ vs, R u v) (n : Nat) (way : List Text) (v : Text)
    (hn : vs.length ≤ n + way.length) (hnodup : (v :: way).Nodup) (hsub : v :: way ⊆ vs)
    (hway : ∀ u ∈ way, Relation.TransGen R v u) : ∃ w, Relation.TransGen R w w := by
  induction n generalizing way v with
  | zero =>
    have hlen := hnodup.length_le_of_subset hsub
    rw [List.length_cons] at hlen
    omega
  | succ n ih =>
    obtain ⟨u, hu, huv⟩ := hback v (hsub List.mem_cons_self)
    by_cases hmem : u ∈ v :: way
    · rcases List.mem_cons.1 hmem with rfl | hmem
      · exact ⟨u, .single huv⟩
      · exact ⟨v, .tail (hway u hmem) huv⟩
    · refine ih (v :: way) u (by rw [List.length_cons]; omega)
        (List.nodup_cons.2 ⟨hmem, hnodup⟩) ?_ ?_
      · intro w hw
        rcases List.mem_cons.1 hw with rfl | hw
        · exact hu
        · exact hsub hw
      · intro w hw
        rcases List.mem_cons.1 hw with rfl | hw
        · exact .single huv
        · exact Relation.TransGen.trans (.single huv) (hway w hw)

/-- What leads to a vertex stands in front of it. -/
theorem Forward.of_transGen {vs order : List Text} (h : Forward targets vs order)
    (hvs : ∀ u, ∀ t ∈ targets u, u ∈ vs) {u v : Text}
    (huv : Relation.TransGen (fun u v => v ∈ targets u) u v) (xs ys : List Text)
    (heq : order = xs ++ v :: ys) : u ∈ xs := by
  induction huv generalizing xs ys with
  | single hlink => exact h xs _ ys heq u (hvs _ _ hlink) hlink
  | @tail w v _ hlink ih =>
    have hw : w ∈ xs := h xs v ys heq w (hvs _ _ hlink) hlink
    obtain ⟨as, bs, rfl⟩ := List.append_of_mem hw
    have hu : u ∈ as := ih as (bs ++ v :: ys) (by rw [heq, List.append_assoc, List.cons_append])
    exact List.mem_append_left _ hu

/-- Where no vertex occurs twice, what stands in front of a vertex has a smaller place. -/
theorem idxOf_lt_of_mem {xs ys : List Text} {u v : Text} (hnodup : (xs ++ v :: ys).Nodup)
    (hu : u ∈ xs) :
    (xs ++ v :: ys).idxOf u < (xs ++ v :: ys).idxOf v := by
  have hnot : v ∉ xs := fun hmem => (List.nodup_append.1 hnodup).2.2 v hmem v List.mem_cons_self rfl
  have hlt : xs.idxOf u < xs.length := List.idxOf_lt_length_iff.2 hu
  rw [List.idxOf_append, List.idxOf_append, if_pos hu, if_neg hnot]
  omega

/-- The source of an edge has a smaller place than its target. -/
theorem Forward.idxOf_lt {vs order : List Text} (h : Forward targets vs order)
    (hnodup : order.Nodup) {u v : Text} (hu : u ∈ vs) (huv : v ∈ targets u) (hv : v ∈ order) :
    order.idxOf u < order.idxOf v := by
  obtain ⟨xs, ys, rfl⟩ := List.append_of_mem hv
  exact idxOf_lt_of_mem hnodup (h xs v ys rfl u hu huv)

/-- **There is an order exactly when there is no cycle.** -/
theorem Counts.sort?_isSome_iff {counts : Table Text Nat} (h : Counts targets counts) :
    (sort? targets counts).isSome = true ↔ Acyclic targets := by
  constructor
  · intro hs v hcycle
    obtain ⟨order, hs⟩ := Option.isSome_iff_exists.1 hs
    obtain ⟨hperm, hforward⟩ := h.perm_of_sort? hs
    have hv : v ∈ counts.keys := by
      cases hcycle with
      | single hlink => exact h.mem_keys v v hlink
      | tail _ hlink => exact h.target_mem_keys hlink
    obtain ⟨xs, ys, heq⟩ := List.append_of_mem (hperm.mem_iff.2 hv)
    have hmem : v ∈ xs := hforward.of_transGen h.mem_keys hcycle xs ys heq
    have hnodup : (xs ++ v :: ys).Nodup := heq ▸ hperm.nodup_iff.2 counts.nodup_keys
    exact (List.nodup_append.1 hnodup).2.2 v hmem v List.mem_cons_self rfl
  · intro hacyclic
    obtain ⟨left, hperm, -, hleft⟩ := h.taken
    have hnil : left = [] := by
      cases left with
      | nil => rfl
      | cons v left =>
        have hback : ∀ w ∈ v :: left, ∃ u ∈ v :: left, w ∈ targets u :=
          fun w hw => List.mem_flatMap.1 (hleft w hw)
        obtain ⟨w, hw⟩ := exists_cycle hback (v :: left).length [] v (by simp) (by simp)
          (by simp) (by simp)
        exact absurd hw (hacyclic w)
    rw [hnil, List.append_nil] at hperm
    rw [sort?, if_pos]
    · rfl
    · rw [beq_iff_eq, hperm.length_eq, Table.size_eq_length_keys]

end Order

end Gradual
