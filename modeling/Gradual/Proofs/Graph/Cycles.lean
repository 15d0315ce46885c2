import Mathlib.Data.List.Chain
import Mathlib.Logic.Relation
import Gradual.Proofs.Graph.Built

/-!
# The cycles that are found

A depth-first search keeps the way from its start, whose keys were all seen. An edge back to the way
closes a cycle: the part of the way from there on. As long as no edge leads back to the way, a key
that was left again leads only to keys that were left before, so that no infinite path starts there
(`Acc`), and in the end at no key.

Main statement: `cycles_spec`.
-/

namespace Gradual

namespace DependencyGraph

/-! ## Cycles -/

/-- The keys are distinct, each is linked to the next one, and the last one to the first. -/
structure IsCycle (g : DependencyGraph) (ks : List Text) : Prop where
  ne_nil : ks ≠ []
  nodup : ks.Nodup
  chain : ks.IsChain g.Linked
  closed : ∀ a ∈ ks.getLast?, ∀ b ∈ ks.head?, g.Linked a b

/-- No key leads back to itself. -/
def Acyclic (g : DependencyGraph) : Prop := ∀ k, ¬ Relation.TransGen g.Linked k k

/-- A chain leads from its first element to its last. -/
theorem reflTransGen_of_isChain {R : Text → Text → Prop} {a b : Text} {ks : List Text}
    (h : (a :: ks).IsChain R) (hb : b ∈ (a :: ks).getLast?) : Relation.ReflTransGen R a b := by
  induction ks generalizing a with
  | nil =>
    cases hb
    exact .refl
  | cons c ks ih =>
    obtain ⟨hac, hchain⟩ := List.isChain_cons_cons.1 h
    rw [List.getLast?_cons_cons] at hb
    exact .head hac (ih hchain hb)

/-- A cycle leads from its first key back to it. -/
theorem IsCycle.transGen {g : DependencyGraph} {ks : List Text} (h : g.IsCycle ks) :
    ∃ k, Relation.TransGen g.Linked k k := by
  cases ks with
  | nil => exact absurd rfl h.ne_nil
  | cons a ks =>
    obtain ⟨b, hb⟩ : ∃ b, (a :: ks).getLast? = some b :=
      ⟨_, List.getLast?_eq_some_getLast (by simp)⟩
    have hab := reflTransGen_of_isChain h.chain hb
    exact ⟨a, .tail' hab (h.closed b hb a rfl)⟩

/-! ## The way -/

/-- The keys, from the end of a way to its start: distinct keys of the graph, each linked to from
the next one. -/
structure IsWay (g : DependencyGraph) (way : List Text) : Prop where
  nodup : way.Nodup
  mem_keys : ∀ k ∈ way, k ∈ g.table.keys
  chain : way.IsChain fun a b => g.Linked b a

/-- A way may go on over a link to a key that is not on it. -/
theorem IsWay.cons {g : DependencyGraph} {log : List Edge} {key t : Text} {way : List Text}
    (hg : g.Holds log) (h : g.IsWay (key :: way)) (hlink : g.Linked key t) (ht : t ∉ key :: way) :
    g.IsWay (t :: key :: way) := by
  refine ⟨List.nodup_cons.2 ⟨ht, h.nodup⟩, ?_, List.isChain_cons_cons.2 ⟨hlink, h.chain⟩⟩
  intro k hk
  rcases List.mem_cons.1 hk with rfl | hk
  · exact hg.target_mem_keys hlink
  · exact h.mem_keys k hk

/-- The cycle closed at a key is the way from that key on, in its direction. -/
theorem cycleFrom_eq {key : Text} {front back : List Text} (h : key ∉ front) :
    cycleFrom key (front ++ key :: back) = (front ++ [key]).reverse := by
  have hwhile : (front ++ key :: back).takeWhile (fun k => k != key) = front := by
    rw [List.takeWhile_append_of_pos]
    · simp
    · intro k hk
      have hne : k ≠ key := by
        rintro rfl
        exact h hk
      simpa using hne
  rw [cycleFrom, hwhile, List.reverse_append, List.reverse_singleton, List.singleton_append]

/-- An edge back to the way closes a cycle. -/
theorem IsWay.isCycle {g : DependencyGraph} {key t : Text} {way : List Text}
    (h : g.IsWay (key :: way)) (hlink : g.Linked key t) (ht : t ∈ key :: way) :
    g.IsCycle (cycleFrom t (key :: way)) := by
  obtain ⟨front, back, heq⟩ := List.append_of_mem ht
  have hnodup := h.nodup
  have hchain := h.chain
  rw [heq] at hnodup hchain
  have hfront : t ∉ front := by
    intro hmem
    exact (List.nodup_append.1 hnodup).2.2 t hmem t List.mem_cons_self rfl
  have hsplit : front ++ t :: back = (front ++ [t]) ++ back := by simp
  rw [hsplit] at hnodup hchain
  rw [heq, cycleFrom_eq hfront]
  refine ⟨by simp, ?_, ?_, ?_⟩
  · exact (List.reverse_perm _).nodup_iff.2 (List.nodup_append.1 hnodup).1
  · exact List.isChain_reverse.2 hchain.left_of_append
  · intro a ha b hb
    rw [List.getLast?_reverse] at ha
    rw [List.head?_reverse, List.getLast?_append] at hb
    cases hb
    -- The cycle ends with the key from which the edge leads back.
    have hkey : (front ++ [t]).head? = some key := by
      cases front with
      | nil =>
        cases heq
        rfl
      | cons k front =>
        cases heq
        rfl
    cases hkey.symm.trans ha
    exact hlink

/-! ## The search -/

/-- The search from a key follows all links out of it, with the key seen and on the way. -/
theorem searchFrom_succ (g : DependencyGraph) (n : Nat) (way : List Text) (key : Text)
    (found : CycleSearch) :
    searchFrom g (n + 1) way key found =
      (g.targets key).foldl (follow (g.searchFrom n (key :: way)) (key :: way))
        { found with seen := key :: found.seen } := by
  rw [searchFrom, targets, List.foldl_map]

/-- No infinite path starts at the key. -/
abbrev Grounded (g : DependencyGraph) (k : Text) : Prop := Acc (fun b a => g.Linked a b) k

/-- What was found is right while the search stands at the end of the way. -/
structure Sound (g : DependencyGraph) (way : List Text) (found : CycleSearch) : Prop where
  isCycle : ∀ c ∈ found.cycles, g.IsCycle c
  seen_of_mem : ∀ k ∈ way, k ∈ found.seen
  grounded : found.cycles = [] → ∀ k ∈ found.seen, k ∈ way ∨ g.Grounded k

/-- The search went on: nothing that was seen is forgotten, and no cycle. -/
structure Extends (found found' : CycleSearch) : Prop where
  seen : ∀ k ∈ found.seen, k ∈ found'.seen
  cycles : found'.cycles = [] → found.cycles = []

theorem Extends.refl (found : CycleSearch) : Extends found found := ⟨fun _ hk => hk, fun h => h⟩

/-- Searches go on one after the other. -/
theorem Extends.trans {a b c : CycleSearch} (hab : Extends a b) (hbc : Extends b c) : Extends a c :=
  ⟨fun k hk => hbc.seen k (hab.seen k hk), fun h => hab.cycles (hbc.cycles h)⟩

/-- A key was dealt with: it was seen, and unless a cycle was found, it is not on the way. -/
def Settled (way : List Text) (found : CycleSearch) (t : Text) : Prop :=
  t ∈ found.seen ∧ (found.cycles = [] → t ∉ way)

/-- What was dealt with stays so while the search goes on. -/
theorem Settled.mono {way : List Text} {found found' : CycleSearch} {t : Text}
    (h : Settled way found t) (hext : Extends found found') : Settled way found' t :=
  ⟨hext.seen t h.1, fun hnil => h.2 (hext.cycles hnil)⟩

/-- What a search from a key has to do: it keeps what was found right, and sees the key. -/
def Searches (g : DependencyGraph) (n : Nat) : Prop :=
  ∀ way key found, g.IsWay (key :: way) → key ∉ found.seen → g.Sound way found →
    g.table.keys.length ≤ n + way.length →
    g.Sound way (searchFrom g n way key found) ∧ Extends found (searchFrom g n way key found) ∧
      key ∈ (searchFrom g n way key found).seen

section

variable {g : DependencyGraph} {log : List Edge} {n : Nat} {key : Text} {way : List Text}

/-- Following one link keeps what was found right and deals with its target. -/
theorem sound_follow (hg : g.Holds log) (hsearch : g.Searches n) (hway : g.IsWay (key :: way))
    (hn : g.table.keys.length ≤ n + (key :: way).length) {found : CycleSearch}
    (h : g.Sound (key :: way) found) {t : Text} (hlink : g.Linked key t) :
    let found' := follow (g.searchFrom n (key :: way)) (key :: way) found t
    g.Sound (key :: way) found' ∧ Extends found found' ∧ Settled (key :: way) found' t := by
  dsimp only
  rw [follow]
  by_cases hseen : t ∉ found.seen
  · rw [if_pos hseen]
    have ht : t ∉ key :: way := fun hmem => hseen (h.seen_of_mem t hmem)
    obtain ⟨hsound, hext, hmem⟩ := hsearch (key :: way) t found (hway.cons hg hlink ht) hseen h hn
    exact ⟨hsound, hext, hmem, fun _ => ht⟩
  · rw [if_neg hseen]
    have hmem : t ∈ found.seen := by simpa using hseen
    by_cases ht : t ∈ key :: way
    · rw [if_pos ht]
      refine ⟨⟨?_, h.seen_of_mem, ?_⟩, ⟨fun _ hk => hk, ?_⟩, hmem, ?_⟩
      · intro c hc
        rcases List.mem_append.1 hc with hc | hc
        · exact h.isCycle c hc
        · rw [List.mem_singleton.1 hc]
          exact hway.isCycle hlink ht
      · simp
      · simp
      · simp
    · rw [if_neg ht]
      exact ⟨h, .refl found, hmem, fun _ => ht⟩

theorem sound_foldl (hg : g.Holds log) (hsearch : g.Searches n) (hway : g.IsWay (key :: way))
    (hn : g.table.keys.length ≤ n + (key :: way).length) (ts : List Text)
    (hts : ∀ t ∈ ts, g.Linked key t) {found : CycleSearch} (h : g.Sound (key :: way) found) :
    let found' := ts.foldl (follow (g.searchFrom n (key :: way)) (key :: way)) found
    g.Sound (key :: way) found' ∧ Extends found found' ∧
      ∀ t ∈ ts, Settled (key :: way) found' t := by
  induction ts generalizing found with
  | nil => exact ⟨h, .refl found, by simp⟩
  | cons t ts ih =>
    obtain ⟨hsound, hext, hsettled⟩ := sound_follow hg hsearch hway hn h (hts t List.mem_cons_self)
    obtain ⟨hsound', hext', hsettled'⟩ :=
      ih (fun t' ht' => hts t' (List.mem_cons_of_mem t ht')) hsound
    rw [List.foldl_cons]
    refine ⟨hsound', hext.trans hext', ?_⟩
    intro t' ht'
    rcases List.mem_cons.1 ht' with rfl | ht'
    · exact hsettled.mono hext'
    · exact hsettled' t' ht'

end

/-- **The search is right.** By induction on the bound, which the way cannot exceed. -/
theorem searches {g : DependencyGraph} {log : List Edge} (hg : g.Holds log) (n : Nat) :
    g.Searches n := by
  induction n with
  | zero =>
    intro way key found hway hkey h hn
    have hlen := hway.nodup.length_le_of_subset hway.mem_keys
    rw [List.length_cons] at hlen
    omega
  | succ n ih =>
    intro way key found hway hkey h hn
    have hstart : g.Sound (key :: way) { found with seen := key :: found.seen } := by
      refine ⟨h.isCycle, ?_, ?_⟩
      · intro k hk
        rcases List.mem_cons.1 hk with rfl | hk
        · exact List.mem_cons_self
        · exact List.mem_cons_of_mem key (h.seen_of_mem k hk)
      · intro hnil k hk
        rcases List.mem_cons.1 hk with rfl | hk
        · exact .inl List.mem_cons_self
        · exact (h.grounded hnil k hk).imp_left (List.mem_cons_of_mem key)
    have hlinked : ∀ t ∈ g.targets key, g.Linked key t := fun t ht => hg.mem_targets.1 ht
    obtain ⟨hsound, hext, hsettled⟩ :=
      sound_foldl hg ih hway (by rw [List.length_cons]; omega) (g.targets key) hlinked hstart
    rw [searchFrom_succ]
    refine ⟨⟨hsound.isCycle, ?_, ?_⟩, ⟨?_, hext.cycles⟩, hext.seen key List.mem_cons_self⟩
    · intro k hk
      exact hsound.seen_of_mem k (List.mem_cons_of_mem key hk)
    · -- Without a cycle all targets are grounded, and with them the key.
      intro hnil k hk
      have htargets : ∀ t ∈ g.targets key, g.Grounded t := by
        intro t ht
        obtain ⟨hseen, hnot⟩ := hsettled t ht
        exact (hsound.grounded hnil t hseen).resolve_left (hnot hnil)
      rcases hsound.grounded hnil k hk with hmem | hground
      · rcases List.mem_cons.1 hmem with rfl | hmem
        · exact .inr ⟨_, fun t ht => htargets t (hg.mem_targets.2 ht)⟩
        · exact .inl hmem
      · exact .inr hground
    · intro k hk
      exact hext.seen k (List.mem_cons_of_mem key hk)

/-! ## All cycles -/

section

variable {g : DependencyGraph} {log : List Edge}

theorem sound_starts (hg : g.Holds log) (ks : List Text) (hks : ∀ k ∈ ks, k ∈ g.table.keys)
    {found : CycleSearch} (h : g.Sound [] found) :
    let found' := ks.foldl (fun found key =>
      if key ∈ found.seen then found else searchFrom g g.table.size [] key found) found
    g.Sound [] found' ∧ Extends found found' ∧ ∀ k ∈ ks, k ∈ found'.seen := by
  induction ks generalizing found with
  | nil => exact ⟨h, .refl found, by simp⟩
  | cons k ks ih =>
    have hks' : ∀ k' ∈ ks, k' ∈ g.table.keys := fun k' hk' => hks k' (List.mem_cons_of_mem k hk')
    have hstep : ∃ found',
        (if k ∈ found.seen then found else searchFrom g g.table.size [] k found) = found' ∧
          g.Sound [] found' ∧ Extends found found' ∧ k ∈ found'.seen := by
      by_cases hseen : k ∈ found.seen
      · exact ⟨found, if_pos hseen, h, .refl found, hseen⟩
      · have hway : g.IsWay [k] := by
          refine ⟨by simp, ?_, List.isChain_singleton k⟩
          intro k' hk'
          rw [List.mem_singleton.1 hk']
          exact hks k List.mem_cons_self
        have hn : g.table.keys.length ≤ g.table.size :=
          Nat.le_of_eq g.table.size_eq_length_keys.symm
        exact ⟨_, if_neg hseen, searches hg g.table.size [] k found hway hseen h hn⟩
    obtain ⟨found', heq, hsound, hext, hk⟩ := hstep
    rw [List.foldl_cons, heq]
    obtain ⟨hsound', hext', hks'⟩ := ih hks' hsound
    refine ⟨hsound', hext.trans hext', ?_⟩
    intro k' hk'
    rcases List.mem_cons.1 hk' with rfl | hk'
    · exact hext'.seen k' hk
    · exact hks' k' hk'

/-- Nothing is wrong before the search. -/
theorem sound_start (g : DependencyGraph) : g.Sound [] ⟨[], []⟩ := ⟨by simp, by simp, by simp⟩

/-- Every cycle that is found is one. -/
theorem isCycle_cycleKeys (hg : g.Holds log) : ∀ c ∈ g.cycleKeys, g.IsCycle c :=
  (sound_starts hg g.table.keys (fun _ hk => hk) (sound_start g)).1.isCycle

/-- Where no cycle is found, no key has an endless way out of it. -/
theorem grounded_of_cycleKeys (hg : g.Holds log) (hnil : g.cycleKeys = []) :
    ∀ k ∈ g.table.keys, g.Grounded k := by
  obtain ⟨hsound, -, hseen⟩ := sound_starts hg g.table.keys (fun _ hk => hk) (sound_start g)
  intro k hk
  exact (hsound.grounded hnil k (hseen k hk)).resolve_left List.not_mem_nil

/-- A key without an endless way does not lead back to itself. -/
theorem not_transGen_of_grounded {k : Text} (h : g.Grounded k) :
    ¬ Relation.TransGen g.Linked k k := by
  have hirrefl : ∀ {r : Text → Text → Prop} {a : Text}, Acc r a → ¬ r a a := by
    intro r a ha
    induction ha with
    | intro a _ ih => exact fun haa => ih a haa haa
  intro hcycle
  exact hirrefl h.transGen (Relation.transGen_swap.2 hcycle)

/-- No cycle is found exactly where the graph has none. -/
theorem cycleKeys_eq_nil_iff (hg : g.Holds log) : g.cycleKeys = [] ↔ g.Acyclic := by
  constructor
  · intro hnil k hcycle
    have hk : k ∈ g.table.keys := by
      obtain ⟨b, hkb, -⟩ := Relation.TransGen.head'_iff.1 hcycle
      exact hg.source_mem_keys hkb
    exact not_transGen_of_grounded (grounded_of_cycleKeys hg hnil k hk) hcycle
  · intro hacyclic
    rw [List.eq_nil_iff_forall_not_mem]
    intro c hc
    obtain ⟨k, hk⟩ := (isCycle_cycleKeys hg c hc).transGen
    exact hacyclic k hk

/-- The keys of nodes that are looked up are the keys that were asked for. -/
theorem map_key_filterMap (hg : g.Holds log) {ks : List Text} (hks : ∀ k ∈ ks, k ∈ g.table.keys) :
    (ks.filterMap fun k => g.table.get? k).map Node.key = ks := by
  induction ks with
  | nil => rfl
  | cons k ks ih =>
    obtain ⟨n, hn⟩ := Table.mem_keys_iff.1 (hks k List.mem_cons_self)
    rw [List.filterMap_cons_some hn, List.map_cons, hg.key_eq k n hn,
      ih fun k' hk' => hks k' (List.mem_cons_of_mem k hk')]

/-- A chain of links that ends in the graph stays in the graph. -/
theorem mem_keys_of_isChain (hg : g.Holds log) {a : Text} {ks : List Text}
    (h : (a :: ks).IsChain g.Linked) (hlast : ∀ b ∈ (a :: ks).getLast?, b ∈ g.table.keys) :
    ∀ k ∈ a :: ks, k ∈ g.table.keys := by
  induction ks generalizing a with
  | nil =>
    intro k hk
    rw [List.mem_singleton.1 hk]
    exact hlast a rfl
  | cons b ks ih =>
    obtain ⟨hab, hchain⟩ := List.isChain_cons_cons.1 h
    rw [List.getLast?_cons_cons] at hlast
    intro k hk
    rcases List.mem_cons.1 hk with rfl | hk
    · exact hg.source_mem_keys hab
    · exact ih hchain hlast k hk

/-- All keys of a cycle are keys of the graph. -/
theorem IsCycle.mem_keys (hg : g.Holds log) {ks : List Text} (h : g.IsCycle ks) :
    ∀ k ∈ ks, k ∈ g.table.keys := by
  cases ks with
  | nil => exact absurd rfl h.ne_nil
  | cons a ks =>
    exact mem_keys_of_isChain hg h.chain fun b hb => hg.source_mem_keys (h.closed b hb a rfl)

end

/-- **The cycles that are found are cycles, and none is found only where there is none.** For every
graph that was built: what is found are the nodes of cycles of distinct keys, and nothing is found
exactly when no key leads back to itself, which is also when the nodes can be ordered. -/
theorem cycles_spec (us : List GraphUpdate) :
    (∀ c ∈ (ofUpdates us).cycles, (ofUpdates us).IsCycle (c.map Node.key) ∧
      ∀ n ∈ c, n ∈ (ofUpdates us).nodes) ∧
      ((ofUpdates us).cycles = [] ↔ ∀ k, ¬ Relation.TransGen (ofUpdates us).Linked k k) ∧
      ((ofUpdates us).cycles = [] ↔ (ofUpdates us).topological?.isSome = true) := by
  obtain ⟨log, hg⟩ := holds_ofUpdates us
  have hnil : (ofUpdates us).cycles = [] ↔ (ofUpdates us).Acyclic := by
    rw [cycles, List.map_eq_nil_iff, cycleKeys_eq_nil_iff hg]
  refine ⟨?_, hnil, ?_⟩
  · intro c hc
    obtain ⟨ks, hks, rfl⟩ := List.mem_map.1 hc
    have hcycle := isCycle_cycleKeys hg ks hks
    rw [map_key_filterMap hg (hcycle.mem_keys hg)]
    refine ⟨hcycle, ?_⟩
    intro n hn
    obtain ⟨k, -, hk⟩ := List.mem_filterMap.1 hn
    exact Table.mem_values_iff.2 ⟨k, hk⟩
  · have hlinked : (fun u v => v ∈ (ofUpdates us).targets u) = (ofUpdates us).Linked := by
      funext u v
      exact propext hg.mem_targets
    have hsort := hg.counts.sort?_isSome_iff
    rw [Order.Acyclic, hlinked] at hsort
    rw [hnil, topological?, Option.isSome_map]
    exact hsort.symm

end DependencyGraph

end Gradual
