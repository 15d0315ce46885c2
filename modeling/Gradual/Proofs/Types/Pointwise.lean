import Gradual.Proofs.Types.Permuted

/-!
# Sets of types, weight by weight

A list of members gives a weight to every type, the mass of its key, and the operations on unions
are operations on these weights. Each of them makes a list in which a type may stand several times,
and brings it into normal form. Masses do not change there, so it is enough to know what the first
list weighs: halves add up, and products distribute over the sums.

The normal form is sorted by weight, and sorting is stable: whatever holds between each member and
all that come later holds between members of one weight afterwards. Merged members stand in the
order of their first occurrences, and so do ties.

Main statement: `Members.set_operations`.
-/

namespace Gradual

namespace Members

variable {ω : Type}

/-- The keys of members, one for each. -/
theorem keys_eq_map (ms : Members ω) : keys ms = ms.map fun m => m.1.key := List.map_map

theorem keys_cons (m : Concrete ω × ω) (ms : Members ω) : keys (m :: ms) = m.1.key :: keys ms := rfl

/-- The keys of members one after another. -/
theorem keys_append (ms ms' : Members ω) : keys (ms ++ ms') = keys ms ++ keys ms' := by
  rw [keys_eq_map, keys_eq_map, keys_eq_map, List.map_append]

/-- A type is contained when its key is among the keys. -/
theorem contains_iff {ms : Members ω} {t : Concrete ω} :
    contains ms t = true ↔ t.key ∈ keys ms := by
  unfold contains Concrete.same
  rw [List.any_eq_true, keys_eq_map, List.mem_map]
  simp

/-! ## Masses -/

/-- Weights under a key add up over parts. -/
theorem mass_append (ms ms' : Members ℚ) (k : Text) :
    mass (ms ++ ms') k = mass ms k + mass ms' k := by
  unfold mass
  rw [List.filter_append, List.map_append, List.sum_append]

/-- Where no two members have one type, the weight under a key is that of its member. -/
theorem mass_of_mem {ms : Members ℚ} (h : Distinct ms) {m : Concrete ℚ × ℚ} (hm : m ∈ ms) :
    mass ms m.1.key = m.2 := by
  induction ms with
  | nil => simp at hm
  | cons x ms ih =>
    obtain ⟨hx, hms⟩ := List.nodup_cons.1 h
    rw [mass_cons]
    rcases List.mem_cons.1 hm with rfl | hm
    · rw [if_pos rfl, mass_of_not_mem hx, add_zero]
    · have hne : x.1.key ≠ m.1.key := fun heq => hx (heq ▸ List.mem_map_of_mem (mem_types hm))
      rw [if_neg hne, zero_add, ih hms hm]

/-- A normal form weighs what was there before. -/
theorem mass_normalize (ms : Members ℚ) (k : Text) : mass (normalize ms) k = mass ms k := by
  by_cases hk : k ∈ keys ms
  · obtain ⟨m, hm, rfl, hweight⟩ := exists_mem_normalize hk
    rw [mass_of_mem (distinct_normalize ms) hm, hweight]
  · rw [mass_of_not_mem hk, mass_of_not_mem]
    rwa [mem_keys_normalize]

/-- Scaling all members scales the weight under each key. -/
theorem mass_scale (ms : Members ℚ) (c : ℚ) (k : Text) :
    mass (ms.map fun m => (m.1, m.2 * c)) k = mass ms k * c := by
  induction ms with
  | nil => simp [mass_nil]
  | cons m ms ih =>
    rw [List.map_cons, mass_cons, mass_cons, ih, add_mul, ite_mul, zero_mul]

/-- A condition that does not tell equal types apart keeps the mass of a type or takes all of it. -/
theorem mass_filter {p : Concrete ℚ → Bool} (hp : ∀ s t, s.same t = true → p s = p t)
    (ms : Members ℚ) (t : Concrete ℚ) :
    mass (ms.filter fun m => p m.1) t.key = if p t = true then mass ms t.key else 0 := by
  induction ms with
  | nil => simp [mass_nil]
  | cons m ms ih =>
    by_cases hkey : m.1.key = t.key
    · have hpm : p m.1 = p t := hp m.1 t (by simpa [Concrete.same] using hkey)
      by_cases ht : p t = true
      · rw [List.filter_cons_of_pos (by rw [hpm, ht]), mass_cons, mass_cons, ih,
          if_pos ht, if_pos ht]
      · rw [List.filter_cons_of_neg (by rw [hpm]; exact ht), ih, if_neg ht, if_neg ht]
    · have hskip : mass ((m :: ms).filter fun m => p m.1) t.key =
          mass (ms.filter fun m => p m.1) t.key := by
        rw [List.filter_cons]
        split
        · rw [mass_cons, if_neg hkey, zero_add]
        · rfl
      rw [hskip, ih, mass_cons, if_neg hkey, zero_add]

/-! ## Members of both -/

/-- What a member has in common with others. -/
def partners (a : Concrete ℚ × ℚ) (ms : Members ℚ) : Members ℚ :=
  (ms.filter fun b => a.1.same b.1).map fun b => (a.1, a.2 * b.2)

/-- What two lists have in common, before it is brought into normal form. -/
def shared (left right : Members ℚ) : Members ℚ := left.flatMap fun a => partners a right

/-- The intersection is the normal form of what two lists have in common. -/
theorem intersect_eq (left right : Members ℚ) :
    intersect left right = normalize (shared left right) := rfl

/-- What a list has in common with another comes member by member. -/
theorem shared_cons (a : Concrete ℚ × ℚ) (left right : Members ℚ) :
    shared (a :: left) right = partners a right ++ shared left right := List.flatMap_cons

/-- A member meets another one only where their keys are the same. -/
theorem partners_cons (a b : Concrete ℚ × ℚ) (ms : Members ℚ) :
    partners a (b :: ms) = (if a.1.key = b.1.key then [(a.1, a.2 * b.2)] else []) ++
      partners a ms := by
  unfold partners Concrete.same
  by_cases h : a.1.key = b.1.key
  · simp [h]
  · simp [h]

/-- Under its own key a member is met by all the weight that the others have there, and under other
keys by none. -/
theorem mass_partners (a : Concrete ℚ × ℚ) (ms : Members ℚ) (k : Text) :
    mass (partners a ms) k = (if a.1.key = k then a.2 else 0) * mass ms k := by
  induction ms with
  | nil => simp [partners, mass_nil]
  | cons b ms ih =>
    rw [partners_cons, mass_append, ih, mass_cons, mul_add]
    congr 1
    by_cases hk : a.1.key = k
    · subst hk
      by_cases hb : a.1.key = b.1.key
      · simp [hb, mass_cons, mass_nil]
      · simp [hb, Ne.symm hb, mass_nil]
    · by_cases hb : a.1.key = b.1.key
      · simp [hb, hb ▸ hk, mass_cons, mass_nil]
      · simp [hb, hk, mass_nil]

/-- Products distribute over the members of both lists. -/
theorem mass_shared (left right : Members ℚ) (k : Text) :
    mass (shared left right) k = mass left k * mass right k := by
  induction left with
  | nil => simp [shared, mass_nil]
  | cons a left ih =>
    rw [shared_cons, mass_append, ih, mass_partners, mass_cons, add_mul]

/-- A member is met as often as its key occurs among the others. -/
theorem keys_partners (a : Concrete ℚ × ℚ) (ms : Members ℚ) :
    keys (partners a ms) = List.replicate ((keys ms).count a.1.key) a.1.key := by
  induction ms with
  | nil => rfl
  | cons b ms ih =>
    rw [partners_cons, keys_append, ih, keys_cons, List.count_cons]
    by_cases hb : a.1.key = b.1.key
    · simp [hb, keys, types, List.replicate_succ]
    · simp [hb, Ne.symm hb, keys, types]

/-- A key occurs in common as often as it does on the left for each time on the right. -/
theorem keys_shared (left right : Members ℚ) :
    keys (shared left right) = (keys left).flatMap fun k =>
      List.replicate ((keys right).count k) k := by
  induction left with
  | nil => rfl
  | cons a left ih =>
    rw [shared_cons, keys_append, keys_partners, ih, keys_cons, List.flatMap_cons]

/-! ## First occurrences -/

/-- Merged members stand in the order of their first occurrences. -/
theorem pairwise_keys_merge [Weight ω] (ms : Members ω) :
    (keys (merge ms)).Pairwise fun k k' => (keys ms).idxOf k < (keys ms).idxOf k' := by
  induction ms using List.reverseRecOn with
  | nil => exact .nil
  | append_singleton ms m ih =>
    have hfold : keys (merge (ms ++ [m])) = (collect (ms.foldl collect .empty) m).keys := by
      rw [keys_merge, List.foldl_append, List.foldl_cons, List.foldl_nil]
    -- What was there before keeps its first place.
    have hkeep : ∀ k ∈ keys (merge ms), (keys (ms ++ [m])).idxOf k = (keys ms).idxOf k := by
      intro k hk
      rw [keys_append, List.idxOf_append_of_mem ((mem_keys_merge ms k).1 hk)]
    have hold : (keys (merge ms)).Pairwise fun k k' =>
        (keys (ms ++ [m])).idxOf k < (keys (ms ++ [m])).idxOf k' := by
      refine ih.imp_of_mem ?_
      intro k k' hk hk' hlt
      rwa [hkeep k hk, hkeep k' hk']
    rw [hfold, collect, Table.keys_insert, ← keys_merge]
    by_cases hmem : m.1.key ∈ keys (merge ms)
    · rwa [if_pos hmem]
    · rw [if_neg hmem, List.pairwise_append]
      refine ⟨hold, List.pairwise_singleton _ _, ?_⟩
      intro k hk k' hk'
      obtain rfl := List.mem_singleton.1 hk'
      rw [mem_keys_merge] at hmem
      rw [hkeep k hk, keys_append, List.idxOf_append_of_notMem hmem]
      exact Nat.lt_of_lt_of_le (List.idxOf_lt_length_of_mem ((mem_keys_merge ms k).1 hk))
        (Nat.le_add_right _ _)

/-- Repeating elements in their places, some of them not at all, does not change the order of first
occurrences. -/
theorem idxOf_lt_of_flatMap_replicate {α : Type} [BEq α] [LawfulBEq α] {n : α → Nat}
    {ks : List α} {a b : α} (ha : a ∈ ks.flatMap fun k => List.replicate (n k) k)
    (hb : b ∈ ks.flatMap fun k => List.replicate (n k) k)
    (h : (ks.flatMap fun k => List.replicate (n k) k).idxOf a <
      (ks.flatMap fun k => List.replicate (n k) k).idxOf b) :
    (ks.filter fun k => 0 < n k).idxOf a < (ks.filter fun k => 0 < n k).idxOf b := by
  induction ks with
  | nil => simp at ha
  | cons k ks ih =>
    rw [List.flatMap_cons] at ha hb h
    cases hn : n k with
    | zero =>
      rw [hn, List.replicate_zero, List.nil_append] at ha hb h
      rw [List.filter_cons_of_neg (by simp [hn])]
      exact ih ha hb h
    | succ j =>
      rw [hn] at ha hb h
      rw [List.filter_cons_of_pos (by simp [hn])]
      -- The later one is not the first element, which has the first place in both lists.
      have hbk : b ≠ k := by
        rintro rfl
        simp [List.replicate_succ] at h
      by_cases hak : a = k
      · rw [hak, List.idxOf_cons_self, List.idxOf_cons_ne _ (Ne.symm hbk)]
        exact Nat.succ_pos _
      · have hout : ∀ c, c ≠ k → c ∉ List.replicate (j + 1) k :=
          fun c hc hmem => hc (List.eq_of_mem_replicate hmem)
        rw [List.idxOf_append_of_notMem (hout a hak), List.idxOf_append_of_notMem (hout b hbk)] at h
        rw [List.idxOf_cons_ne _ (Ne.symm hak), List.idxOf_cons_ne _ (Ne.symm hbk)]
        have hrest := ih ((List.mem_append.1 ha).resolve_left (hout a hak))
          ((List.mem_append.1 hb).resolve_left (hout b hbk)) (by omega)
        omega

/-! ## Stable order -/

/-- Members of one weight are in a relation, the earlier to the later. -/
def Ties (R : Concrete ℚ × ℚ → Concrete ℚ × ℚ → Prop) (ms : Members ℚ) : Prop :=
  ms.Pairwise fun a b => a.2 = b.2 → R a b

section

variable {R : Concrete ℚ × ℚ → Concrete ℚ × ℚ → Prop} {ms : Members ℚ}

/-- Placing a member behind all of its weight keeps ties in relation. -/
theorem Ties.place (h : Ties R ms) (hfalling : Falling ms) {m : Concrete ℚ × ℚ}
    (hm : ∀ x ∈ ms, R x m) : Ties R (place m ms) := by
  induction ms with
  | nil => exact List.pairwise_singleton _ m
  | cons x ms ih =>
    obtain ⟨hx, hms⟩ := List.pairwise_cons.1 h
    obtain ⟨hlight, hrest⟩ := List.pairwise_cons.1 hfalling
    unfold Members.place
    split
    · -- All behind it are lighter, so it is tied with none of them.
      rename_i hlt
      refine List.pairwise_cons.2 ⟨?_, h⟩
      intro y hy heq
      have hle : y.2 ≤ x.2 := by
        rcases List.mem_cons.1 hy with rfl | hy
        · exact le_refl _
        · exact hlight y hy
      rw [heq] at hlt
      exact absurd hlt (not_lt.2 hle)
    · refine List.pairwise_cons.2 ⟨?_, ih hms hrest fun y hy => hm y (List.mem_cons_of_mem x hy)⟩
      intro y hy
      rcases List.mem_cons.1 ((place_perm m ms).mem_iff.1 hy) with rfl | hy
      · exact fun _ => hm x List.mem_cons_self
      · exact hx y hy

/-- Sorting is stable. -/
theorem ties_sort (h : ms.Pairwise R) : Ties R (sort ms) := by
  induction ms using List.reverseRecOn with
  | nil => exact .nil
  | append_singleton ms m ih =>
    obtain ⟨hms, -, hm⟩ := List.pairwise_append.1 h
    rw [sort_concat]
    refine (ih hms).place (falling_sort ms) ?_
    intro x hx
    exact hm x ((sort_perm ms).mem_iff.1 hx) m List.mem_cons_self

end

/-- A member that no other one falls below goes to the end. -/
theorem place_of_forall_le {ms : Members ℚ} {m : Concrete ℚ × ℚ} (h : ∀ x ∈ ms, m.2 ≤ x.2) :
    place m ms = ms ++ [m] := by
  induction ms with
  | nil => rfl
  | cons x ms ih =>
    rw [List.forall_mem_cons] at h
    rw [place, if_neg (not_lt.2 h.1), ih h.2, List.cons_append]

/-- What is in order stays as it is. -/
theorem sort_of_falling {ms : Members ℚ} (h : Falling ms) : sort ms = ms := by
  induction ms using List.reverseRecOn with
  | nil => rfl
  | append_singleton ms m ih =>
    obtain ⟨hms, -, hm⟩ := List.pairwise_append.1 h
    rw [sort_concat, ih hms, place_of_forall_le]
    intro x hx
    exact hm x hx m List.mem_cons_self

/-- Different types have nothing to merge. -/
theorem merge_of_distinct {ms : Members ℚ} (h : Distinct ms) : merge ms = ms := by
  have hentries : (ms.foldl collect .empty).entries = ms.map fun m => (m.1.key, m) := by
    induction ms using List.reverseRecOn with
    | nil => rfl
    | append_singleton ms m ih =>
      have hkeys : keys (ms ++ [m]) = keys ms ++ [m.1.key] := keys_append ms [m]
      obtain ⟨hms, -, hne⟩ := List.nodup_append.1 (hkeys ▸ h : (keys ms ++ [m.1.key]).Nodup)
      have hnew : m.1.key ∉ (ms.foldl collect .empty).keys := by
        rw [← keys_merge, mem_keys_merge]
        exact fun hmem => hne _ hmem _ List.mem_cons_self rfl
      rw [List.foldl_append, List.foldl_cons, List.foldl_nil, collect,
        Table.get?_eq_none_iff.2 hnew, Table.entries_insert hnew, ih hms, List.map_append]
      rfl
  rw [merge, Table.values, hentries, List.map_map]
  exact List.map_id ms

/-- Normal forms are normal. -/
theorem normalize_normalize (ms : Members ℚ) : normalize (normalize ms) = normalize ms := by
  rw [normalize, merge_of_distinct (distinct_normalize ms), sort_of_falling (falling_normalize ms)]

/-! ## Results -/

/-- The members have the keys of a list, each one once, and the weights of a function. They are
ordered by weight, and by the places of their keys in the list where they weigh the same. -/
structure Ranked (order : List Text) (weight : Concrete ℚ → ℚ) (ms : Members ℚ) : Prop where
  contains_iff : ∀ t, contains ms t = true ↔ t.key ∈ order
  weightOf_eq : ∀ t, weightOf ms t = weight t
  distinct : Distinct ms
  falling : Falling ms
  ties : Ties (fun a b => order.idxOf a.1.key < order.idxOf b.1.key) ms

/-- The normal form of members is ranked by the weights under their keys, ties by the first places
of keys. -/
theorem ranked_normalize (ms : Members ℚ) :
    Ranked (keys ms) (fun t => mass ms t.key) (normalize ms) where
  contains_iff t := by rw [contains_iff, mem_keys_normalize]
  weightOf_eq t := by rw [weightOf_eq_mass (distinct_normalize ms), mass_normalize]
  distinct := distinct_normalize ms
  falling := falling_normalize ms
  ties := by
    apply ties_sort
    have hkeys := pairwise_keys_merge ms
    rwa [keys_eq_map (merge ms), List.pairwise_map] at hkeys

/-- The same ranking from another description of weights and order. -/
theorem Ranked.congr {order order' : List Text} {weight weight' : Concrete ℚ → ℚ} {ms : Members ℚ}
    (h : Ranked order weight ms) (hweight : ∀ t, weight t = weight' t)
    (hmem : ∀ k, k ∈ order ↔ k ∈ order')
    (horder : ∀ a ∈ order, ∀ b ∈ order, order.idxOf a < order.idxOf b →
      order'.idxOf a < order'.idxOf b) :
    Ranked order' weight' ms where
  contains_iff t := by rw [h.contains_iff, hmem]
  weightOf_eq t := by rw [h.weightOf_eq, hweight]
  distinct := h.distinct
  falling := h.falling
  ties := by
    have hkeys : ∀ m ∈ ms, m.1.key ∈ order := by
      intro m hm
      rw [← h.contains_iff, Members.contains_iff]
      exact List.mem_map_of_mem (mem_types hm)
    refine h.ties.imp_of_mem ?_
    intro a b ha hb hlt heq
    exact horder _ (hkeys a ha) _ (hkeys b hb) (hlt heq)

/-- The union of two lists is ranked by the halves of the weights in both. -/
theorem ranked_unite (left right : Members ℚ) :
    Ranked (keys left ++ keys right) (fun t => (mass left t.key + mass right t.key) / 2)
      (unite left right) := by
  have hhalf : (Weight.ofRatio 1 2 : ℚ) = 1 / 2 := by
    rw [Weight.ofRatio_rat]
    norm_num
  have hkeys : keys ((left ++ right).map fun m => (m.1, m.2 * (Weight.ofRatio 1 2 : ℚ))) =
      keys left ++ keys right := by
    rw [← keys_append, keys_eq_map, keys_eq_map, List.map_map]
    rfl
  have hraw := ranked_normalize ((left ++ right).map fun m => (m.1, m.2 * (Weight.ofRatio 1 2 : ℚ)))
  rw [hkeys] at hraw
  refine hraw.congr ?_ (fun _ => Iff.rfl) fun _ _ _ _ h => h
  intro t
  rw [mass_scale, mass_append, hhalf, mul_one_div]

/-- The intersection of two lists is ranked by the products of the weights in both. -/
theorem ranked_intersect (left right : Members ℚ) :
    Ranked ((keys left).filter (· ∈ keys right)) (fun t => mass left t.key * mass right t.key)
      (intersect left right) := by
  have hfilter : ((keys left).filter fun k => 0 < (keys right).count k) =
      (keys left).filter (· ∈ keys right) := by
    refine List.filter_congr ?_
    intro k _
    exact decide_eq_decide.2 List.count_pos_iff
  have hraw := ranked_normalize (shared left right)
  rw [keys_shared, ← intersect_eq] at hraw
  refine hraw.congr (fun t => mass_shared left right t.key) ?_ ?_
  · intro k
    simp [List.mem_flatMap, List.mem_replicate, List.count_eq_zero]
  · intro a ha b hb hlt
    rw [← hfilter]
    exact idxOf_lt_of_flatMap_replicate ha hb hlt

/-- A restriction is ranked by the weights it keeps, where the test does not tell equal types apart.
-/
theorem ranked_restrict {p : Concrete ℚ → Bool} (hp : ∀ s t, s.same t = true → p s = p t)
    (ms : Members ℚ) :
    Ranked (keys (ms.filter fun m => p m.1)) (fun t => if p t = true then mass ms t.key else 0)
      (restrict ms p) :=
  (ranked_normalize (ms.filter fun m => p m.1)).congr (mass_filter hp ms)
    (fun _ => Iff.rfl) fun _ _ _ _ h => h

/-- The same weights in the same order, and the same types with them, but for the order of types
that weigh the same. -/
structure SameButTies (ms ms' : Members ℚ) : Prop where
  weights : ms.map Prod.snd = ms'.map Prod.snd
  profile : (profile ms).Perm (profile ms')

section

variable {order order' : List Text} {weight : Concrete ℚ → ℚ} {ms ms' : Members ℚ}

/-- Each member of a ranked list has the weight of its type. -/
theorem Ranked.weight_of_mem (h : Ranked order weight ms) {m : Concrete ℚ × ℚ} (hm : m ∈ ms) :
    m.2 = weight m.1 := by
  rw [← h.weightOf_eq, weightOf_eq_mass h.distinct, mass_of_mem h.distinct hm]

/-- Ranked lists with the same weights have the members of their common keys in common. -/
theorem Ranked.profile_subset (h : Ranked order weight ms) (h' : Ranked order' weight ms')
    (hmem : ∀ k, k ∈ order → k ∈ order') : profile ms ⊆ profile ms' := by
  intro e he
  obtain ⟨m, hm, rfl⟩ := List.mem_map.1 he
  have hkey : m.1.key ∈ keys ms' := by
    rw [← Members.contains_iff, h'.contains_iff]
    apply hmem
    rw [← h.contains_iff, Members.contains_iff]
    exact List.mem_map_of_mem (mem_types hm)
  rw [keys_eq_map] at hkey
  obtain ⟨m', hm', heq⟩ := List.mem_map.1 hkey
  have hweight : m'.2 = m.2 := by
    rw [h.weight_of_mem hm, ← h'.weightOf_eq, weightOf_eq_mass h'.distinct, ← heq,
      mass_of_mem h'.distinct hm']
  exact List.mem_map.2 ⟨m', hm', by rw [heq, hweight]⟩

/-- Keys and weights determine what is ranked, but for the order of ties. -/
theorem Ranked.sameButTies (h : Ranked order weight ms) (h' : Ranked order' weight ms')
    (hmem : ∀ k, k ∈ order ↔ k ∈ order') : SameButTies ms ms' := by
  have hprofile : (profile ms).Perm (profile ms') := by
    refine (List.perm_ext_iff_of_nodup (nodup_profile h.distinct) (nodup_profile h'.distinct)).2
      fun e => ⟨?_, ?_⟩
    · exact fun he => h.profile_subset h' (fun k => (hmem k).1) he
    · exact fun he => h'.profile_subset h (fun k => (hmem k).2) he
  exact ⟨weights_eq_of_profile hprofile h.falling h'.falling, hprofile⟩

end

/-- The union of two lists does not depend on their order, ties apart. -/
theorem unite_comm (left right : Members ℚ) :
    SameButTies (unite left right) (unite right left) := by
  have hother : Ranked (keys right ++ keys left) (fun t => (mass left t.key + mass right t.key) / 2)
      (unite right left) := by
    refine (ranked_unite right left).congr ?_ (fun _ => Iff.rfl) fun _ _ _ _ h => h
    intro t
    rw [add_comm]
  refine (ranked_unite left right).sameButTies hother ?_
  intro k
  rw [List.mem_append, List.mem_append, or_comm]

theorem intersect_comm (left right : Members ℚ) :
    SameButTies (intersect left right) (intersect right left) := by
  have hother : Ranked ((keys right).filter (· ∈ keys left))
    (fun t => mass left t.key * mass right t.key)
      (intersect right left) := by
    refine (ranked_intersect right left).congr ?_ (fun _ => Iff.rfl) fun _ _ _ _ h => h
    intro t
    rw [mul_comm]
  refine (ranked_intersect left right).sameButTies hother ?_
  intro k
  simp [and_comm]

/-- **Operations on unions act weight by weight.** In a normal form every type has the mass it has
among the given members, in a union of two half the sum of both masses, in what they share the
product, and under a condition that does not tell equal types apart all or nothing. The results list
exactly the types that should be there, no two of them equal, in falling weight and, where weights
are equal, in the order of their first occurrence. So a normal form is its own, and the operations
on two lists do not depend on which comes first, but for the order of ties. -/
theorem set_operations (left right : Members ℚ) :
    Ranked (keys left) (fun t => mass left t.key) (normalize left) ∧
    Ranked (keys left ++ keys right) (fun t => (mass left t.key + mass right t.key) / 2)
      (unite left right) ∧
    Ranked ((keys left).filter (· ∈ keys right)) (fun t => mass left t.key * mass right t.key)
      (intersect left right) ∧
    (∀ p : Concrete ℚ → Bool, (∀ s t, s.same t = true → p s = p t) →
      Ranked (keys (left.filter fun m => p m.1))
        (fun t => if p t = true then mass left t.key else 0) (restrict left p)) ∧
    normalize (normalize left) = normalize left ∧
    SameButTies (unite left right) (unite right left) ∧
      SameButTies (intersect left right) (intersect right left) :=
  ⟨ranked_normalize left, ranked_unite left right, ranked_intersect left right,
    fun _ hp => ranked_restrict hp left,
    normalize_normalize left, unite_comm left right, intersect_comm left right⟩

/-- A number, a string, a boolean and a number again under the condition of being a number or a
boolean: both weigh the same, and the number came first. -/
theorem set_operations_restrict :
    let left : Members ℚ :=
      [(.primitive .number, 1 / 4), (.primitive .string, 1), (.primitive .boolean, 1 / 2),
        (.primitive .number, 1 / 4)]
    let p : Concrete ℚ → Bool := fun t => t.key != (Concrete.primitive .string : Concrete ℚ).key
    (∀ s t : Concrete ℚ, s.same t = true → p s = p t) ∧
      (restrict left p).map (fun m => (m.1.name, m.2)) =
        [(("Число" : Text), 1 / 2), (("Булево" : Text), 1 / 2)] ∧
      Ranked (keys (left.filter fun m => p m.1))
        (fun t => if p t = true then mass left t.key else 0)
        (restrict left p) := by
  intro left p
  have hp : ∀ s t : Concrete ℚ, s.same t = true → p s = p t := by
    intro s t h
    have hkey : s.key = t.key := eq_of_beq h
    show (s.key != _) = (t.key != _)
    rw [hkey]
  exact ⟨hp, by decide +kernel, (set_operations left left).2.2.2.1 p hp⟩

end Members

end Gradual
