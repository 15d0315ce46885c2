import Gradual.Proofs.Ranking
import Gradual.Proofs.Table
import Gradual.Types.Union

/-!
# Members of a union

Merging leaves one member for each key, and whatever is done to the members afterwards only moves
them, changes their weights or drops some. So no two types of a simplified union are equal, all of
them were there before, and they are no more than the limit. None of this depends on the weights,
which need not even be numbers.

Main statements: `types_normalize_subset`, `distinct_normalize`, `types_simplify_subset`,
`Distinct.simplify` and `length_simplify_le`.
-/

namespace Gradual

variable {ω : Type}

namespace Members

/-- The types of the members. -/
def types (ms : Members ω) : List (Concrete ω) := ms.map Prod.fst

/-- No two members have equal types. -/
def Distinct (ms : Members ω) : Prop := ((types ms).map Concrete.key).Nodup

/-- The type of a member is among the types. -/
theorem mem_types {ms : Members ω} {m : Concrete ω × ω} (h : m ∈ ms) : m.1 ∈ types ms :=
  List.mem_map_of_mem h

/-- Moving members around keeps their types distinct. -/
theorem Distinct.of_perm {ms ms' : Members ω} (h : Distinct ms)
    (hperm : (types ms').Perm (types ms)) : Distinct ms' :=
  (hperm.map Concrete.key).nodup_iff.2 h

/-- Leaving members out keeps their types distinct. -/
theorem Distinct.of_sublist {ms ms' : Members ω} (h : Distinct ms)
    (hsub : (types ms').Sublist (types ms)) : Distinct ms' :=
  List.Nodup.sublist (hsub.map Concrete.key) h

/-- Members that are all of one primitive type have it among their types. -/
theorem mem_types_of_all_isPrimitive {ms : Members ω} {p : Primitive} (hne : ms ≠ [])
    (hall : ms.all (isPrimitive p) = true) : .primitive p ∈ types ms := by
  cases ms with
  | nil => exact absurd rfl hne
  | cons m ms =>
    have hm : isPrimitive p m = true := List.all_eq_true.1 hall m List.mem_cons_self
    unfold isPrimitive at hm
    split at hm
    · rename_i q hq
      rw [eq_of_beq hm] at hq
      rw [← hq]
      exact mem_types List.mem_cons_self
    · cases hm

/-! ## Merging -/

/-- Each collected member stands under the key of its type, and its type is one of those given. -/
def Collected (given : List (Concrete ω)) (merged : Table Text (Concrete ω × ω)) : Prop :=
  merged.All fun k m => m.1.key = k ∧ m.1 ∈ given

namespace Collected

variable {given : List (Concrete ω)} {merged : Table Text (Concrete ω × ω)}

/-- Values collected under their keys have distinct types. -/
theorem distinct_values (h : Collected given merged) : Distinct merged.values := by
  have hkeys : (types merged.values).map Concrete.key = merged.keys := by
    unfold types Table.values Table.keys
    rw [List.map_map, List.map_map]
    refine List.map_congr_left ?_
    intro e he
    exact (h e.1 e.2 (Table.get?_eq_some_iff.2 he)).1
  unfold Distinct
  rw [hkeys]
  exact merged.nodup_keys

/-- Collected values have only types that were given. -/
theorem types_values_subset (h : Collected given merged) : types merged.values ⊆ given := by
  intro t ht
  obtain ⟨m, hm, rfl⟩ := List.mem_map.1 ht
  obtain ⟨k, hk⟩ := Table.mem_values_iff.1 hm
  exact (h k m hk).2

end Collected

variable [Weight ω]

namespace Collected

variable {given : List (Concrete ω)} {merged : Table Text (Concrete ω × ω)}

/-- Collecting a member of a given type keeps the table collected. -/
theorem collect (h : Collected given merged) {m : Concrete ω × ω} (hm : m.1 ∈ given) :
    Collected given (collect merged m) := by
  unfold Members.collect
  cases hold : merged.get? m.1.key with
  | none => exact h.insert ⟨rfl, hm⟩
  -- The type that was there first stays, and it has the same key.
  | some old => exact h.insert (h m.1.key old hold)

theorem foldl (h : Collected given merged) {ms : Members ω} (hms : types ms ⊆ given) :
    Collected given (ms.foldl Members.collect merged) := by
  induction ms generalizing merged with
  | nil => exact h
  | cons m ms ih =>
    obtain ⟨hm, hrest⟩ := List.cons_subset.1 hms
    exact ih (h.collect hm) hrest

end Collected

/-- What is collected from nothing holds the types of the members. -/
theorem collected (ms : Members ω) : Collected (types ms) (ms.foldl collect .empty) :=
  Collected.foldl .empty (List.Subset.refl _)

/-- Adds the weight of a member to the sum before it, if there is one. -/
def addTo (sum : Option ω) (m : Concrete ω × ω) : Option ω := some (sum.elim m.2 (· + m.2))

/-- The weights of all members with a key, added from the first to the last. -/
def added (ms : Members ω) (k : Text) : Option ω :=
  (ms.filter fun m => m.1.key = k).foldl addTo none

/-- What one member adds to the weight that is collected under a key. -/
theorem weight_collect (merged : Table Text (Concrete ω × ω)) (m : Concrete ω × ω) (k : Text) :
    ((collect merged m).get? k).map Prod.snd =
      if m.1.key = k then addTo ((merged.get? k).map Prod.snd) m
      else (merged.get? k).map Prod.snd := by
  unfold Members.collect
  rw [Table.get?_insert]
  by_cases h : k = m.1.key
  · rw [if_pos h, if_pos h.symm, h]
    cases merged.get? m.1.key <;> rfl
  · rw [if_neg h, if_neg fun h' => h h'.symm]

/-- Under a key stands the sum of all weights with it, from the first to the last. -/
theorem weight_foldl_collect (ms : Members ω) (merged : Table Text (Concrete ω × ω)) (k : Text) :
    ((ms.foldl collect merged).get? k).map Prod.snd =
      (ms.filter fun m => m.1.key = k).foldl addTo ((merged.get? k).map Prod.snd) := by
  induction ms generalizing merged with
  | nil => rfl
  | cons m ms ih =>
    rw [List.foldl_cons, ih, weight_collect]
    by_cases h : m.1.key = k
    · rw [if_pos h, List.filter_cons_of_pos (by simpa using h), List.foldl_cons]
    · rw [if_neg h, List.filter_cons_of_neg (by simpa using h)]

/-! ## Ordering -/

/-- Placing a member adds it and loses none. -/
theorem place_perm (m : Concrete ω × ω) (ms : Members ω) : (place m ms).Perm (m :: ms) := by
  induction ms with
  | nil => exact .refl _
  | cons x ms ih =>
    unfold place
    split
    · exact .refl _
    · exact (ih.cons x).trans (.swap m x ms)

/-- Sorting moves members around. -/
theorem sort_perm (ms : Members ω) : (sort ms).Perm ms := by
  unfold sort
  split
  · exact Ranking.foldl_insert_perm place_perm ms []
  · exact Ranking.sort_perm _ ms

/-- Normalizing brings no new types. -/
theorem types_normalize_subset (ms : Members ω) : types (normalize ms) ⊆ types ms := by
  have hsort : (types (normalize ms)).Perm (types (merge ms)) := (sort_perm (merge ms)).map Prod.fst
  intro t ht
  exact (collected ms).types_values_subset (hsort.subset ht)

/-- Normalized members have distinct types. -/
theorem distinct_normalize (ms : Members ω) : Distinct (normalize ms) :=
  (collected ms).distinct_values.of_perm ((sort_perm (merge ms)).map Prod.fst)

/-! ## Simplifying -/

/-- Rescaling changes weights only. -/
theorem types_rescale (ms : Members ω) : types (rescale ms) = types ms := by
  unfold rescale
  dsimp only
  split
  · unfold types
    rw [List.map_map]
    rfl
  · rfl

/-- Rescaling keeps the number of members. -/
theorem length_rescale (ms : Members ω) : (rescale ms).length = ms.length := by
  have hlength := congrArg List.length (types_rescale ms)
  unfold types at hlength
  rw [List.length_map, List.length_map] at hlength
  exact hlength

/-- Pruning leaves members out and keeps the order of the others. -/
theorem types_prune_sublist (ms : Members ω) : (types (prune ms)).Sublist (types ms) := by
  have hkept : (types (rescale (ms.filter fun m => minWeight ≤ m.2))).Sublist (types ms) := by
    rw [types_rescale]
    exact List.filter_sublist.map Prod.fst
  unfold prune
  dsimp only
  split
  · rw [types_rescale]
    exact ((List.take_sublist limit _).map Prod.fst).trans hkept
  · exact hkept

/-- Pruning leaves no more members than the limit. -/
theorem length_prune_le (ms : Members ω) : (prune ms).length ≤ limit := by
  unfold prune
  dsimp only
  split
  · rw [length_rescale, List.length_take]
    exact Nat.min_le_left _ _
  · omega

/-- The three ways of simplifying: nothing to do, one primitive type, or pruning. -/
theorem simplify_cases (ms : Members ω) :
    simplify ms = [] ∨ (∃ p, simplify ms = [(.primitive p, total ms)] ∧ .primitive p ∈ types ms) ∨
      simplify ms = prune ms := by
  unfold simplify
  by_cases hempty : ms = []
  · rw [hempty]
    exact .inl rfl
  · rw [if_neg fun h => hempty (List.isEmpty_iff.1 h)]
    split
    · rename_i hall
      exact .inr (.inl ⟨.number, rfl, mem_types_of_all_isPrimitive hempty hall⟩)
    · split
      · rename_i hall
        exact .inr (.inl ⟨.string, rfl, mem_types_of_all_isPrimitive hempty hall⟩)
      · exact .inr (.inr rfl)

/-- Simplifying brings no new types. -/
theorem types_simplify_subset (ms : Members ω) : types (simplify ms) ⊆ types ms := by
  rcases simplify_cases ms with h | ⟨p, h, hp⟩ | h
  · rw [h]
    exact List.nil_subset _
  · rw [h]
    exact List.cons_subset.2 ⟨hp, List.nil_subset _⟩
  · rw [h]
    exact (types_prune_sublist ms).subset

/-- Simplifying keeps types distinct. -/
theorem Distinct.simplify {ms : Members ω} (h : Distinct ms) : Distinct (simplify ms) := by
  rcases simplify_cases ms with hs | ⟨p, hs, -⟩ | hs
  · rw [hs]
    exact List.nodup_nil
  · rw [hs]
    exact List.nodup_cons.2 ⟨List.not_mem_nil, List.nodup_nil⟩
  · rw [hs]
    exact h.of_sublist (types_prune_sublist ms)

/-- Simplifying leaves no more members than the limit. -/
theorem length_simplify_le (ms : Members ω) : (simplify ms).length ≤ limit := by
  rcases simplify_cases ms with h | ⟨p, h, -⟩ | h
  · rw [h]
    exact Nat.zero_le _
  · rw [h]
    show 1 ≤ limit
    decide
  · rw [h]
    exact length_prune_le ms

end Members

end Gradual
