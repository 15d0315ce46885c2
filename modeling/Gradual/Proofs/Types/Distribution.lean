import Gradual.Proofs.Types.Exact
import Gradual.Proofs.Types.Sameness

/-!
# Unions as distributions

A union of resolutions gives each of them an equal share. What they contribute is merged, ordered,
freed of light members and cut, and in between scaled twice. Over fractions, whatever is left is a
distribution over different contributed types.

Light members are dropped before anything is scaled, and the share is one of all resolutions, also
of those that contribute nothing. So it can happen that every member is light, and then nothing is
left. As long as one member is heavy enough, the heaviest stays. This is so for all weights, also
for those that are rounded: what counts is the weight that was computed.

Main statements: `union_isDistribution` and `union_heaviest`.
-/

namespace Gradual

variable {ω : Type}

namespace Members

/-! ## Pruning -/

/-- Members of different types with positive weights, the heaviest first, that weigh one
together. -/
structure IsDistribution (ms : Members ℚ) : Prop where
  distinct : Distinct ms
  positive : ∀ m ∈ ms, 0 < m.2
  falling : Falling ms
  total_eq : total ms = 1

/-- The least weight that is kept is a twentieth. -/
theorem minWeight_rat : (minWeight : ℚ) = 1 / 20 := Weight.ofRatio_rat 1 20

/-- Scaled to a total of one, different types in order are a distribution. -/
theorem isDistribution_rescale {ms : Members ℚ} (hne : ms ≠ []) (hdistinct : Distinct ms)
    (hpos : ∀ m ∈ ms, 0 < m.2) (hfalling : Falling ms) : IsDistribution (rescale ms) := by
  have htotal : 0 < total ms := total_pos hne hpos
  constructor
  · unfold Distinct
    rw [types_rescale]
    exact hdistinct
  · intro m hm
    rw [rescale_of_pos htotal] at hm
    obtain ⟨m', hm', rfl⟩ := List.mem_map.1 hm
    exact div_pos (hpos m' hm') htotal
  · rw [rescale_of_pos htotal]
    refine List.Pairwise.map _ ?_ hfalling
    intro a b hab
    exact div_le_div_of_nonneg_right hab (le_of_lt htotal)
  · exact total_rescale htotal

section

variable [Weight ω]

/-- The members that are heavy enough to be kept. -/
def significant (ms : Members ω) : Members ω := ms.filter fun m => minWeight ≤ m.2

/-- Where few members are significant, pruning rescales those. -/
theorem prune_of_le {ms : Members ω} (h : (significant ms).length ≤ limit) :
    prune ms = rescale (significant ms) := by
  unfold prune
  dsimp only
  rw [if_neg]
  · rfl
  · rw [length_rescale]
    exact Nat.not_lt.2 h

/-- Where many are, the heaviest of them are rescaled once more. -/
theorem prune_of_lt {ms : Members ω} (h : limit < (significant ms).length) :
    prune ms = rescale ((rescale (significant ms)).take limit) := by
  unfold prune
  dsimp only
  rw [if_pos]
  · rfl
  · rw [length_rescale]
    exact h

/-- Pruning leaves the first of the heavy members. -/
theorem types_prune (ms : Members ω) : types (prune ms) = (types (significant ms)).take limit := by
  rcases Nat.lt_or_ge limit (significant ms).length with h | h
  · have htake : types ((rescale (significant ms)).take limit) =
        (types (rescale (significant ms))).take limit := List.map_take
    rw [prune_of_lt h, types_rescale, htake, types_rescale]
  · have hlength : (types (significant ms)).length ≤ limit := by
      rw [types, List.length_map]
      exact h
    rw [prune_of_le h, types_rescale, List.take_of_length_le hlength]

/-- Pruning leaves nothing exactly where no member is significant. -/
theorem prune_eq_nil_iff {ms : Members ω} : prune ms = [] ↔ significant ms = [] := by
  have hlength : (prune ms).length = min limit (significant ms).length := by
    rcases Nat.lt_or_ge limit (significant ms).length with h | h
    · rw [prune_of_lt h, length_rescale, List.length_take, length_rescale]
    · rw [prune_of_le h, length_rescale, Nat.min_eq_right h]
  have hlimit : 0 < limit := by decide
  rw [← List.length_eq_zero_iff, ← List.length_eq_zero_iff, hlength]
  omega

end

/-- Significant members have positive weights. -/
theorem pos_of_mem_significant {ms : Members ℚ} {m : Concrete ℚ × ℚ} (h : m ∈ significant ms) :
    0 < m.2 := by
  have hle : (minWeight : ℚ) ≤ m.2 := of_decide_eq_true (List.mem_filter.1 h).2
  rw [minWeight_rat] at hle
  linarith

/-- What is left after pruning is a distribution. -/
theorem isDistribution_prune {ms : Members ℚ} (hdistinct : Distinct ms) (hfalling : Falling ms)
    (hne : prune ms ≠ []) :
    IsDistribution (prune ms) := by
  have hsignificant : significant ms ≠ [] := fun h => hne (prune_eq_nil_iff.2 h)
  have hscaled : IsDistribution (rescale (significant ms)) :=
    isDistribution_rescale hsignificant (hdistinct.of_sublist (List.filter_sublist.map Prod.fst))
      (fun _ => pos_of_mem_significant) (hfalling.sublist List.filter_sublist)
  rcases Nat.lt_or_ge limit (significant ms).length with h | h
  · -- Cutting leaves some members, and they are scaled once more.
    have hcut : (rescale (significant ms)).take limit ≠ [] := by
      intro hnil
      have hlength := congrArg List.length hnil
      rw [List.length_take, length_rescale, Nat.min_eq_left (Nat.le_of_lt h)] at hlength
      exact absurd hlength (by decide)
    have hsub := List.take_sublist limit (rescale (significant ms))
    rw [prune_of_lt h]
    exact isDistribution_rescale hcut (hscaled.distinct.of_sublist (hsub.map Prod.fst))
      (fun m hm => hscaled.positive m (hsub.subset hm)) (hscaled.falling.sublist hsub)
  · rw [prune_of_le h]
    exact hscaled

/-! ## Simplifying -/

/-- The test for a primitive type tells whether a member has that type. -/
theorem isPrimitive_iff {p : Primitive} {m : Concrete ω × ω} :
    isPrimitive p m = true ↔ m.1 = .primitive p := by
  unfold isPrimitive
  split
  · rename_i q hq
    rw [hq, Concrete.primitive.injEq]
    exact beq_iff_eq
  · rename_i hother
    exact ⟨fun h => absurd h (by decide), fun h => absurd h (hother p)⟩

/-- Members of one primitive type only, which is number or string. -/
def Uniform (ms : Members ω) (p : Primitive) : Prop :=
  (p = .number ∨ p = .string) ∧ ∀ m ∈ ms, m.1 = .primitive p

theorem all_isPrimitive_iff {ms : Members ω} {p : Primitive} :
    ms.all (isPrimitive p) = true ↔ ∀ m ∈ ms, m.1 = .primitive p := by
  rw [List.all_eq_true]
  exact forall₂_congr fun m _ => isPrimitive_iff

/-- Whether members are of one primitive type can be seen from their keys. -/
theorem uniform_iff_keys {ms : Members ω} {p : Primitive} :
    Uniform ms p ↔ (p = .number ∨ p = .string) ∧
      ∀ k ∈ keys ms, k = (Concrete.primitive p : Concrete ω).key := by
  refine and_congr_right fun _ => ?_
  constructor
  · intro h k hk
    obtain ⟨t, ht, rfl⟩ := List.mem_map.1 hk
    obtain ⟨m, hm, rfl⟩ := List.mem_map.1 ht
    rw [h m hm]
  · intro h m hm
    exact Concrete.key_eq_primitive_iff.1 (h _ (List.mem_map_of_mem (mem_types hm)))

section

variable [Weight ω] {ms : Members ω}

/-- Normalizing does not change whether members are uniform. -/
theorem uniform_normalize_iff {p : Primitive} : Uniform (normalize ms) p ↔ Uniform ms p := by
  rw [uniform_iff_keys, uniform_iff_keys]
  refine and_congr_right fun _ => forall_congr' fun k => ?_
  rw [mem_keys_normalize]

/-- Uniform members are simplified to one, with all their weight. -/
theorem simplify_of_uniform (hne : ms ≠ []) {p : Primitive} (h : Uniform ms p) :
    simplify ms = [(.primitive p, total ms)] := by
  have hall : ms.all (isPrimitive p) = true := all_isPrimitive_iff.2 h.2
  unfold simplify
  rw [if_neg fun hempty => hne (List.isEmpty_iff.1 hempty)]
  rcases h.1 with rfl | rfl
  · rw [if_pos hall]
  · -- Strings are no numbers.
    have hnumber : ¬ ms.all (isPrimitive .number) = true := by
      intro hnumber
      obtain ⟨m, hm⟩ := List.exists_mem_of_ne_nil ms hne
      have heq := (h.2 m hm).symm.trans (all_isPrimitive_iff.1 hnumber m hm)
      cases heq
    rw [if_neg hnumber, if_pos hall]

/-- Members that are not uniform are pruned. -/
theorem simplify_of_not_uniform (h : ∀ p, ¬ Uniform ms p) : simplify ms = prune ms := by
  have hall : ∀ p : Primitive, p = .number ∨ p = .string → ¬ ms.all (isPrimitive p) = true :=
    fun p hp hall => h p ⟨hp, all_isPrimitive_iff.1 hall⟩
  have hne : ms ≠ [] := by
    rintro rfl
    exact h .number ⟨.inl rfl, fun m hm => absurd hm List.not_mem_nil⟩
  unfold simplify
  rw [if_neg fun hempty => hne (List.isEmpty_iff.1 hempty), if_neg (hall .number (.inl rfl)),
    if_neg (hall .string (.inr rfl))]

/-- Simplifying leaves nothing exactly where members are not uniform and none is significant. -/
theorem simplify_eq_nil_iff (hne : ms ≠ []) :
    simplify ms = [] ↔ (∀ p, ¬ Uniform ms p) ∧ significant ms = [] := by
  by_cases h : ∃ p, Uniform ms p
  · obtain ⟨p, hp⟩ := h
    rw [simplify_of_uniform hne hp]
    exact ⟨fun hnil => absurd hnil (List.cons_ne_nil _ _), fun hnot => absurd hp (hnot.1 p)⟩
  · have hnot : ∀ p, ¬ Uniform ms p := not_exists.1 h
    rw [simplify_of_not_uniform hnot, prune_eq_nil_iff]
    exact ⟨fun hnil => ⟨hnot, hnil⟩, And.right⟩

end

/-- Two or more members that are left after simplifying are a distribution. -/
theorem isDistribution_simplify {ms : Members ℚ} (hdistinct : Distinct ms) (hfalling : Falling ms)
    (htwo : 2 ≤ (simplify ms).length) : IsDistribution (simplify ms) := by
  rcases simplify_cases ms with hs | ⟨p, hs, -⟩ | hs
  · rw [hs] at htwo
    exact absurd htwo (by decide)
  · rw [hs] at htwo
    exact absurd htwo (by simp)
  · rw [hs] at htwo ⊢
    refine isDistribution_prune hdistinct hfalling ?_
    intro hnil
    rw [hnil] at htwo
    exact absurd htwo (by decide)

/-! ## The heaviest member -/

section

variable [Weight ω]

/-- No member is significant exactly where all weigh less than the least weight. -/
theorem significant_eq_nil_iff {ms : Members ω} :
    significant ms = [] ↔ ¬ ∃ m ∈ ms, minWeight ≤ m.2 := by
  unfold significant
  rw [List.filter_eq_nil_iff]
  simp

variable [Weight.Ordered ω]

/-- A member that no heavy one exceeds is exceeded by none, if it is heavy itself. -/
theorem heaviest_of_significant {ms : Members ω} {m : Concrete ω × ω} (hm : m ∈ significant ms)
    (h : ∀ m' ∈ significant ms, ¬ m.2 < m'.2) : ∀ m' ∈ ms, ¬ m.2 < m'.2 := by
  intro m' hm' hlt
  have hheavy : minWeight ≤ m.2 := of_decide_eq_true (List.mem_filter.1 hm).2
  have hheavy' : minWeight ≤ m'.2 := Weight.Ordered.le_of_le_of_lt _ _ _ hheavy hlt
  exact h m' (List.mem_filter.2 ⟨hm', decide_eq_true hheavy'⟩) hlt

/-- The heaviest member is left after pruning if the members are in order, or if there is room for
all that are heavy. -/
theorem exists_heaviest_prune {ms : Members ω} (hne : prune ms ≠ [])
    (h : Descending ms ∨ (significant ms).length ≤ limit) :
    ∃ m ∈ ms, m.1 ∈ types (prune ms) ∧ ∀ m' ∈ ms, ¬ m.2 < m'.2 := by
  have hsignificant : significant ms ≠ [] := fun h => hne (prune_eq_nil_iff.2 h)
  have hsub : significant ms ⊆ ms := List.filter_subset_self _
  rw [types_prune]
  rcases h with hdescending | hlength
  · -- In order, the first of the heavy members is the heaviest.
    have hheavy : Descending (significant ms) := List.Pairwise.filter _ hdescending
    cases hcons : significant ms with
    | nil => exact absurd hcons hsignificant
    | cons m rest =>
      have hm : m ∈ significant ms := by
        rw [hcons]
        exact List.mem_cons_self
      refine ⟨m, hsub hm, List.mem_cons_self, heaviest_of_significant hm ?_⟩
      rw [hcons] at hheavy ⊢
      exact List.forall_mem_cons.2 ⟨Weight.Ordered.lt_irrefl _, (List.pairwise_cons.1 hheavy).1⟩
  · obtain ⟨m, hm, hheaviest⟩ := exists_heaviest hsignificant
    refine ⟨m, hsub hm, ?_, heaviest_of_significant hm hheaviest⟩
    rw [List.take_of_length_le (by rwa [types, List.length_map])]
    exact mem_types hm

/-- The heaviest member is left after simplifying, on the same condition. -/
theorem exists_heaviest_simplify {ms : Members ω} (hne : simplify ms ≠ [])
    (h : Descending ms ∨ (significant ms).length ≤ limit) :
    ∃ m ∈ ms, m.1 ∈ types (simplify ms) ∧ ∀ m' ∈ ms, ¬ m.2 < m'.2 := by
  by_cases huniform : ∃ p, Uniform ms p
  · obtain ⟨p, hp⟩ := huniform
    have hms : ms ≠ [] := by
      rintro rfl
      exact hne rfl
    obtain ⟨m, hm, hheaviest⟩ := exists_heaviest hms
    refine ⟨m, hm, ?_, hheaviest⟩
    rw [simplify_of_uniform hms hp, hp.2 m hm]
    exact List.mem_cons_self
  · rw [simplify_of_not_uniform (not_exists.1 huniform)] at hne ⊢
    exact exists_heaviest_prune hne h

end

end Members

namespace Resolution

/-! ## What resolutions contribute -/

/-- The types that a resolution contributes to a union: its own, or those of its members. -/
def contributed (r : Resolution ω) : List (Concrete ω) :=
  match r.shape with
  | .concrete t => [t]
  | .union members => Members.types members
  | .conditional .. | .contextual .. | .dynamic => []

section

variable [Weight ω]

/-- What resolutions bring into their union, each at an equal share. -/
def pooled (rs : List (Resolution ω)) : Members ω :=
  rs.flatMap (contribution (Weight.ofNat 1 / Weight.ofNat rs.length))

/-- The types of a contribution, whatever the share. -/
theorem types_contribution_eq (share : ω) (r : Resolution ω) :
    Members.types (contribution share r) = r.contributed := by
  unfold contribution contributed
  cases r.shape with
  | union members =>
    unfold Members.types
    dsimp only
    rw [List.map_map]
    rfl
  | _ => rfl

/-- The pool holds the types of all contributions, in their order. -/
theorem types_pooled (rs : List (Resolution ω)) :
    Members.types (pooled rs) = rs.flatMap contributed := by
  unfold pooled Members.types
  rw [List.map_flatMap]
  exact List.flatMap_congr fun r _ => types_contribution_eq _ r

/-- The pool is not empty where some resolution contributes a type. -/
theorem pooled_ne_nil {rs : List (Resolution ω)} (h : ∃ r ∈ rs, r.contributed ≠ []) :
    pooled rs ≠ [] := by
  obtain ⟨r, hr, hcontributed⟩ := h
  obtain ⟨t, ht⟩ := List.exists_mem_of_ne_nil _ hcontributed
  have hmem : t ∈ Members.types (pooled rs) := by
    rw [types_pooled]
    exact List.mem_flatMap.2 ⟨r, hr, ht⟩
  intro hnil
  rw [hnil] at hmem
  cases hmem

/-- A union of two or more is made of the simplified pool, with the mean of their confidences. -/
theorem union_eq_ofMembers {rs : List (Resolution ω)} (h : 2 ≤ rs.length) :
    union rs = ofMembers (meanConfidence rs) (Members.simplify (Members.normalize (pooled rs))) :=
  union_of_two_le h

/-- What a resolution made of members contributes again are their types. -/
theorem contributed_ofMembers (confidence : ω) (ms : Members ω) :
    (ofMembers confidence ms).contributed = Members.types ms := by
  match ms with
  | [] => rfl
  | [_] => rfl
  | _ :: _ :: _ => rfl

/-- The empty type is what no members make. -/
theorem ofMembers_eq_never_iff {confidence : ω} {ms : Members ω} :
    ofMembers confidence ms = never ↔ ms = [] := by
  constructor
  · intro h
    have htypes := congrArg contributed h
    rw [contributed_ofMembers] at htypes
    exact List.map_eq_nil_iff.1 htypes
  · rintro rfl
    rfl

end

/-! ## The mean of confidences -/

/-- The exact mean of confidences. -/
theorem meanConfidence_rat (rs : List (Resolution ℚ)) :
    meanConfidence rs = (rs.map fun r => r.certainty.confidence).sum / rs.length := by
  unfold meanConfidence
  rw [Weight.sum_rat, Weight.ofNat_rat]

/-- The mean of confidences between zero and one lies between them too. -/
theorem meanConfidence_bounds {rs : List (Resolution ℚ)}
    (h : ∀ r ∈ rs, r.certainty.confidence ∈ Set.Icc 0 1) :
    meanConfidence rs ∈ Set.Icc 0 1 := by
  have hbounds : ∀ c ∈ rs.map fun r => r.certainty.confidence, 0 ≤ c ∧ c ≤ 1 := by
    intro c hc
    obtain ⟨r, hr, rfl⟩ := List.mem_map.1 hc
    exact h r hr
  have hnonneg := List.sum_nonneg fun c hc => (hbounds c hc).1
  have hle := List.sum_le_card_nsmul _ 1 fun c hc => (hbounds c hc).2
  rw [List.length_map, nsmul_eq_mul, mul_one] at hle
  rw [meanConfidence_rat]
  exact ⟨div_nonneg hnonneg (Nat.cast_nonneg _), div_le_one_of_le₀ hle (Nat.cast_nonneg _)⟩

/-- A confidence between zero and one is taken as it is. -/
theorem ofConfidence_rat {c : ℚ} (h : c ∈ Set.Icc 0 1) :
    Certainty.ofConfidence c = .inferred c := by
  rw [Certainty.ofConfidence, Weight.clamp_rat h.1 h.2]

/-- A union is less sure than its resolutions if they are nearly sure. -/
theorem ofConfidence_atMost {c : ℚ} (h : c ∈ Set.Icc 0 1) :
    Certainty.ofConfidence (Weight.atMost maxUnionConfidence c) = .inferred (min (9 / 10) c) := by
  have hmax : (maxUnionConfidence : ℚ) = 9 / 10 := Weight.ofRatio_rat 9 10
  rw [hmax, Weight.atMost_rat]
  exact ofConfidence_rat ⟨le_min (by norm_num) h.1, le_trans (min_le_right _ _) h.2⟩

/-! ## Unions -/

/-- **A union is a distribution.** Whatever the weights in them are, the union of two or more
resolutions is of one of three kinds. It lists two to five different types that were contributed,
with positive weights that fall and make up one, and is as sure as its resolutions are on average,
but by nine tenths at most. Or it is a single type that was contributed, as sure as that average. Or
nothing is left. -/
theorem union_isDistribution (rs : List (Resolution ℚ)) (htwo : 2 ≤ rs.length)
    (hconfidence : ∀ r ∈ rs, r.certainty.confidence ∈ Set.Icc 0 1) :
    (∃ ms, (union rs).shape = .union ms ∧ Members.IsDistribution ms ∧ 2 ≤ ms.length ∧
      ms.length ≤ 5 ∧
        (∀ t ∈ Members.types ms, ∃ r ∈ rs, t ∈ r.contributed) ∧
        (union rs).certainty =
          .inferred (min (9 / 10) ((rs.map fun r => r.certainty.confidence).sum / rs.length))) ∨
      (∃ t, (union rs).shape = .concrete t ∧ (∃ r ∈ rs, t ∈ r.contributed) ∧
        (union rs).certainty = .inferred
          ((rs.map fun r => r.certainty.confidence).sum / rs.length)) ∨
      union rs = never := by
  have hbounds := meanConfidence_bounds hconfidence
  have hsubset : ∀ t ∈ Members.types (Members.simplify (Members.normalize (pooled rs))),
      ∃ r ∈ rs, t ∈ r.contributed := by
    intro t ht
    have hpooled := Members.types_normalize_subset _ (Members.types_simplify_subset _ ht)
    rw [types_pooled] at hpooled
    exact List.mem_flatMap.1 hpooled
  have hdistribution := Members.isDistribution_simplify (Members.distinct_normalize (pooled rs))
    (Members.falling_normalize (pooled rs))
  have hlimit := Members.length_simplify_le (Members.normalize (pooled rs))
  rw [union_eq_ofMembers htwo, ← meanConfidence_rat]
  cases hleft : Members.simplify (Members.normalize (pooled rs)) with
  | nil => exact .inr (.inr rfl)
  | cons m rest =>
    rw [hleft] at hsubset hdistribution hlimit
    cases rest with
    | nil => exact .inr (.inl ⟨m.1, rfl, hsubset m.1 List.mem_cons_self, ofConfidence_rat hbounds⟩)
    | cons m' rest =>
      have hmany : 2 ≤ (m :: m' :: rest).length := Nat.le_add_left 2 rest.length
      exact .inl ⟨_, rfl, hdistribution hmany, hmany, hlimit, hsubset, ofConfidence_atMost hbounds⟩

/-- Nearly all of a union that is a number, and a boolean. The string in the union falls below the
least weight. -/
theorem union_isDistribution_mostly :
    let mostly : Resolution ℚ :=
      make (.inferred (9 / 10))
        (.union [(.primitive .number, 24 / 25), (.primitive .string, 1 / 25)]) .inferred []
    let rs := [mostly, .primitive .boolean]
    2 ≤ rs.length ∧ (∀ r ∈ rs, r.certainty.confidence ∈ Set.Icc 0 1) ∧
      (union rs).contributed.map Concrete.name = [("Булево" : Text), ("Число" : Text)] ∧
      ∃ ms, (union rs).shape = .union ms ∧ Members.IsDistribution ms := by
  intro mostly rs
  have htwo : 2 ≤ rs.length := by decide
  have hconfidence : ∀ r ∈ rs, r.certainty.confidence ∈ Set.Icc 0 1 :=
    List.forall_mem_cons.2 ⟨Set.mem_Icc.2 (by decide +kernel),
      List.forall_mem_singleton.2 (Set.mem_Icc.2 (by decide +kernel))⟩
  have hnames : (union rs).contributed.map Concrete.name =
    [("Булево" : Text), ("Число" : Text)] := by decide +kernel
  refine ⟨htwo, hconfidence, hnames, ?_⟩
  have hlength := congrArg List.length hnames
  rcases union_isDistribution rs htwo hconfidence with
    ⟨ms, hshape, hms, -⟩ | ⟨t, hshape, -⟩ | hnever
  · exact ⟨ms, hshape, hms⟩
  -- Two types are left, so it is neither a single type nor nothing.
  · unfold contributed at hlength
    rw [hshape] at hlength
    exact absurd hlength (by simp)
  · rw [hnever] at hlength
    exact absurd hlength (by decide)

/-! ## What is left of a union -/

section

variable [Weight ω]

/-- Something is left of a union of two or more if all types are numbers or all are strings, or if
one is heavy enough. -/
theorem union_ne_never_iff {rs : List (Resolution ω)} (htwo : 2 ≤ rs.length)
    (hne : pooled rs ≠ []) :
    union rs ≠ never ↔ (∃ p, Members.Uniform (pooled rs) p) ∨
      ∃ m ∈ Members.normalize (pooled rs), Members.minWeight ≤ m.2 := by
  rw [union_eq_ofMembers htwo, Ne, ofMembers_eq_never_iff,
    Members.simplify_eq_nil_iff (Members.normalize_ne_nil hne), Members.significant_eq_nil_iff,
    not_and_or, not_not, not_forall]
  refine or_congr_left (exists_congr fun p => ?_)
  rw [not_not, Members.uniform_normalize_iff]

/-- The heaviest member of what resolutions bring into their union is left of it. -/
theorem exists_heaviest_union [Weight.Ordered ω] {rs : List (Resolution ω)} (htwo : 2 ≤ rs.length)
    (hne : union rs ≠ never)
    (h : (∀ m ∈ Members.normalize (pooled rs), Weight.isNumber m.2 = true) ∨
      (Members.significant (Members.normalize (pooled rs))).length ≤ Members.limit) :
    ∃ m ∈ Members.normalize (pooled rs), m.1 ∈ (union rs).contributed ∧
      ∀ m' ∈ Members.normalize (pooled rs), ¬ m.2 < m'.2 := by
  rw [union_eq_ofMembers htwo] at hne ⊢
  rw [contributed_ofMembers]
  refine Members.exists_heaviest_simplify (fun h => hne (ofMembers_eq_never_iff.2 h)) ?_
  refine h.imp_left fun hnumber => Members.descending_sort ?_
  exact List.all_eq_true.2 fun m hm => hnumber m (Members.mem_normalize_iff.2 hm)

end

/-- **The heaviest type of a union.** Each type of a union weighs what was computed for it: the
weights of its members, every resolution counting for an equal share, are added from the first to
the last.

Suppose that some resolution contributes a type. Then the union says something if and only if there
is a single resolution, or all contributed types are numbers or all are strings, or some type weighs
a twentieth at least. And then a heaviest type is left, if there is a single resolution, or all
weights are numbers, or no more than five types weigh a twentieth at least. -/
theorem union_heaviest [Weight ω] [Weight.Ordered ω] (rs : List (Resolution ω))
    (hsome : ∃ r ∈ rs, r.contributed ≠ []) :
    (∀ k w, (k, w) ∈ Members.profile (Members.normalize (pooled rs)) ↔
        Members.added (pooled rs) k = some w) ∧
      (union rs ≠ never ↔ rs.length = 1 ∨ (∃ p, Members.Uniform (pooled rs) p) ∨
        ∃ m ∈ Members.normalize (pooled rs), Weight.ofRatio 1 20 ≤ m.2) ∧
      (union rs ≠ never →
        (rs.length = 1 ∨ (∀ m ∈ Members.normalize (pooled rs), Weight.isNumber m.2 = true) ∨
          (Members.significant (Members.normalize (pooled rs))).length ≤ 5) →
        ∃ m ∈ Members.normalize (pooled rs), m.1 ∈ (union rs).contributed ∧
          ∀ m' ∈ Members.normalize (pooled rs), ¬ m.2 < m'.2) := by
  have hpooled := pooled_ne_nil hsome
  have hweights : ∀ k w, (k, w) ∈ Members.profile (Members.normalize (pooled rs)) ↔
      Members.added (pooled rs) k = some w := fun k w => Members.mem_profile_normalize_iff
  rcases Nat.lt_or_ge rs.length 2 with hone | htwo
  · -- A single resolution is its own union, and it contributes all there is.
    obtain ⟨r, rfl⟩ : ∃ r, rs = [r] := by
      obtain ⟨r, hr, -⟩ := hsome
      have hpos := List.length_pos_of_mem hr
      exact List.length_eq_one_iff.1 (by omega)
    obtain ⟨m, hm, hheaviest⟩ := Members.exists_heaviest (Members.normalize_ne_nil hpooled)
    have hmem : m.1 ∈ (union [r]).contributed := by
      have htype := Members.types_normalize_subset _ (Members.mem_types hm)
      rwa [types_pooled, List.flatMap_singleton] at htype
    have hne : union [r] ≠ never := by
      intro hnever
      rw [hnever] at hmem
      cases hmem
    exact ⟨hweights, ⟨fun _ => .inl rfl, fun _ => hne⟩, fun _ _ => ⟨m, hm, hmem, hheaviest⟩⟩
  · have hmany : rs.length ≠ 1 := by omega
    refine ⟨hweights, ?_, fun hne h => exists_heaviest_union htwo hne (h.resolve_left hmany)⟩
    rw [union_ne_never_iff htwo hpooled]
    exact ⟨.inr, fun h => h.resolve_left hmany⟩

/-- One of twenty resolutions is known, and its type weighs just enough. -/
theorem union_heaviest_twentieth :
    let rs : List (Resolution Float) := .primitive .boolean :: List.replicate 19 .unknown
    (∃ r ∈ rs, r.contributed ≠ []) ∧ union rs ≠ never ∧
      ∃ m ∈ Members.normalize (pooled rs), m.1 ∈ (union rs).contributed ∧
        ∀ m' ∈ Members.normalize (pooled rs), ¬ m.2 < m'.2 := by
  intro rs
  have hsome : ∃ r ∈ rs, r.contributed ≠ [] := ⟨_, List.mem_cons_self, List.cons_ne_nil _ _⟩
  obtain ⟨-, hiff, hleft⟩ := union_heaviest rs hsome
  have hne : union rs ≠ never := hiff.2 (.inr (.inr (by decide +kernel)))
  exact ⟨hsome, hne, hleft hne (.inr (.inl (by decide +kernel)))⟩

/-- Twenty-one different types are all lost: each of them weighs less than a twentieth. -/
theorem not_union_ne_never :
    ¬ ∀ rs : List (Resolution Float),
      (∃ r ∈ rs, (∃ t, r.shape = .concrete t) ∨
        ∃ ms, r.shape = .union ms ∧ ∃ m ∈ ms, (0 : Float) < m.2) → union rs ≠ never := by
  intro h
  refine h ((List.range 21).map fun n => platform (Text.ofNat n))
    ⟨platform (Text.ofNat 0), ?_, .inl ⟨_, rfl⟩⟩ ?_
  · exact List.mem_map_of_mem (List.mem_range.2 (by decide))
  · rw [union_eq_ofMembers (by decide), ofMembers_eq_never_iff]
    exact List.isEmpty_iff.1 (by decide +kernel)

-- Unknown types count as well, and so does rounding: a known type in six of 120 resolutions is
-- lost, since six shares of one in 120 make a little less than a twentieth.
example : (union (List.replicate 6 (.primitive .boolean) ++
    List.replicate 114 (.unknown : Resolution Float))).contributed.length = 0 := by
  decide +kernel

end Resolution

end Gradual
