import Mathlib.Data.List.Dedup
import Mathlib.Data.List.Sort
import Gradual.Proofs.Types.Distribution

/-!
# The order of joined resolutions

Branches are joined in the order in which they are written. This order decides which of two equal
types is kept and how members of one weight are listed, and nothing else, as long as no member has
to be cut: the union is as sure as before, it is of the same kind, and it gives every type the same
weight.

Two lists of members are compared by their profiles, the keys with their weights. Permuted members
have permuted profiles when they are merged, and whatever is done afterwards depends on the profile
alone.

Main statement: `union_perm`.
-/

namespace Gradual

variable {ω : Type}

namespace Members

/-! ## Weights by profile -/

/-- The keys of a profile. -/
theorem map_fst_profile (ms : Members ω) : (profile ms).map Prod.fst = keys ms := by
  unfold profile keys types
  rw [List.map_map, List.map_map]
  rfl

/-- Distinct members have distinct entries in the profile. -/
theorem nodup_profile {ms : Members ω} (h : Distinct ms) : (profile ms).Nodup := by
  refine List.Nodup.of_map Prod.fst ?_
  rw [map_fst_profile]
  exact h

/-- The weights of a profile. -/
theorem map_snd_profile (ms : Members ω) : (profile ms).map Prod.snd = ms.map Prod.snd := by
  unfold profile
  rw [List.map_map]
  rfl

/-- The weight under a key can be read off the profile. -/
theorem mass_eq_profile (ms : Members ℚ) (k : Text) :
    mass ms k = (((profile ms).filter fun e => e.1 = k).map Prod.snd).sum := by
  unfold mass profile
  rw [List.filter_map, List.map_map]
  rfl

/-- A key that is not there has no weight. -/
theorem mass_of_not_mem {ms : Members ℚ} {k : Text} (h : k ∉ keys ms) : mass ms k = 0 := by
  have hnil : ms.filter (fun m => m.1.key = k) = [] := by
    refine List.filter_eq_nil_iff.2 ?_
    intro m hm hk
    rw [← of_decide_eq_true hk] at h
    exact h (List.mem_map_of_mem (mem_types hm))
  rw [mass, hnil]
  rfl

/-- Among different types, the weight of one is the mass of its key. -/
theorem weightOf_eq_mass {ms : Members ℚ} (h : Distinct ms) (t : Concrete ℚ) :
    weightOf ms t = mass ms t.key := by
  induction ms with
  | nil => exact Weight.ofNat_rat 0
  | cons m ms ih =>
    obtain ⟨hm, hms⟩ := List.nodup_cons.1 h
    rw [mass_cons]
    unfold weightOf
    by_cases hsame : m.1.key = t.key
    · rw [List.find?_cons_of_pos (by simpa [Concrete.same] using hsame), if_pos hsame,
        mass_of_not_mem, add_zero]
      · rfl
      · rw [← hsame]
        exact hm
    · rw [List.find?_cons_of_neg (by simpa [Concrete.same] using hsame), if_neg hsame, zero_add]
      exact ih hms

/-! ## Permuted profiles -/

/-- Permuted members have permuted normal forms. -/
theorem profile_normalize_perm {ms ms' : Members ℚ} (h : ms.Perm ms') :
    (profile (normalize ms)).Perm (profile (normalize ms')) := by
  refine (List.perm_ext_iff_of_nodup (nodup_profile (distinct_normalize ms))
    (nodup_profile (distinct_normalize ms'))).2 ?_
  -- Both list the same keys, each with its mass, which is a sum and does not depend on the order.
  rintro ⟨k, w⟩
  have hkeys : (keys ms).Perm (keys ms') := (h.map Prod.fst).map Concrete.key
  rw [mem_profile_normalize, mem_profile_normalize, hkeys.mem_iff, mass_perm h]

section

variable {ms ms' : Members ℚ} (h : (profile ms).Perm (profile ms'))

include h

/-- Members with one profile have the same weights, in some order. -/
theorem weights_perm_of_profile : (ms.map Prod.snd).Perm (ms'.map Prod.snd) := by
  rw [← map_snd_profile, ← map_snd_profile]
  exact h.map Prod.snd

/-- They are equally many. -/
theorem length_of_profile : ms.length = ms'.length := by
  have hlength := h.length_eq
  unfold profile at hlength
  rwa [List.length_map, List.length_map] at hlength

/-- They have the same total. -/
theorem total_of_profile : total ms = total ms' := by
  rw [total_rat, total_rat, (weights_perm_of_profile h).sum_eq]

/-- They give each type the same weight. -/
theorem weightOf_of_profile (hdistinct : Distinct ms) (hdistinct' : Distinct ms') (t : Concrete ℚ) :
    weightOf ms t = weightOf ms' t := by
  rw [weightOf_eq_mass hdistinct, weightOf_eq_mass hdistinct', mass_eq_profile, mass_eq_profile]
  exact ((h.filter _).map Prod.snd).sum_eq

/-- They are uniform together. -/
theorem uniform_of_profile {p : Primitive} : Uniform ms p ↔ Uniform ms' p := by
  have hkeys := h.map Prod.fst
  rw [map_fst_profile, map_fst_profile] at hkeys
  rw [uniform_iff_keys, uniform_iff_keys]
  refine and_congr_right fun _ => forall_congr' fun k => ?_
  rw [hkeys.mem_iff]

/-- Their significant members have one profile. -/
theorem significant_perm_of_profile :
    (profile (significant ms)).Perm (profile (significant ms')) := by
  have hfilter : ∀ l : Members ℚ, profile (significant l) = (profile l).filter fun e =>
      (minWeight : ℚ) ≤ e.2 := by
    intro l
    unfold profile significant
    rw [List.filter_map]
    rfl
  rw [hfilter, hfilter]
  exact h.filter _

/-- Their rescaled members have one profile. -/
theorem rescale_perm_of_profile : (profile (rescale ms)).Perm (profile (rescale ms')) := by
  have hscaled : ∀ l : Members ℚ, profile (rescale l) =
      if (Weight.ofNat 0 : ℚ) < total l then (profile l).map fun e => (e.1, e.2 / total l)
      else profile l := by
    intro l
    unfold rescale
    dsimp only
    split
    · unfold profile
      rw [List.map_map, List.map_map]
      rfl
    · rfl
  rw [hscaled, hscaled, total_of_profile h]
  split
  · exact h.map _
  · exact h

/-- If nothing has to be cut, then members of one profile are simplified to members of one
profile. -/
theorem simplify_perm_of_profile (hfew : ms.length ≤ limit) :
    (profile (simplify ms)).Perm (profile (simplify ms')) := by
  have hlength := length_of_profile h
  by_cases hne : ms = []
  · rw [hne, List.length_nil] at hlength
    rw [hne, List.length_eq_zero_iff.1 hlength.symm]
  -- Whether members are of one primitive type is seen from their keys, so both are simplified in
  -- the same way.
  by_cases huniform : ∃ p, Uniform ms p
  · obtain ⟨p, hp⟩ := huniform
    have hne' : ms' ≠ [] := by
      rintro rfl
      exact hne (List.length_eq_zero_iff.1 hlength)
    rw [simplify_of_uniform hne hp, simplify_of_uniform hne' ((uniform_of_profile h).1 hp),
      total_of_profile h]
  · have hnot : ∀ p, ¬ Uniform ms p := not_exists.1 huniform
    have hnot' : ∀ p, ¬ Uniform ms' p := fun p hp => hnot p ((uniform_of_profile h).2 hp)
    have hkept : ∀ l : Members ℚ, l.length ≤ limit → (significant l).length ≤ limit :=
      fun l hl => Nat.le_trans List.filter_sublist.length_le hl
    rw [simplify_of_not_uniform hnot, simplify_of_not_uniform hnot', prune_of_le (hkept ms hfew),
      prune_of_le (hkept ms' (hlength ▸ hfew))]
    exact rescale_perm_of_profile (significant_perm_of_profile h)

/-- In order, members of one profile have the same weights at the same places. -/
theorem weights_eq_of_profile (hfalling : Falling ms) (hfalling' : Falling ms') :
    ms.map Prod.snd = ms'.map Prod.snd := by
  have hsorted : ∀ l : Members ℚ, Falling l → (l.map Prod.snd).Pairwise (· ≥ ·) :=
    fun l hl => List.Pairwise.map Prod.snd (fun _ _ hab => hab) hl
  exact (weights_perm_of_profile h).eq_of_pairwise' (hsorted ms hfalling) (hsorted ms' hfalling')

end

end Members

namespace Shape

/-- Whether two shapes are of one kind. -/
def sameKind : Shape ω → Shape ω → Bool
  | concrete _, concrete _ | union _, union _ | conditional .., conditional ..
  | contextual .., contextual ..
  | dynamic, dynamic => true
  | _, _ => false

/-- A shape is of its own kind. -/
theorem sameKind_self (s : Shape ω) : s.sameKind s = true := by cases s <;> rfl

end Shape

namespace Resolution

/-- The weight that a resolution gives to a type: all of it to its own type, to a member its
weight. -/
def weightOf [Weight ω] (r : Resolution ω) (t : Concrete ω) : ω :=
  match r.shape with
  | .concrete s => if s.same t then Weight.ofNat 1 else Weight.ofNat 0
  | .union members => Members.weightOf members t
  | .conditional .. | .contextual .. | .dynamic => Weight.ofNat 0

/-! ## Permuted resolutions -/

/-- The pool of resolutions does not depend on their order, up to its own. -/
theorem pooled_perm [Weight ω] {rs rs' : List (Resolution ω)} (h : rs.Perm rs') :
    (pooled rs).Perm (pooled rs') := by
  unfold pooled
  rw [h.length_eq]
  exact h.flatMap fun _ _ => .refl _

/-- The mean of confidences does not depend on the order. -/
theorem meanConfidence_perm {rs rs' : List (Resolution ℚ)} (h : rs.Perm rs') :
    meanConfidence rs = meanConfidence rs' := by
  rw [meanConfidence_rat, meanConfidence_rat, (h.map _).sum_eq, h.length_eq]

/-- There are no more members than types that are told apart. -/
theorem length_normalize_pooled_le [Weight ω] (rs : List (Resolution ω)) :
    (Members.normalize (pooled rs)).length ≤
      ((rs.flatMap contributed).map Concrete.key).dedup.length := by
  have hnodup : (Members.keys (Members.normalize (pooled rs))).Nodup :=
    Members.distinct_normalize (pooled rs)
  have hsubset : Members.keys (Members.normalize (pooled rs)) ⊆
      ((rs.flatMap contributed).map Concrete.key).dedup := by
    intro k hk
    rw [List.mem_dedup, ← types_pooled]
    exact (Members.mem_keys_normalize _ _).1 hk
  have hle := (List.subperm_of_subset hnodup hsubset).length_le
  unfold Members.keys Members.types at hle
  rwa [List.length_map, List.length_map] at hle

/-- A union is made of two or more members, the ones it shows. -/
theorem eq_of_shape_ofMembers [Weight ω] {confidence : ω} {ms left : Members ω}
    (h : (ofMembers confidence left).shape = .union ms) : ms = left ∧ 2 ≤ left.length := by
  match left, h with
  | _ :: _ :: rest, h =>
    cases h
    exact ⟨rfl, Nat.le_add_left 2 rest.length⟩

/-- The members of a union are in order. -/
theorem falling_of_shape_ofMembers {confidence : ℚ} {ms : Members ℚ} {rs : List (Resolution ℚ)}
    (h : (ofMembers confidence (Members.simplify (Members.normalize (pooled rs)))).shape =
      .union ms) :
    ms = Members.simplify (Members.normalize (pooled rs)) ∧ Members.Falling ms := by
  obtain ⟨rfl, htwo⟩ := eq_of_shape_ofMembers h
  exact ⟨rfl, (Members.isDistribution_simplify (Members.distinct_normalize (pooled rs))
    (Members.falling_normalize (pooled rs)) htwo).falling⟩

/-- Different types of one profile make resolutions that are equally sure, of one kind, and give the
same weights. -/
theorem ofMembers_of_profile (confidence : ℚ) {ms ms' : Members ℚ}
    (h : (Members.profile ms).Perm (Members.profile ms')) (hdistinct : Members.Distinct ms)
    (hdistinct' : Members.Distinct ms') :
    (ofMembers confidence ms).certainty = (ofMembers confidence ms').certainty ∧
      (ofMembers confidence ms).shape.sameKind (ofMembers confidence ms').shape = true ∧
      ∀ t, (ofMembers confidence ms).weightOf t = (ofMembers confidence ms').weightOf t := by
  have hlength := Members.length_of_profile h
  match ms, ms', hlength with
  | [], [], _ => exact ⟨rfl, rfl, fun _ => rfl⟩
  | [m], [m'], _ =>
    refine ⟨rfl, rfl, fun t => ?_⟩
    have hkey : m.1.key = m'.1.key := congrArg Prod.fst (List.singleton_perm_singleton.1 h)
    show (if m.1.same t then _ else _) = if m'.1.same t then _ else _
    rw [Concrete.same, Concrete.same, hkey]
  | _ :: _ :: _, _ :: _ :: _, _ =>
    exact ⟨rfl, rfl, fun t => Members.weightOf_of_profile h hdistinct hdistinct' t⟩

/-- **The order of resolutions does not matter.** Let no more than five different types be
contributed. Then permuted resolutions have unions that are equally sure, of the same kind, and give
every type the same weight; and members at one place of both weigh the same, so that only members of
equal weight are listed in another order. -/
theorem union_perm {rs rs' : List (Resolution ℚ)} (hperm : rs.Perm rs')
    (hfew : ((rs.flatMap contributed).map Concrete.key).dedup.length ≤ 5) :
    (union rs).certainty = (union rs').certainty ∧
      (union rs).shape.sameKind (union rs').shape = true ∧
        (∀ t, (union rs).weightOf t = (union rs').weightOf t) ∧
      ∀ ms ms', (union rs).shape = .union ms → (union rs').shape = .union ms' →
        ms.map Prod.snd = ms'.map Prod.snd := by
  rcases Nat.lt_or_ge rs.length 2 with hone | htwo
  · -- There is only one order of fewer than two resolutions.
    have heq : rs = rs' := by
      match rs, hone with
      | [], _ => exact hperm.nil_eq
      | [r], _ => exact (List.perm_singleton.1 hperm.symm).symm
    subst heq
    refine ⟨rfl, Shape.sameKind_self _, fun _ => rfl, ?_⟩
    intro ms ms' hms hms'
    rw [hms] at hms'
    cases hms'
    rfl
  · have hlength : (Members.normalize (pooled rs)).length ≤ Members.limit :=
      Nat.le_trans (length_normalize_pooled_le rs) hfew
    have hprofile := Members.simplify_perm_of_profile
      (Members.profile_normalize_perm (pooled_perm hperm)) hlength
    have hdistinct := (Members.distinct_normalize (pooled rs)).simplify
    have hdistinct' := (Members.distinct_normalize (pooled rs')).simplify
    rw [union_eq_ofMembers htwo, union_eq_ofMembers (hperm.length_eq ▸ htwo),
      meanConfidence_perm hperm]
    obtain ⟨hcertainty, hkind, hweight⟩ :=
      ofMembers_of_profile (meanConfidence rs') hprofile hdistinct hdistinct'
    refine ⟨hcertainty, hkind, hweight, ?_⟩
    intro ms ms' hms hms'
    obtain ⟨rfl, hfalling⟩ := falling_of_shape_ofMembers hms
    obtain ⟨rfl, hfalling'⟩ := falling_of_shape_ofMembers hms'
    exact Members.weights_eq_of_profile hprofile hfalling hfalling'

/-- A boolean, a union and an unknown type in two orders. The number and the boolean weigh the same
and change places. -/
theorem union_perm_rotated :
    let choice : Resolution ℚ :=
      make (.inferred (9 / 10)) (.union [(.primitive .number, 1), (.primitive .string, 1 / 2)])
        .inferred []
    let rs := [.primitive .boolean, choice, .unknown]
    let rs' := [choice, .unknown, .primitive .boolean]
    rs.Perm rs' ∧ ((rs.flatMap contributed).map Concrete.key).dedup.length ≤ 5 ∧
      (union rs).contributed.map Concrete.name =
        [("Булево" : Text), ("Число" : Text), ("Строка" : Text)] ∧
      (union rs').contributed.map Concrete.name =
        [("Число" : Text), ("Булево" : Text), ("Строка" : Text)] ∧
      (union rs).weightOf (.primitive .boolean) = 2 / 5 ∧
      ∀ t, (union rs).weightOf t = (union rs').weightOf t := by
  intro choice rs rs'
  have hperm : rs.Perm rs' := (List.perm_append_singleton _ [choice, .unknown]).symm
  have hfew : ((rs.flatMap contributed).map Concrete.key).dedup.length ≤ 5 := by decide +kernel
  exact ⟨hperm, hfew, by decide +kernel, by decide +kernel, by decide +kernel,
    (union_perm hperm hfew).2.2.1⟩

end Resolution

end Gradual
