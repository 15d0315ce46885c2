import Mathlib.Algebra.BigOperators.Ring.List
import Mathlib.Algebra.Order.BigOperators.Group.List
import Mathlib.Algebra.Order.Field.Rat
import Mathlib.Data.List.Induction
import Mathlib.Tactic.Linarith
import Gradual.Proofs.Types.Ordered

/-!
# Exact weights

The analysis runs on doubles, and rounding hides what it means to do with weights. Over fractions
nothing is rounded: merged members weigh what their equals weighed together, ordered members are in
order, and rescaled ones make up one.

The weight of all members of one key is their mass. Merging and ordering does not change it, and so
the members of a normal form are known, but for the order of those that weigh the same: there is one
for each key, and it weighs the mass of that key.

Main statements: `mem_profile_normalize`, `falling_normalize` and `total_rescale`.
-/

namespace Gradual

/-- Fractions are weights. -/
instance : Weight ℚ where
  ofRatio num den := mkRat num den
  decLt := inferInstance
  decLe := inferInstance
  fixed w := Decimal.fixed (w < 0) w.num.natAbs w.den

instance : Weight.Ordered ℚ where
  lt_irrefl := lt_irrefl
  lt_trans _ _ _ := lt_trans
  le_of_le_of_lt _ _ _ hab hbc := le_trans hab (le_of_lt hbc)

namespace Weight

/-- An exact ratio is a quotient. -/
theorem ofRatio_rat (num den : Nat) : (ofRatio num den : ℚ) = num / den := Rat.mkRat_eq_div num den

/-- An exact natural is that natural. -/
theorem ofNat_rat (n : Nat) : (ofNat n : ℚ) = n := by
  rw [ofNat, ofRatio_rat, Nat.cast_one, div_one]

/-- Exact weights add up in any order to the sum of the list. -/
theorem sum_rat (ws : List ℚ) : sum ws = ws.sum := by
  rw [sum, ofNat_rat, Nat.cast_zero, List.sum_eq_foldl]

/-- Every rational is a number. -/
theorem isNumber_rat (w : ℚ) : isNumber w = true := beq_self_eq_true w

/-- Cutting an exact weight at a bound takes the smaller of the two. -/
theorem atMost_rat (bound w : ℚ) : atMost bound w = min bound w := by
  unfold atMost
  split
  · rename_i h
    exact (min_eq_left (le_of_lt h)).symm
  · rename_i h
    exact (min_eq_right (not_lt.1 h)).symm

/-- A weight between zero and one is not clamped. -/
theorem clamp_rat {w : ℚ} (hzero : 0 ≤ w) (hone : w ≤ 1) : clamp w = w := by
  unfold clamp
  rw [ofNat_rat, ofNat_rat, Nat.cast_zero, Nat.cast_one]
  split
  · split
    · rfl
    · rename_i h
      exact le_antisymm (not_lt.1 h) hone
  · rename_i h
    exact le_antisymm hzero (not_lt.1 h)

end Weight

variable {ω : Type}

/-! ## Keys of primitive types -/

/-- No two primitive types have one name. -/
theorem Primitive.name_injective : Function.Injective Primitive.name := by
  have hread : ∀ p : Primitive, Primitive.ofName? p.name = some p := by
    intro p
    cases p <;> rfl
  intro p q h
  exact Option.some.inj ((hread p).symm.trans ((congrArg Primitive.ofName? h).trans (hread q)))

namespace Concrete

/-- The first two units of a key. -/
def mark : Concrete ω → List CodeUnit
  | platform .. => [0x70, 0x6C]
  | configuration .. => [0x63, 0x6F]
  | primitive _ => [0x70, 0x72]
  | special _ => [0x73, 0x70]
  | function _ => [0x66, 0x6E]

/-- The first two units of a key tell the kind of its type. -/
theorem take_key (t : Concrete ω) : t.key.take 2 = t.mark := by cases t <;> rfl

/-- A primitive type is determined by its key. -/
theorem key_eq_primitive_iff {t : Concrete ω} {p : Primitive} :
    t.key = (primitive p : Concrete ω).key ↔ t = primitive p := by
  refine ⟨fun h => ?_, fun h => by rw [h]⟩
  have hmark : t.mark = [0x70, 0x72] := by rw [← take_key, h]; rfl
  cases t with
  | primitive q =>
    have hname : q.name = p.name := List.append_cancel_left h
    rw [Primitive.name_injective hname]
  | _ => simp [mark] at hmark

end Concrete

namespace Members

/-! ## Keys and masses -/

/-- The keys of the members' types. -/
def keys (ms : Members ω) : List Text := (types ms).map Concrete.key

/-- The keys of the members with their weights. -/
def profile (ms : Members ω) : List (Text × ω) := ms.map fun m => (m.1.key, m.2)

/-- The weight of all members with a key. -/
def mass (ms : Members ℚ) (k : Text) : ℚ := ((ms.filter fun m => m.1.key = k).map Prod.snd).sum

theorem mass_nil (k : Text) : mass [] k = 0 := rfl

/-- A member adds its weight under its own key and nothing under others. -/
theorem mass_cons (m : Concrete ℚ × ℚ) (ms : Members ℚ) (k : Text) :
    mass (m :: ms) k = (if m.1.key = k then m.2 else 0) + mass ms k := by
  unfold mass
  by_cases h : m.1.key = k
  · rw [List.filter_cons_of_pos (by simpa using h), List.map_cons, List.sum_cons, if_pos h]
  · rw [List.filter_cons_of_neg (by simpa using h), if_neg h, zero_add]

/-- The order of members does not matter to the weight under a key. -/
theorem mass_perm {ms ms' : Members ℚ} (h : ms.Perm ms') (k : Text) : mass ms k = mass ms' k :=
  ((h.filter _).map Prod.snd).sum_eq

/-- The total of exact weights is their sum. -/
theorem total_rat (ms : Members ℚ) : total ms = (ms.map Prod.snd).sum := Weight.sum_rat _

/-! ## Merging -/

/-- A merged member weighs what the members of its key weigh, added from the first to the last. -/
theorem mem_profile_merge [Weight ω] {ms : Members ω} {k : Text} {w : ω} :
    (k, w) ∈ profile (merge ms) ↔ added ms k = some w := by
  have hweight := weight_foldl_collect ms .empty k
  rw [Table.get?_empty, Option.map_none] at hweight
  rw [added, ← hweight, Option.map_eq_some_iff]
  constructor
  · intro h
    obtain ⟨m, hm, he⟩ := List.mem_map.1 h
    cases he
    obtain ⟨k, hk⟩ := Table.mem_values_iff.1 hm
    obtain rfl : m.1.key = k := (collected ms k m hk).1
    exact ⟨m, hk, rfl⟩
  · rintro ⟨m, hm, rfl⟩
    rw [← (collected ms k m hm).1]
    exact List.mem_map_of_mem (f := fun m : Concrete ω × ω => (m.1.key, m.2))
      (Table.mem_values_iff.2 ⟨k, hm⟩)

/-- Adding weights to one that is there gives their sum with it. -/
theorem foldl_addTo_rat (ms : Members ℚ) (w : ℚ) :
    ms.foldl addTo (some w) = some (w + (ms.map Prod.snd).sum) := by
  induction ms generalizing w with
  | nil => rw [List.foldl_nil, List.map_nil, List.sum_nil, add_zero]
  | cons m ms ih =>
    have hstep : addTo (some w) m = some (w + m.2) := rfl
    rw [List.foldl_cons, hstep, ih, List.map_cons, List.sum_cons, add_assoc]

/-- Without rounding, the order of the additions does not matter. -/
theorem mass_of_added {ms : Members ℚ} {k : Text} {w : ℚ} (h : added ms k = some w) :
    w = mass ms k := by
  unfold added at h
  unfold mass
  cases hfilter : ms.filter fun m => m.1.key = k with
  | nil =>
    rw [hfilter] at h
    cases h
  | cons m rest =>
    have hfirst : addTo none m = some m.2 := rfl
    rw [hfilter, List.foldl_cons, hfirst, foldl_addTo_rat] at h
    rw [List.map_cons, List.sum_cons]
    exact (Option.some.inj h).symm

/-- Collecting members brings in their keys and no others. -/
theorem mem_keys_foldl_collect [Weight ω] (ms : Members ω) (merged : Table Text (Concrete ω × ω))
    (k : Text) :
    k ∈ (ms.foldl collect merged).keys ↔ k ∈ keys ms ∨ k ∈ merged.keys := by
  induction ms generalizing merged with
  | nil => simp [keys, types]
  | cons m ms ih =>
    have hkeys : keys (m :: ms) = m.1.key :: keys ms := rfl
    rw [List.foldl_cons, ih, collect, Table.mem_keys_insert, hkeys, List.mem_cons,
      or_left_comm, or_assoc]

/-- A merged member weighs what all members of its key weigh together. -/
theorem weight_of_mem_merge {ms : Members ℚ} {m : Concrete ℚ × ℚ} (h : m ∈ merge ms) :
    m.2 = mass ms m.1.key :=
  mass_of_added (mem_profile_merge.1 (List.mem_map_of_mem h))

/-- The keys of merged members are those collected, in the order in which they were met. -/
theorem keys_merge [Weight ω] (ms : Members ω) :
    keys (merge ms) = (ms.foldl collect .empty).keys := by
  unfold keys types merge Table.values Table.keys
  rw [List.map_map, List.map_map]
  refine List.map_congr_left ?_
  intro e he
  exact (collected ms e.1 e.2 (Table.get?_eq_some_iff.2 he)).1

/-- Merging neither loses a key nor makes one up. -/
theorem mem_keys_merge [Weight ω] (ms : Members ω) (k : Text) :
    k ∈ keys (merge ms) ↔ k ∈ keys ms := by
  rw [keys_merge, mem_keys_foldl_collect]
  simp [Table.empty, Table.keys]

/-! ## Ordering -/

/-- No member is heavier than one before it. -/
def Falling (ms : Members ℚ) : Prop := ms.Pairwise fun a b => b.2 ≤ a.2

/-- On exact weights the two ways to say that no member is heavier than one before it agree. -/
theorem falling_iff {ms : Members ℚ} : Falling ms ↔ Descending ms :=
  List.Pairwise.iff fun _ _ => not_lt.symm

/-- Exact weights can always be compared. -/
theorem comparable_rat (ms : Members ℚ) : comparable ms = true :=
  List.all_eq_true.2 fun m _ => Weight.isNumber_rat m.2

/-- Fractions can always be compared, so members are put into place one after the other. -/
theorem sort_concat (ms : Members ℚ) (m : Concrete ℚ × ℚ) :
    sort (ms ++ [m]) = Members.place m (sort ms) := by
  rw [sort, sort, if_pos (comparable_rat _), if_pos (comparable_rat _), List.foldl_append,
    List.foldl_cons, List.foldl_nil]

/-- Sorted members fall in weight. -/
theorem falling_sort (ms : Members ℚ) : Falling (sort ms) :=
  falling_iff.2 (descending_sort (comparable_rat ms))

/-- Normalized members fall in weight. -/
theorem falling_normalize (ms : Members ℚ) : Falling (normalize ms) := falling_sort (merge ms)

/-- Sorting moves members and changes none. -/
theorem mem_normalize_iff [Weight ω] {ms : Members ω} {m : Concrete ω × ω} :
    m ∈ normalize ms ↔ m ∈ merge ms :=
  (sort_perm (merge ms)).mem_iff

/-- A normalized member has the weights of all members with its key, added up. -/
theorem mem_profile_normalize_iff [Weight ω] {ms : Members ω} {k : Text} {w : ω} :
    (k, w) ∈ profile (normalize ms) ↔ added ms k = some w := by
  have hperm : (profile (normalize ms)).Perm (profile (merge ms)) := (sort_perm (merge ms)).map _
  rw [hperm.mem_iff, mem_profile_merge]

/-- Normalizing neither loses a key nor makes one up. -/
theorem mem_keys_normalize [Weight ω] (ms : Members ω) (k : Text) :
    k ∈ keys (normalize ms) ↔ k ∈ keys ms := by
  have hperm : (keys (normalize ms)).Perm (keys (merge ms)) :=
    ((sort_perm (merge ms)).map Prod.fst).map Concrete.key
  rw [hperm.mem_iff, mem_keys_merge]

/-- Something is left of members that are normalized. -/
theorem normalize_ne_nil [Weight ω] {ms : Members ω} (h : ms ≠ []) : normalize ms ≠ [] := by
  obtain ⟨m, hm⟩ := List.exists_mem_of_ne_nil ms h
  have hkey := (mem_keys_normalize ms m.1.key).2 (List.mem_map_of_mem (mem_types hm))
  intro hnil
  rw [hnil] at hkey
  cases hkey

/-- The exact weight of a normalized member is all the weight under its key. -/
theorem weight_of_mem_normalize {ms : Members ℚ} {m : Concrete ℚ × ℚ} (h : m ∈ normalize ms) :
    m.2 = mass ms m.1.key :=
  weight_of_mem_merge (mem_normalize_iff.1 h)

/-- Every key of the members has one normalized member, with all the weight under that key. -/
theorem exists_mem_normalize {ms : Members ℚ} {k : Text} (h : k ∈ keys ms) :
    ∃ m ∈ normalize ms, m.1.key = k ∧ m.2 = mass ms k := by
  obtain ⟨t, ht, rfl⟩ := List.mem_map.1 ((mem_keys_normalize ms k).2 h)
  obtain ⟨m, hm, rfl⟩ := List.mem_map.1 ht
  exact ⟨m, hm, rfl, weight_of_mem_normalize hm⟩

/-- A normal form has one member for each key, and its weight is the mass of the key. -/
theorem mem_profile_normalize {ms : Members ℚ} {k : Text} {w : ℚ} :
    (k, w) ∈ profile (normalize ms) ↔ k ∈ keys ms ∧ w = mass ms k := by
  constructor
  · intro h
    obtain ⟨m, hm, he⟩ := List.mem_map.1 h
    cases he
    exact ⟨(mem_keys_normalize ms _).1 (List.mem_map_of_mem (mem_types hm)),
      weight_of_mem_normalize hm⟩
  · rintro ⟨hk, rfl⟩
    obtain ⟨m, hm, rfl, hweight⟩ := exists_mem_normalize hk
    rw [← hweight]
    exact List.mem_map_of_mem hm

/-! ## Rescaling -/

/-- Where the total is positive, rescaling divides every weight by it. -/
theorem rescale_of_pos {ms : Members ℚ} (h : 0 < total ms) :
    rescale ms = ms.map fun m => (m.1, m.2 / total ms) := by
  have hpos : (Weight.ofNat 0 : ℚ) < total ms := by rwa [Weight.ofNat_rat, Nat.cast_zero]
  unfold rescale
  exact if_pos hpos

/-- Positive weights have a positive total. -/
theorem total_pos {ms : Members ℚ} (hne : ms ≠ []) (hpos : ∀ m ∈ ms, 0 < m.2) : 0 < total ms := by
  rw [total_rat]
  refine List.sum_pos _ ?_ fun h => hne (List.map_eq_nil_iff.1 h)
  intro w hw
  obtain ⟨m, hm, rfl⟩ := List.mem_map.1 hw
  exact hpos m hm

/-- Rescaled weights add up to one. -/
theorem total_rescale {ms : Members ℚ} (h : 0 < total ms) : total (rescale ms) = 1 := by
  have hweights : (rescale ms).map Prod.snd = (ms.map Prod.snd).map fun w => w * (total ms)⁻¹ := by
    rw [rescale_of_pos h, List.map_map, List.map_map]
    refine List.map_congr_left ?_
    intro m _
    exact div_eq_mul_inv m.2 (total ms)
  rw [total_rat, hweights, List.sum_map_mul_right, List.map_id', ← total_rat]
  exact mul_inv_cancel₀ (ne_of_gt h)

end Members

end Gradual
