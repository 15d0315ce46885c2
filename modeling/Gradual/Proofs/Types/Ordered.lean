import Mathlib.Data.Prod.Lex
import Gradual.Proofs.Types.Members

/-!
# Weights in order

What the comparisons of weights have to meet so that a union can speak of its heaviest member: to
be less is a strict order, which the other comparison goes along with. Doubles meet this, also those
that are not numbers, which are neither less nor greater than any other.

Members whose weights are numbers are put in order, and any members have a heaviest one among them:
`Members.descending_sort` and `Members.exists_heaviest`.
-/

namespace Gradual

namespace Weight

/-- Weights whose comparisons are those of an order, as far as they hold. -/
class Ordered (ω : Type) [Weight ω] : Prop where
  lt_irrefl : ∀ a : ω, ¬ a < a
  lt_trans : ∀ a b c : ω, a < b → b < c → a < c
  le_of_le_of_lt : ∀ a b c : ω, a ≤ b → b < c → a ≤ c

end Weight

/-! ## Doubles -/

namespace Double

open Float.Model (UnpackedFloat)

/-- The place of a double among all others: negative ones, zero and positive ones, and within them
by exponent and then by mantissa. -/
def place : UnpackedFloat → ℤ ×ₗ ℤ ×ₗ ℤ
  | .infinity .negative => toLex (-2, toLex (0, 0))
  | .finite .negative m e _ => toLex (-1, toLex (-e, -m))
  | .zero _ | .notANumber => toLex (0, toLex (0, 0))
  | .finite .positive m e _ => toLex (1, toLex (e, m))
  | .infinity .positive => toLex (2, toLex (0, 0))

/-- The comparison of exponents and then of mantissas. -/
theorem then_compare_iff {e e' : ℤ} {m m' : ℕ} :
    ((compare e e').then (compare m m') = .lt ↔ e < e' ∨ e = e' ∧ m < m') ∧
      ((compare e e').then (compare m m') = .gt ↔ e' < e ∨ e = e' ∧ m' < m) ∧
      (((compare e e').then (compare m m')).isLE = true ↔ e < e' ∨ e = e' ∧ m ≤ m') ∧
      (((compare e e').then (compare m m')).isGE = true ↔ e' < e ∨ e = e' ∧ m' ≤ m) := by
  rcases lt_trichotomy e e' with h | rfl | h
  · have hcompare : compare e e' = .lt := compare_lt_iff_lt.2 h
    simp [hcompare, h, h.ne, h.le]
  · simp [compare_lt_iff_lt, compare_gt_iff_gt, Nat.isLE_compare, Nat.isGE_compare]
  · have hcompare : compare e e' = .gt := compare_gt_iff_gt.2 h
    simp [hcompare, h, h.ne', h.le]

/-- A double is less than another one if both are numbers and its place is less. -/
theorem lt_iff {a b : UnpackedFloat} :
    a.lt b = true ↔ a.isNaN = false ∧ b.isNaN = false ∧ place a < place b := by
  unfold UnpackedFloat.lt UnpackedFloat.compare
  rcases a with (_ | _) | _ | _ | ⟨_ | _, m, e, hm⟩ <;>
    rcases b with (_ | _) | _ | _ | ⟨_ | _, m', e', hm'⟩ <;>
    dsimp only [UnpackedFloat.isNaN, place] <;>
    simp [Prod.Lex.toLex_lt_toLex, then_compare_iff]
  all_goals rfl

/-- A double is at most another one if both are numbers and its place is no greater. -/
theorem le_iff {a b : UnpackedFloat} :
    a.le b = true ↔ a.isNaN = false ∧ b.isNaN = false ∧ place a ≤ place b := by
  unfold UnpackedFloat.le UnpackedFloat.compare
  rcases a with (_ | _) | _ | _ | ⟨_ | _, m, e, hm⟩ <;>
    rcases b with (_ | _) | _ | _ | ⟨_ | _, m', e', hm'⟩ <;>
    dsimp only [UnpackedFloat.isNaN, place] <;>
    simp [Prod.Lex.toLex_le_toLex, then_compare_iff]
  all_goals rfl

end Double

/-- Doubles are ordered by their places. -/
instance : Weight.Ordered Float where
  lt_irrefl a h := by
    have h' : a.toModel.unpack.lt a.toModel.unpack = true := of_decide_eq_true h
    exact lt_irrefl _ (Double.lt_iff.1 h').2.2
  lt_trans a b c hab hbc := by
    have hab' : a.toModel.unpack.lt b.toModel.unpack = true := of_decide_eq_true hab
    have hbc' : b.toModel.unpack.lt c.toModel.unpack = true := of_decide_eq_true hbc
    rw [Double.lt_iff] at hab' hbc'
    exact decide_eq_true (Double.lt_iff.2 ⟨hab'.1, hbc'.2.1, lt_trans hab'.2.2 hbc'.2.2⟩)
  le_of_le_of_lt a b c hab hbc := by
    have hab' : a.toModel.unpack.le b.toModel.unpack = true := of_decide_eq_true hab
    have hbc' : b.toModel.unpack.lt c.toModel.unpack = true := of_decide_eq_true hbc
    rw [Double.le_iff] at hab'
    rw [Double.lt_iff] at hbc'
    exact decide_eq_true (Double.le_iff.2 ⟨hab'.1, hbc'.2.1, le_trans hab'.2.2 hbc'.2.2.le⟩)

/-! ## Members in order -/

namespace Members

variable {ω : Type} [Weight ω]

/-- No member is heavier than one before it. -/
def Descending (ms : Members ω) : Prop := ms.Pairwise fun a b => ¬ a.2 < b.2

variable [Weight.Ordered ω]

theorem Descending.place {ms : Members ω} (h : Descending ms) (m : Concrete ω × ω) :
    Descending (place m ms) := by
  induction ms with
  | nil => exact List.pairwise_singleton _ m
  | cons x ms ih =>
    obtain ⟨hx, hms⟩ := List.pairwise_cons.1 h
    unfold Members.place
    split
    · -- It goes first: `x` is lighter, so what is heavier than it is heavier than `x` too.
      rename_i hlt
      refine List.pairwise_cons.2 ⟨?_, h⟩
      intro y hy hmy
      have hxy : x.2 < y.2 := Weight.Ordered.lt_trans _ _ _ hlt hmy
      rcases List.mem_cons.1 hy with rfl | hy
      · exact Weight.Ordered.lt_irrefl _ hxy
      · exact hx y hy hxy
    · -- It goes behind `x`, and what comes behind `x` then was there or is the member.
      rename_i hle
      refine List.pairwise_cons.2 ⟨?_, ih hms⟩
      intro y hy
      rcases List.mem_cons.1 ((place_perm m ms).mem_iff.1 hy) with rfl | hy
      · exact hle
      · exact hx y hy

/-- Members that can be compared are put in order. -/
theorem descending_sort {ms : Members ω} (h : comparable ms = true) : Descending (sort ms) := by
  have hfold : ∀ (ms sorted : Members ω), Descending sorted →
      Descending (ms.foldl (fun sorted m => Members.place m sorted) sorted) := by
    intro ms
    induction ms with
    | nil => exact fun _ h => h
    | cons m ms ih => exact fun sorted h => ih _ (h.place m)
  rw [sort, if_pos h]
  exact hfold ms [] .nil

/-- Among any members there is a heaviest one. -/
theorem exists_heaviest {ms : Members ω} (hne : ms ≠ []) :
    ∃ m ∈ ms, ∀ m' ∈ ms, ¬ m.2 < m'.2 := by
  induction ms with
  | nil => exact absurd rfl hne
  | cons x ms ih =>
    rcases eq_or_ne ms [] with rfl | hms
    · exact ⟨x, List.mem_cons_self, List.forall_mem_singleton.2 (Weight.Ordered.lt_irrefl _)⟩
    · obtain ⟨m, hm, hheaviest⟩ := ih hms
      by_cases hlt : m.2 < x.2
      · refine ⟨x, List.mem_cons_self, List.forall_mem_cons.2 ⟨Weight.Ordered.lt_irrefl _, ?_⟩⟩
        intro m' hm' h
        exact hheaviest m' hm' (Weight.Ordered.lt_trans _ _ _ hlt h)
      · exact ⟨m, List.mem_cons_of_mem x hm, List.forall_mem_cons.2 ⟨hlt, hheaviest⟩⟩

end Members

end Gradual
