import Gradual.Proofs.Beside
import Gradual.Types.Inference

/-!
# The same knowledge in two runs

Where two runs know the same of their values, they go on knowing the same: every operation on types
looks at certainty and shape, and at origins only to see whether two resolutions are one and the
same. It is enough, then, that the runs agree on the first two and on which of their resolutions
share an origin; the origins themselves may differ.
-/

namespace Gradual

variable {ω : Type}

namespace Resolution

section

variable [Weight ω]

/-- Several resolutions contribute to their union with equal shares. -/
theorem union_of_two_le {rs : List (Resolution ω)} (h : 2 ≤ rs.length) :
    union rs = ofMembers (meanConfidence rs)
      (Members.simplify (Members.normalize
        (rs.flatMap (contribution (Weight.ofNat 1 / Weight.ofNat rs.length))))) := by
  match rs, h with
  | _ :: _ :: _, _ => rfl

/-- Nothing has held what is made of members. -/
theorem origin_ofMembers (confidence : ω) (ms : Members ω) :
    (ofMembers confidence ms).origin = .fresh := by
  match ms with
  | [] => rfl
  | [_] => rfl
  | _ :: _ :: _ => rfl

end

/-- A relation that says the same of both resolutions, and under which the same pairs share a
recorded origin. -/
structure Sameness (E : Resolution ω → Resolution ω → Prop) : Prop where
  certainty : ∀ {r r'}, E r r' → r.certainty = r'.certainty
  shape : ∀ {r r'}, E r r' → r.shape = r'.shape
  origin : ∀ {a a' b b'}, E a a' → E b b' →
    (a.origin ≠ .fresh ∧ a.origin = b.origin ↔ a'.origin ≠ .fresh ∧ a'.origin = b'.origin)
  fresh : ∀ {r}, r.origin = .fresh → E r r

namespace Sameness

variable {E : Resolution ω → Resolution ω → Prop} (hE : Sameness E) {a a' b b' r r' : Resolution ω}
  {rs rs' : List (Resolution ω)}

include hE

/-! ## Single resolutions -/

/-- Resolutions that say the same are of the same type. -/
theorem concrete?_eq (h : E r r') : r.concrete? = r'.concrete? := by
  unfold concrete?
  rw [hE.certainty h, hE.shape h]

/-- They are of the same primitive types. -/
theorem isPrimitive_eq (h : E r r') (p : Primitive) : r.isPrimitive p = r'.isPrimitive p := by
  unfold isPrimitive
  rw [hE.concrete?_eq h]

/-- Binary operations on them say the same. -/
theorem ofBinary (op : BinaryOp) (ha : E a a') (hb : E b b') :
    E (.ofBinary op a b) (.ofBinary op a' b') := by
  have heq : Resolution.ofBinary op a b = .ofBinary op a' b' := by
    unfold Resolution.ofBinary isNumber isString
    simp only [hE.isPrimitive_eq ha, hE.isPrimitive_eq hb]
  rw [heq]
  apply hE.fresh
  unfold Resolution.ofBinary
  split
  · rfl
  · split
    · split
      · rfl
      · split <;> rfl
    · rfl

theorem ofUnary (op : UnaryOp) (h : E r r') : E (.ofUnary op r) (.ofUnary op r') := by
  cases op with
  | not => exact hE.fresh rfl
  | neg =>
    unfold Resolution.ofUnary isNumber
    rw [hE.isPrimitive_eq h]
    apply hE.fresh
    dsimp only
    split <;> rfl

variable [Weight ω]

theorem resultOf {f : GlobalFunction ω} (hf : f.polymorphic = true) (h : E r r') :
    E (f.resultOf (r :: rs)) (f.resultOf (r' :: rs')) := by
  have heq : f.resultOf (r :: rs) = f.resultOf (r' :: rs') := by
    unfold GlobalFunction.resultOf
    rw [hf, List.head?_cons, List.head?_cons]
    dsimp only
    rw [hE.shape h]
  rw [heq]
  apply hE.fresh
  unfold GlobalFunction.resultOf
  rw [hf, List.head?_cons]
  dsimp only
  rw [if_pos rfl]
  split <;> rfl

/-! ## Unions and joins -/

/-- They contribute the same to a union. -/
theorem contributions_eq (h : List.Forall₂ E rs rs') (share : ω) :
    rs.flatMap (contribution share) = rs'.flatMap (contribution share) := by
  have hmap : rs.map (contribution share) = rs'.map (contribution share) := by
    refine map_eq_map_of_forall₂ (fun r r' hr => ?_) h
    rw [contribution, contribution, hE.shape hr]
  rw [List.flatMap_def, List.flatMap_def, hmap]

/-- They have the same mean confidence. -/
theorem meanConfidence_eq (h : List.Forall₂ E rs rs') : meanConfidence rs = meanConfidence rs' := by
  have hmap : rs.map (fun r => r.certainty.confidence) =
      rs'.map (fun r => r.certainty.confidence) :=
    map_eq_map_of_forall₂ (fun _ _ hr => congrArg Certainty.confidence (hE.certainty hr)) h
  rw [meanConfidence, meanConfidence, hmap, h.length_eq]

/-- Their unions say the same. -/
theorem union (h : List.Forall₂ E rs rs') : E (.union rs) (.union rs') := by
  cases h with
  | nil => exact hE.fresh rfl
  | cons hr hrest =>
    cases hrest with
    | nil => exact hr
    | cons hs hrest =>
      have hall := List.Forall₂.cons hr (.cons hs hrest)
      rw [union_of_two_le (by simp), union_of_two_le (by simp), hE.meanConfidence_eq hall,
        hall.length_eq, hE.contributions_eq hall]
      exact hE.fresh (origin_ofMembers _ _)

theorem choose (ha : E a a') (hb : E b b') : E (.choose a b) (.choose a' b') := by
  have hunion := hE.union (.cons ha (.cons hb .nil))
  unfold Resolution.choose
  rw [hE.concrete?_eq ha, hE.concrete?_eq hb]
  split
  · split
    · exact ha
    · exact hunion
  · exact hunion

/-- They agree with each other alike. -/
theorem agrees_eq (ha : E a a') (hb : E b b') : a.agrees b = a'.agrees b' := by
  have horigin : (a.origin != .fresh && a.origin == b.origin) =
      (a'.origin != .fresh && a'.origin == b'.origin) := by
    rw [Bool.eq_iff_iff, Bool.and_eq_true, Bool.and_eq_true, bne_iff_ne, bne_iff_ne,
      beq_iff_eq, beq_iff_eq]
    exact hE.origin ha hb
  unfold agrees
  rw [horigin, hE.concrete?_eq ha, hE.concrete?_eq hb, hE.certainty ha, hE.certainty hb]

theorem all_agrees_eq (hr : E r r') (h : List.Forall₂ E rs rs') :
    rs.all r.agrees = rs'.all r'.agrees := by
  induction h with
  | nil => rfl
  | cons hs _ ih => rw [List.all_cons, List.all_cons, ih, hE.agrees_eq hr hs]

/-- Their joins say the same. -/
theorem join (h : List.Forall₂ E rs rs') : E (.join rs) (.join rs') := by
  cases h with
  | nil => exact hE.fresh rfl
  | cons hr hrest =>
    rw [Resolution.join, Resolution.join, hE.all_agrees_eq hr hrest]
    split
    · exact hr
    · exact hE.union (.cons hr hrest)

end Sameness

/-! ## Resolutions up to their origins -/

/-- What a resolution says, without its origin. -/
def unrecorded (r : Resolution ω) : Resolution ω := { r with origin := .fresh }

/-- The same resolution, up to a relation of origins. -/
structure UpTo (O : Origin → Origin → Prop) (r r' : Resolution ω) : Prop where
  unrecorded_eq : r.unrecorded = r'.unrecorded
  origin : O r.origin r'.origin

end Resolution

/-- Origins are shared on one side exactly if they are on the other. -/
structure Origin.Pairing (O : Origin → Origin → Prop) : Prop where
  fresh : O .fresh .fresh
  eq_iff : ∀ {a a' b b'}, O a a' → O b b' → (a = b ↔ a' = b')

namespace Resolution

variable {O : Origin → Origin → Prop}

/-- Equality up to paired origins keeps what is said. -/
theorem sameness_upTo (hO : Origin.Pairing O) : Sameness (UpTo (ω := ω) O) where
  certainty := by
    intro r r' h
    show r.unrecorded.certainty = r'.unrecorded.certainty
    rw [h.unrecorded_eq]
  shape := by
    intro r r' h
    show r.unrecorded.shape = r'.unrecorded.shape
    rw [h.unrecorded_eq]
  origin := by
    intro a a' b b' ha hb
    rw [Ne, Ne, hO.eq_iff ha.origin hO.fresh, hO.eq_iff ha.origin hb.origin]
  fresh := by
    intro r hr
    refine ⟨rfl, ?_⟩
    rw [hr]
    exact hO.fresh

/-- Both runs record what is fresh. -/
theorem UpTo.recordAt (hO : Origin.Pairing O) {r r' : Resolution ω} (h : r.UpTo O r')
    {P : Origin → Origin → Prop} (hOP : ∀ o o', O o o' → P o o') {o o' : Origin} (ho : P o o') :
    (r.recordAt o).UpTo P (r'.recordAt o') := by
  have hfresh := hO.eq_iff h.origin hO.fresh
  unfold Resolution.recordAt
  by_cases hr : r.origin = .fresh
  · rw [if_pos hr, if_pos (hfresh.1 hr)]
    exact ⟨h.unrecorded_eq, ho⟩
  · rw [if_neg hr, if_neg fun hr' => hr (hfresh.2 hr')]
    exact ⟨h.unrecorded_eq, hOP _ _ h.origin⟩

end Resolution

/-- The values of a name on related paths. -/
theorem Variables.forall₂_filterMap_get? {R : Resolution ω → Resolution ω → Prop}
    {paths paths' : List (Variables ω)} (h : List.Forall₂ (Table.Beside R) paths paths')
    (name : Text) :
    List.Forall₂ R (paths.filterMap fun vs => vs.get? name)
      (paths'.filterMap fun vs => vs.get? name) := by
  apply List.rel_filterMap _ h
  intro vs vs' hvs
  exact hvs.get? name

end Gradual
