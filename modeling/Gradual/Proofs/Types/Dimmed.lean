import Gradual.Proofs.Types.Comparison
import Gradual.Proofs.Types.Members
import Gradual.Proofs.Types.Sameness

/-!
# Knowing less

A resolution is dimmed against another one if it is the same, or if it says nothing but what the
other one is sure of. Most operations on types keep this: they need to know a type to say something,
and then they say the same. A union does not, since a member of which nothing is known is left out
and the others speak louder; and a sum is a string as soon as its number is not known to be one. So
a blend is faithful if nothing that goes into it is dimmed, if nothing that goes into it says
anything, or if all that goes into it is surely of one type; and a sum is, unless it loses its
number beside a string.

Main statement: `Comparison.dimming`.
-/

namespace Gradual

variable {ω : Type}

namespace Resolution

/-- Surely of a type. -/
def Sure (t : Concrete ω) (r : Resolution ω) : Prop := r.certainty = .known ∧ r.shape = .concrete t

/-- Names no type, or one with a property. -/
def SaysOnly (P : Concrete ω → Prop) (r : Resolution ω) : Prop :=
  match r.shape with
  | .concrete t => P t
  | .union _ => False
  | _ => True

/-- Names no type. -/
def Silent (r : Resolution ω) : Prop := r.SaysOnly fun _ => False

/-- The same piece of knowledge. -/
structure Kept (r r' : Resolution ω) : Prop where
  certainty : r.certainty = r'.certainty
  shape : r.shape = r'.shape
  origin : r.origin = r'.origin

/-- The same as the other resolution, or says nothing but what that one is sure of. -/
def Dimmed (r r' : Resolution ω) : Prop := r.Kept r' ∨ r.SaysOnly fun t => r'.Sure t

/-- Being the same piece of knowledge keeps all that inference looks at. -/
theorem sameness_kept : Sameness (Kept (ω := ω)) where
  certainty h := h.certainty
  shape h := h.shape
  origin ha hb := by rw [ha.origin, hb.origin]
  fresh _ := ⟨rfl, rfl, rfl⟩

section

variable {r r' : Resolution ω} {P : Concrete ω → Prop} {t : Concrete ω}

theorem Kept.refl (r : Resolution ω) : r.Kept r := ⟨rfl, rfl, rfl⟩

theorem Dimmed.refl (r : Resolution ω) : r.Dimmed r := .inl (.refl r)

/-- Whoever says only types with a property says only types with a weaker one. -/
theorem SaysOnly.mono {Q : Concrete ω → Prop} (h : r.SaysOnly P) (hPQ : ∀ t, P t → Q t) :
    r.SaysOnly Q := by
  unfold SaysOnly at h ⊢
  split
  · rename_i t ht
    rw [ht] at h
    exact hPQ t h
  · rename_i ms hms
    rw [hms] at h
    exact h
  · trivial

/-- The type that is named has the property. -/
theorem SaysOnly.of_shape (h : r.SaysOnly P) (hshape : r.shape = .concrete t) : P t := by
  unfold SaysOnly at h
  rw [hshape] at h
  exact h

/-- A resolution that names one type says only that. -/
theorem saysOnly_of_shape (hshape : r.shape = .concrete t) (h : P t) : r.SaysOnly P := by
  unfold SaysOnly
  rw [hshape]
  exact h

/-- Whoever names no type says only types with any property. -/
theorem Silent.saysOnly (h : r.Silent) (P : Concrete ω → Prop) : r.SaysOnly P :=
  h.mono fun _ => False.elim

/-- A silent resolution is a dimmed form of any other. -/
theorem Silent.dimmed (h : r.Silent) (r' : Resolution ω) : r.Dimmed r' := .inr (h.saysOnly _)

/-- A sure resolution is of one type. -/
theorem Sure.concrete? (h : r.Sure t) : r.concrete? = some t := by
  unfold Resolution.concrete?
  rw [h.1, h.2]

/-- A resolution of one type has that type as its shape. -/
theorem shape_of_concrete? (h : r.concrete? = some t) : r.shape = .concrete t := by
  unfold Resolution.concrete? at h
  split at h
  · cases h
  · rename_i hshape _
    cases h
    exact hshape
  · cases h

/-- What is dimmed against something sure can say nothing else. -/
theorem Dimmed.saysOnly_of_sure (h : r.Dimmed r') (ht : r'.Sure t) : r.SaysOnly (· = t) := by
  rcases h with h | h
  · exact saysOnly_of_shape (h.shape.trans ht.2) rfl
  · refine h.mono fun u hu => ?_
    have heq := hu.concrete?.symm.trans ht.concrete?
    cases heq
    rfl

/-- A type that is named is the type of the other one too. -/
theorem Dimmed.concrete? (h : r.Dimmed r') (ht : r.concrete? = some t) : r'.concrete? = some t := by
  rcases h with h | h
  · rw [← sameness_kept.concrete?_eq h]
    exact ht
  · exact (h.of_shape (shape_of_concrete? ht)).concrete?

/-- A primitive type that is named through a dimmed form is there in the other run too. -/
theorem Dimmed.isPrimitive (h : r.Dimmed r') {p : Primitive} (hp : r.isPrimitive p = true) :
    r'.isPrimitive p = true := by
  unfold Resolution.isPrimitive at hp ⊢
  cases ht : r.concrete? with
  | none =>
    rw [ht] at hp
    cases hp
  | some t =>
    rw [ht] at hp
    rw [h.concrete? ht]
    exact hp

/-- Recording origins keeps dimmed forms. -/
theorem Dimmed.recordAt (h : r.Dimmed r') (origin : Origin) :
    (r.recordAt origin).Dimmed (r'.recordAt origin) := by
  rcases h with h | h
  · left
    unfold Resolution.recordAt
    rw [h.origin]
    split
    · exact ⟨h.certainty, h.shape, rfl⟩
    · exact h
  · right
    have hshape : (r.recordAt origin).shape = r.shape := by
      unfold Resolution.recordAt
      split <;> rfl
    have hsure : ∀ t, r'.Sure t → (r'.recordAt origin).Sure t := by
      intro t ht
      unfold Resolution.recordAt
      split
      · exact ht
      · exact ht
    unfold SaysOnly
    rw [hshape]
    exact h.mono hsure

end

/-! ## Operators and functions -/

section

variable {l l' r r' : Resolution ω}

/-- A sum does not lose its number beside a string. -/
def SumFaithful (l r l' r' : Resolution ω) : Prop :=
  (l'.isNumber = true → r.isString = true → l.isNumber = true) ∧
    (r'.isNumber = true → l.isString = true → r.isNumber = true)

/-- No resolution is both a string and a number. -/
theorem not_isNumber_of_isString (h : r.isString = true) : r.isNumber = false := by
  unfold isString isNumber Resolution.isPrimitive at *
  split
  · rename_i q hq
    rw [hq] at h
    have hstring : q = .string := by simpa using h
    rw [hstring]
    rfl
  · rfl

/-- A binary operation on dimmed operands gives a dimmed result, if a sum does not lose its number.
-/
theorem Dimmed.ofBinary {op : BinaryOp} (hl : l.Dimmed l') (hr : r.Dimmed r')
    (hsum : op = .add → SumFaithful l r l' r') :
    (Resolution.ofBinary op l r).Dimmed (.ofBinary op l' r') := by
  unfold Resolution.ofBinary
  split
  · exact .refl _
  split
  · by_cases hnumber : (l.isNumber || r.isNumber) = true
    · -- A number on one side is a number there in the other run.
      have hnumber' : (l'.isNumber || r'.isNumber) = true := by
        rw [Bool.or_eq_true] at hnumber ⊢
        exact hnumber.imp hl.isPrimitive hr.isPrimitive
      rw [if_pos hnumber, if_pos hnumber']
      exact .refl _
    rw [if_neg hnumber]
    by_cases hstring : (op == .add && (l.isString || r.isString)) = true
    · rw [if_pos hstring]
      obtain ⟨hadd, hstring⟩ := Bool.and_eq_true_iff.1 hstring
      have hfaithful := hsum (beq_iff_eq.1 hadd)
      rw [Bool.or_eq_true, not_or] at hnumber
      -- Beside a string, a number that the other run sees would be seen in this one.
      have hnumber' : ¬ (l'.isNumber || r'.isNumber) = true := by
        rw [Bool.or_eq_true, not_or]
        rw [Bool.or_eq_true] at hstring
        rcases hstring with hstring | hstring
        · have hl' := not_isNumber_of_isString (hl.isPrimitive hstring)
          exact ⟨by rw [hl']; exact Bool.false_ne_true,
            fun hr' => hnumber.2 (hfaithful.2 hr' hstring)⟩
        · have hr' := not_isNumber_of_isString (hr.isPrimitive hstring)
          exact ⟨fun hl' => hnumber.1
            (hfaithful.1 hl' hstring), by rw [hr']; exact Bool.false_ne_true⟩
      have hstring' : (op == .add && (l'.isString || r'.isString)) = true := by
        rw [Bool.or_eq_true] at hstring
        rw [Bool.and_eq_true, Bool.or_eq_true]
        exact ⟨hadd, hstring.imp hl.isPrimitive hr.isPrimitive⟩
      rw [if_neg hnumber', if_pos hstring']
      exact .refl _
    · rw [if_neg hstring]
      refine Silent.dimmed ?_ _
      trivial
  · exact .refl _

/-- A unary operation on a dimmed operand gives a dimmed result. -/
theorem Dimmed.ofUnary {op : UnaryOp} (h : r.Dimmed r') :
    (Resolution.ofUnary op r).Dimmed (.ofUnary op r') := by
  cases op with
  | not => exact .refl _
  | neg =>
    unfold Resolution.ofUnary
    dsimp only
    by_cases hnumber : r.isNumber = true
    · have hnumber' : r'.isNumber = true := h.isPrimitive hnumber
      rw [if_pos hnumber, if_pos hnumber']
      exact .refl _
    · rw [if_neg hnumber]
      refine Silent.dimmed ?_ _
      trivial

variable [Weight ω]

/-- A function that gives back the type of its first argument gives back a dimmed one. -/
theorem Dimmed.resultOf {f : GlobalFunction ω} (hf : f.polymorphic = true)
    {rs rs' : List (Resolution ω)} (h : r.Dimmed r') :
    (f.resultOf (r :: rs)).Dimmed (f.resultOf (r' :: rs')) := by
  rcases h with h | h
  · exact .inl (sameness_kept.resultOf hf h)
  · unfold GlobalFunction.resultOf
    rw [hf, if_pos rfl, if_pos rfl, List.head?_cons, List.head?_cons]
    dsimp only
    cases hshape : r.shape with
    | concrete t =>
      -- The other argument is surely of the same type, so both results are the same.
      rw [(h.of_shape hshape).2]
      exact .refl _
    | union ms =>
      unfold SaysOnly at h
      rw [hshape] at h
      exact h.elim
    | _ =>
      refine Silent.dimmed ?_ _
      trivial

end

/-! ## Unions and joins -/

section

variable {P : Concrete ω → Prop} {rs rs' : List (Resolution ω)}

/-- Values that are turned into one: none of them is dimmed, none of them says anything, or all of
them are surely of one type in the other run. -/
def Harmless (rs rs' : List (Resolution ω)) : Prop :=
  List.Forall₂ Kept rs rs' ∨ (∀ r ∈ rs, r.Silent) ∨ ∃ t, ∀ r ∈ rs', r.Sure t

/-- Dimmed forms of values that are surely of one type say only that type. -/
theorem forall_saysOnly_of_sure {t : Concrete ω} (h : List.Forall₂ Dimmed rs rs')
    (hsure : ∀ r ∈ rs', r.Sure t) :
    ∀ r ∈ rs, r.SaysOnly (· = t) := by
  induction h with
  | nil => exact fun r hr => nomatch hr
  | @cons a b _ _ hab _ ih =>
    intro r hr
    rcases List.mem_cons.1 hr with rfl | hr
    · exact hab.saysOnly_of_sure (hsure b List.mem_cons_self)
    · exact ih (fun s hs => hsure s (List.mem_cons_of_mem b hs)) r hr

variable [Weight ω]

/-- What a resolution contributes to a union has the property of what it says. -/
theorem SaysOnly.contribution {r : Resolution ω} (h : r.SaysOnly P) (share : ω) :
    ∀ t ∈ Members.types (r.contribution share), P t := by
  unfold Resolution.contribution
  unfold SaysOnly at h
  intro t ht
  split at ht
  · rename_i u hu
    rw [hu] at h
    rw [List.mem_singleton.1 ht]
    exact h
  · rename_i ms hms
    rw [hms] at h
    exact h.elim
  · cases ht

/-- Distinct members of at most one type are no union. -/
theorem saysOnly_ofMembers (hP : ∀ s t, P s → P t → s = t) (confidence : ω) {members : Members ω}
    (hdistinct : members.Distinct) (htypes : ∀ t ∈ members.types, P t) :
    (ofMembers confidence members).SaysOnly P := by
  match members with
  | [] => trivial
  | [m] => exact htypes m.1 List.mem_cons_self
  | m :: n :: rest =>
    -- Two members would have one and the same type.
    have heq : m.1 = n.1 :=
      hP m.1 n.1 (htypes m.1 List.mem_cons_self)
        (htypes n.1 (List.mem_cons_of_mem _ List.mem_cons_self))
    have hne : m.1.key ≠ n.1.key := by
      intro hkey
      apply (List.nodup_cons.1 hdistinct).1
      rw [hkey]
      exact List.mem_cons_self
    exact absurd (congrArg Concrete.key heq) hne

/-- If what goes into a union names at most one type, so does the union. -/
theorem saysOnly_union (hP : ∀ s t, P s → P t → s = t) (h : ∀ r ∈ rs, r.SaysOnly P) :
    (union rs).SaysOnly P := by
  by_cases hlen : 2 ≤ rs.length
  · rw [union_of_two_le hlen]
    refine saysOnly_ofMembers hP _ (Members.distinct_normalize _).simplify ?_
    intro t ht
    have hmem := Members.types_normalize_subset _ (Members.types_simplify_subset _ ht)
    obtain ⟨m, hm, rfl⟩ := List.mem_map.1 hmem
    obtain ⟨r, hr, hm⟩ := List.mem_flatMap.1 hm
    exact (h r hr).contribution _ m.1 (Members.mem_types hm)
  · match rs, hlen with
    | [], _ => trivial
    | [r], _ => exact h r List.mem_cons_self
    | _ :: _ :: _, hlen => exact absurd (Nat.le_add_left 2 _) hlen

/-- Where at most one type has the property, a join says only that one. -/
theorem saysOnly_join (hP : ∀ s t, P s → P t → s = t) (h : ∀ r ∈ rs, r.SaysOnly P) :
    (join rs).SaysOnly P := by
  match rs with
  | [] => trivial
  | r :: rs =>
    rw [join]
    split
    · exact h r List.mem_cons_self
    · exact saysOnly_union hP h

theorem saysOnly_choose (hP : ∀ s t, P s → P t → s = t) {a b : Resolution ω} (ha : a.SaysOnly P)
    (hb : b.SaysOnly P) : (choose a b).SaysOnly P := by
  have hunion : (union [a, b]).SaysOnly P := by
    refine saysOnly_union hP ?_
    intro r hr
    rcases List.mem_cons.1 hr with rfl | hr
    · exact ha
    · rw [List.mem_singleton.1 hr]
      exact hb
  unfold Resolution.choose
  split
  · split
    · exact ha
    · exact hunion
  · exact hunion

/-- A harmless choice between dimmed values is dimmed. -/
theorem Dimmed.choose {a a' b b' : Resolution ω} (ha : a.Dimmed a') (hb : b.Dimmed b')
    (hharmless : Harmless [a, b] [a', b']) : (Resolution.choose a b).Dimmed (.choose a' b') := by
  rcases hharmless with hkept | hsilent | ⟨t, hsure⟩
  · cases hkept with
    | cons hka hkept =>
      cases hkept with
      | cons hkb _ => exact .inl (sameness_kept.choose hka hkb)
  · have hsilent_a := hsilent a List.mem_cons_self
    have hsilent_b := hsilent b (List.mem_cons_of_mem a List.mem_cons_self)
    exact Silent.dimmed (saysOnly_choose (fun _ _ hs => hs.elim) hsilent_a hsilent_b) _
  · have hsure_a := hsure a' List.mem_cons_self
    have hsure_b := hsure b' (List.mem_cons_of_mem a' List.mem_cons_self)
    have hsays := saysOnly_choose (P := (· = t)) (fun _ _ hs ht => hs.trans ht.symm)
      (ha.saysOnly_of_sure hsure_a) (hb.saysOnly_of_sure hsure_b)
    have hchoose : Resolution.choose a' b' = a' := by
      unfold Resolution.choose
      rw [hsure_a.concrete?, hsure_b.concrete?]
      exact if_pos (by unfold Concrete.same; exact beq_self_eq_true _)
    rw [hchoose]
    right
    exact hsays.mono fun u hu => hu ▸ hsure_a

variable (hone : ((Weight.ofNat 1 : ω) == Weight.ofNat 1) = true)

include hone

/-- Resolutions that are surely of one type agree. -/
theorem agrees_of_sure {t : Concrete ω} {a b : Resolution ω} (ha : a.Sure t) (hb : b.Sure t) :
    a.agrees b = true := by
  unfold agrees
  rw [ha.concrete?, hb.concrete?, ha.1, hb.1]
  have hsame : t.same t = true := by
    unfold Concrete.same
    exact beq_self_eq_true _
  simp [hsame, Certainty.sameKind, Certainty.confidence, hone]

/-- A harmless join of dimmed values is dimmed. -/
theorem Dimmed.join (h : List.Forall₂ Dimmed rs rs') (hharmless : Harmless rs rs') :
    (Resolution.join rs).Dimmed (.join rs') := by
  rcases hharmless with hkept | hsilent | ⟨t, hsure⟩
  · exact .inl (sameness_kept.join hkept)
  · exact Silent.dimmed (saysOnly_join (fun _ _ hs => hs.elim) hsilent) _
  · cases h with
    | nil => exact .refl _
    | @cons a b as bs hab hrest =>
      have hsays := saysOnly_join (P := (· = t)) (fun _ _ hs ht => hs.trans ht.symm)
        (forall_saysOnly_of_sure (List.Forall₂.cons hab hrest) hsure)
      have hb : b.Sure t := hsure b List.mem_cons_self
      have hjoin : Resolution.join (b :: bs) = b := by
        rw [Resolution.join, if_pos]
        rw [List.all_eq_true]
        intro c hc
        exact agrees_of_sure hone hb (hsure c (List.mem_cons_of_mem b hc))
      rw [hjoin]
      right
      exact hsays.mono fun u hu => hu ▸ hb

end

end Resolution

/-! ## Blends -/

/-- What a blend of a run must be, beside that of a run that knows more, so as not to say more. -/
def Blend.Faithful [Weight ω] : Blend ω → Blend ω → Prop
  | .operation .add l r, .operation .add l' r' => Resolution.SumFaithful l r l' r'
  | .choice a b, .choice a' b' => Resolution.Harmless [a, b] [a', b']
  | .ways paths, .ways paths' => ∀ name,
    Resolution.Harmless (paths.filterMap fun vs => vs.get? name)
      (paths'.filterMap fun vs => vs.get? name)
  | .returned types, .returned types' => Resolution.Harmless types types'
  | _, _ => True

/-- Two runs, the first of which knows less. They make the same states. -/
def Comparison.dimming [Weight ω] (hone : ((Weight.ofNat 1 : ω) == Weight.ofNat 1) = true) :
    Comparison ω where
  World := Unit
  le _ _ := True
  reached _ m n := m = n
  rel _ := Resolution.Dimmed
  keeps := Blend.Faithful
  le_refl _ := trivial
  le_trans _ _ := trivial
  rel_mono _ h := h
  rel_fresh _ _ _ := .refl _
  rel_enter h := ⟨(), trivial, congrArg Nat.succ h,
    fun _ _ name hrs => h ▸ hrs.recordAt (.held _ name)⟩
  rel_ofBinary hl hr hkeeps := hl.ofBinary hr fun hadd => by
    subst hadd
    exact hkeeps
  rel_ofUnary h := h.ofUnary
  rel_choose ha hb hkeeps := ha.choose hb hkeeps
  rel_resultOf hf h := h.resultOf hf
  rel_join h hkeeps name := .join hone (Variables.forall₂_filterMap_get? h name) (hkeeps name)
  rel_returned h hkeeps := .join hone h hkeeps

end Gradual
