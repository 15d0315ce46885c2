import Mathlib.Data.List.Forall2
import Gradual.Proofs.Table
import Gradual.Types.Signature

/-!
# Tables side by side

Two runs of one analysis hold tables with the same keys in the same order; only the values differ,
in a way that a relation describes. Writing to both tables at the same key keeps this, and so does
everything that is built from such writes.
-/

namespace Gradual

variable {κ ν ν' μ μ' α β γ : Type}

/-- What is read off related elements alike is the same for related lists. -/
theorem map_eq_map_of_forall₂ {R : α → β → Prop} {f : α → γ} {g : β → γ}
    (hR : ∀ a b, R a b → f a = g b) {as : List α} {bs : List β} (h : List.Forall₂ R as bs) :
    as.map f = bs.map g := by
  rw [← List.forall₂_eq_eq_eq]
  exact List.rel_map (fun a b => hR a b) h

/-! ## Tables -/

namespace Table

variable [DecidableEq κ]

/-- Tables with the same keys in the same order, whose values are related. -/
structure Beside (R : ν → μ → Prop) (t : Table κ ν) (t' : Table κ μ) : Prop where
  keys_eq : t.keys = t'.keys
  values : ∀ k v v', t.get? k = some v → t'.get? k = some v' → R v v'

namespace Beside

variable {R : ν → μ → Prop} {t : Table κ ν} {t' : Table κ μ}

/-- Empty tables lie beside each other. -/
theorem empty : Beside R (Table.empty : Table κ ν) Table.empty := by
  refine ⟨rfl, ?_⟩
  intro k v v' hv
  cases hv

/-- A table whose values are related to themselves lies beside itself. -/
theorem refl {R : ν → ν → Prop} {t : Table κ ν} (h : t.All fun _ v => R v v) : Beside R t t := by
  refine ⟨rfl, ?_⟩
  intro k v v' hv hv'
  rw [hv, Option.some.injEq] at hv'
  rw [← hv']
  exact h k v hv

/-- Tables that lie beside each other do so under any larger relation. -/
theorem mono {S : ν → μ → Prop} (h : Beside R t t') (hRS : ∀ v v', R v v' → S v v') :
    Beside S t t' :=
  ⟨h.keys_eq, fun k v v' hv hv' => hRS v v' (h.values k v v' hv hv')⟩

/-- What is found in one table is found in the other, related. -/
theorem exists_of_get? (h : Beside R t t') {k : κ} {v : ν} (hv : t.get? k = some v) :
    ∃ v', t'.get? k = some v' ∧ R v v' := by
  have hk : k ∈ t'.keys := by
    rw [← h.keys_eq]
    exact mem_keys_iff.2 ⟨v, hv⟩
  obtain ⟨v', hv'⟩ := mem_keys_iff.1 hk
  exact ⟨v', hv', h.values k v v' hv hv'⟩

/-- Looking up a key finds related values or none in both. -/
theorem get? (h : Beside R t t') (k : κ) : Option.Rel R (t.get? k) (t'.get? k) := by
  cases hv : t.get? k with
  | none =>
    have hk : k ∉ t'.keys := by
      rw [← h.keys_eq]
      exact get?_eq_none_iff.1 hv
    rw [get?_eq_none_iff.2 hk]
    exact .none
  | some v =>
    obtain ⟨v', hv', hR⟩ := h.exists_of_get? hv
    rw [hv']
    exact .some hR

/-- Inserting related values keeps tables beside each other. -/
theorem insert (h : Beside R t t') (k : κ) {v : ν} {v' : μ} (hv : R v v') :
    Beside R (t.insert k v) (t'.insert k v') := by
  constructor
  · rw [keys_insert, keys_insert, h.keys_eq]
  · intro k' w w' hw hw'
    rw [get?_insert] at hw hw'
    by_cases hk : k' = k
    · rw [if_pos hk, Option.some.injEq] at hw hw'
      rw [← hw, ← hw']
      exact hv
    · rw [if_neg hk] at hw hw'
      exact h.values k' w w' hw hw'

/-- Pairs with the same key and related values. -/
def Pair (R : ν → μ → Prop) (e : κ × ν) (e' : κ × μ) : Prop := e.1 = e'.1 ∧ R e.2 e'.2

theorem insertAll {pairs : List (κ × ν)} {pairs' : List (κ × μ)}
    (hpairs : List.Forall₂ (Pair R) pairs pairs') (h : Beside R t t') :
    Beside R (t.insertAll pairs) (t'.insertAll pairs') := by
  induction hpairs generalizing t t' with
  | nil => exact h
  | @cons e e' _ _ he _ ih =>
    have hstep : Beside R (t.insert e.1 e.2) (t'.insert e'.1 e'.2) := by
      rw [← he.1]
      exact h.insert e.1 he.2
    exact ih hstep

/-- Tables made of related pairs lie beside each other. -/
theorem ofList {pairs : List (κ × ν)} {pairs' : List (κ × μ)}
    (hpairs : List.Forall₂ (Pair R) pairs pairs') :
    Beside R (Table.ofList pairs) (Table.ofList pairs') := insertAll hpairs empty

/-- Changing related values to related ones keeps tables beside each other. -/
theorem map {S : ν' → μ' → Prop} {f : κ → ν → ν'} {g : κ → μ → μ'} (h : Beside R t t')
    (hfg : ∀ k v v', R v v' → S (f k v) (g k v')) : Beside S (t.map f) (t'.map g) := by
  constructor
  · rw [keys_map, keys_map, h.keys_eq]
  · intro k w w' hw hw'
    rw [get?_map] at hw hw'
    obtain ⟨v, hv, rfl⟩ := Option.map_eq_some_iff.1 hw
    obtain ⟨v', hv', rfl⟩ := Option.map_eq_some_iff.1 hw'
    exact hfg k v v' (h.values k v v' hv hv')

/-- The entries are related one by one. -/
theorem entries (h : Beside R t t') : List.Forall₂ (Pair R) t.entries t'.entries := by
  have hkeys : t.entries.map Prod.fst = t'.entries.map Prod.fst := h.keys_eq
  have hvalues : ∀ e ∈ t.entries, ∀ e' ∈ t'.entries, e.1 = e'.1 → Pair R e e' := by
    intro e he e' he' hfst
    refine ⟨hfst, h.values e.1 e.2 e'.2 (get?_eq_some_iff.2 he) (get?_eq_some_iff.2 ?_)⟩
    rw [hfst]
    exact he'
  -- Only the keys say which entries stand at the same place, so the two facts are carried through
  -- both lists.
  generalize t.entries = es at hkeys hvalues
  generalize t'.entries = es' at hkeys hvalues
  induction es generalizing es' with
  | nil =>
    have hnil : es' = [] := List.map_eq_nil_iff.1 hkeys.symm
    rw [hnil]
    exact .nil
  | cons e es ih =>
    cases es' with
    | nil => cases hkeys
    | cons e' es' =>
      rw [List.map_cons, List.map_cons, List.cons.injEq] at hkeys
      refine .cons (hvalues e List.mem_cons_self e' List.mem_cons_self hkeys.1) (ih es' hkeys.2 ?_)
      intro x hx y hy
      exact hvalues x (List.mem_cons_of_mem e hx) y (List.mem_cons_of_mem e' hy)

/-- Tables with equal values are equal. -/
theorem eq {t t' : Table κ ν} (h : Beside (· = ·) t t') : t = t' := by
  have hentries : t.entries = t'.entries := by
    refine List.forall₂_eq_eq_eq ▸ h.entries.imp ?_
    rintro ⟨k, v⟩ ⟨k', v'⟩ ⟨rfl, rfl⟩
    rfl
  cases t
  cases t'
  cases hentries
  rfl

end Beside

/-- A word finds related values in both tables. -/
theorem Beside.findWord? {R : ν → μ → Prop} {t : Table Text ν} {t' : Table Text μ}
    (h : Beside R t t') (name : Text) :
    Option.Rel R (t.findWord? name) (t'.findWord? name) := by
  have hget := h.get? name
  unfold Table.findWord? Table.findEntry?
  generalize t.get? name = v, t'.get? name = v' at hget
  cases hget with
  | some hv => exact .some hv
  | none =>
    have hfind : ∀ {es : List (Text × ν)} {es' : List (Text × μ)}, List.Forall₂ (Pair R) es es' →
        Option.Rel R ((es.find? fun e => e.1.lower == name.lower).map Prod.snd)
          ((es'.find? fun e => e.1.lower == name.lower).map Prod.snd) := by
      intro es es' hes
      induction hes with
      | nil => exact .none
      | @cons e e' _ _ he _ ih =>
        rw [List.find?_cons, List.find?_cons, ← he.1]
        split
        · exact .some he.2
        · exact ih
    exact hfind h.entries

end Table

/-! ## Arrays that grow -/

/-- Two arrays grew by related elements. -/
def Grown (R : α → β → Prop) (a a' : Array α) (b b' : Array β) : Prop :=
  ∃ added added', a'.toList = a.toList ++ added ∧ b'.toList = b.toList ++ added' ∧
    List.Forall₂ R added added'

namespace Grown

variable {R : α → β → Prop} {a a' : Array α} {b b' : Array β}

/-- Arrays that did not grow have grown by related parts. -/
theorem refl (a : Array α) (b : Array β) : Grown R a a b b :=
  ⟨[], [], (List.append_nil _).symm, (List.append_nil _).symm, .nil⟩

/-- Arrays that grew by related parts did so under any larger relation. -/
theorem mono {S : α → β → Prop} (h : Grown R a a' b b') (hRS : ∀ x y, R x y → S x y) :
    Grown S a a' b b' := by
  obtain ⟨added, added', ha, hb, hrel⟩ := h
  exact ⟨added, added', ha, hb, hrel.imp hRS⟩

/-- One more related pair keeps the grown parts related. -/
theorem push (h : Grown R a a' b b') {x : α} {y : β} (hxy : R x y) :
    Grown R a (a'.push x) b (b'.push y) := by
  obtain ⟨added, added', ha, hb, hrel⟩ := h
  refine ⟨added ++ [x], added' ++ [y], ?_, ?_, List.rel_append hrel (.cons hxy .nil)⟩
  · rw [Array.toList_push, ha, List.append_assoc]
  · rw [Array.toList_push, hb, List.append_assoc]

/-- What an array grew by is what stands behind its old end. -/
theorem drop (h : Grown R a a' b b') :
    List.Forall₂ R (a'.toList.drop a.size) (b'.toList.drop b.size) := by
  obtain ⟨added, added', ha, hb, hrel⟩ := h
  rw [ha, hb, ← Array.length_toList, ← Array.length_toList, List.drop_left, List.drop_left]
  exact hrel

end Grown

end Gradual
