import Gradual.Table

/-!
# What tables hold

Reading a table is the same as looking for a pair among its entries, since no key is listed twice.
-/

namespace Gradual

namespace Table

variable {κ ν μ : Type}

/-- A table has as many entries as keys. -/
theorem size_eq_length_keys (t : Table κ ν) : t.size = t.keys.length := by
  rw [size, keys, List.length_map]

/-- Changing the values keeps the keys. -/
theorem keys_map (f : κ → ν → μ) (t : Table κ ν) : (t.map f).keys = t.keys := by
  rw [keys, keys, map, List.map_map]
  rfl

variable [DecidableEq κ]

/-! ## Entries -/

/-- With no key written twice, the value at a key is the one in its entry. -/
theorem valueAt_eq_some_iff {es : List (κ × ν)} (hnodup : (es.map Prod.fst).Nodup) (k : κ) (v : ν) :
    valueAt k es = some v ↔ (k, v) ∈ es := by
  induction es with
  | nil => simp [valueAt]
  | cons e rest ih =>
    obtain ⟨hnot, hrest⟩ := List.nodup_cons.1 hnodup
    rw [valueAt]
    by_cases h : e.1 = k
    · rw [if_pos h]
      constructor
      · intro hv
        cases hv
        subst h
        exact List.mem_cons_self
      · intro hm
        rcases List.mem_cons.1 hm with rfl | hm
        · rfl
        · exact absurd (List.mem_map.2 ⟨_, hm, h.symm⟩) hnot
    · rw [if_neg h, ih hrest]
      constructor
      · exact List.mem_cons_of_mem e
      · intro hm
        rcases List.mem_cons.1 hm with rfl | hm
        · exact absurd rfl h
        · exact hm

/-- A key has the value of its entry. -/
theorem get?_eq_some_iff {t : Table κ ν} {k : κ} {v : ν} : t.get? k = some v ↔ (k, v) ∈ t.entries :=
  valueAt_eq_some_iff t.nodup_keys k v

/-- The keys are those with a value. -/
theorem mem_keys_iff {t : Table κ ν} {k : κ} : k ∈ t.keys ↔ ∃ v, t.get? k = some v := by
  constructor
  · intro h
    obtain ⟨⟨k', v⟩, hm, rfl⟩ := List.mem_map.1 h
    exact ⟨v, get?_eq_some_iff.2 hm⟩
  · rintro ⟨v, h⟩
    exact List.mem_map.2 ⟨(k, v), get?_eq_some_iff.1 h, rfl⟩

/-- The values are those of keys. -/
theorem mem_values_iff {t : Table κ ν} {v : ν} : v ∈ t.values ↔ ∃ k, t.get? k = some v := by
  constructor
  · intro h
    obtain ⟨⟨k, v'⟩, hm, rfl⟩ := List.mem_map.1 h
    exact ⟨k, get?_eq_some_iff.2 hm⟩
  · rintro ⟨k, h⟩
    exact List.mem_map.2 ⟨(k, v), get?_eq_some_iff.1 h, rfl⟩

/-- No value is found exactly where there is no key. -/
theorem get?_eq_none_iff {t : Table κ ν} {k : κ} : t.get? k = none ↔ k ∉ t.keys := by
  rw [mem_keys_iff]
  cases t.get? k <;> simp

/-- A table contains its keys. -/
theorem contains_iff {t : Table κ ν} {k : κ} : t.contains k = true ↔ k ∈ t.keys := by
  rw [contains, Option.isSome_iff_exists, mem_keys_iff]

/-! ## Writing -/

/-- After an insertion the key has the new value and all others have theirs. -/
theorem get?_insert (t : Table κ ν) (k k' : κ) (v : ν) :
    (t.insert k v).get? k' = if k' = k then some v else t.get? k' := by
  by_cases h : k' = k
  · rw [if_pos h, h, get?_insert_self]
  · rw [if_neg h, get?_insert_of_ne t h]

theorem getD_insert (t : Table κ ν) (k k' : κ) (v d : ν) :
    (t.insert k v).getD k' d = if k' = k then v else t.getD k' d := by
  rw [getD, get?_insert]
  by_cases h : k' = k
  · rw [if_pos h, if_pos h, Option.getD_some]
  · rw [if_neg h, if_neg h, getD]

/-- An insertion adds one key. -/
theorem mem_keys_insert {t : Table κ ν} {k k' : κ} {v : ν} :
    k' ∈ (t.insert k v).keys ↔ k' = k ∨ k' ∈ t.keys := by
  rw [mem_keys_iff, get?_insert, mem_keys_iff]
  by_cases h : k' = k <;> simp [h]

/-- A new key goes to the end. -/
theorem upsert_of_not_mem {es : List (κ × ν)} {k : κ} (h : k ∉ es.map Prod.fst) (v : ν) :
    upsert k v es = es ++ [(k, v)] := by
  induction es with
  | nil => rfl
  | cons e rest ih =>
    rw [List.map_cons, List.mem_cons, not_or] at h
    rw [upsert, if_neg fun he => h.1 he.symm, ih h.2, List.cons_append]

/-- A new key goes to the end. -/
theorem entries_insert {t : Table κ ν} {k : κ} (h : k ∉ t.keys) (v : ν) :
    (t.insert k v).entries = t.entries ++ [(k, v)] := upsert_of_not_mem h v

theorem mem_keys_insertNew {t : Table κ ν} {k k' : κ} {v : ν} :
    k' ∈ (t.insertNew k v).keys ↔ k' = k ∨ k' ∈ t.keys := by
  rw [insertNew]
  split
  · next h =>
    rw [contains_iff] at h
    constructor
    · exact .inr
    · rintro (rfl | h')
      · exact h
      · exact h'
  · exact mem_keys_insert

/-- What is found after adding a pair was there or is the pair. -/
theorem get?_insertNew {t : Table κ ν} {k k' : κ} {v v' : ν}
    (h : (t.insertNew k v).get? k' = some v') :
    t.get? k' = some v' ∨ k' = k ∧ v' = v := by
  rw [insertNew] at h
  split at h
  · exact .inl h
  · rw [get?_insert] at h
    by_cases hk : k' = k
    · rw [if_pos hk, Option.some.injEq] at h
      exact .inr ⟨hk, h.symm⟩
    · rw [if_neg hk] at h
      exact .inl h

/-- Changing all values changes each one found. -/
theorem get?_map (f : κ → ν → μ) (t : Table κ ν) (k : κ) :
    (t.map f).get? k = (t.get? k).map (f k) := by
  apply Option.ext
  intro v
  rw [get?_eq_some_iff, Option.map_eq_some_iff]
  constructor
  · intro h
    obtain ⟨⟨k', v'⟩, hm, he⟩ := List.mem_map.1 h
    cases he
    exact ⟨v', get?_eq_some_iff.2 hm, rfl⟩
  · rintro ⟨v', hv, rfl⟩
    exact List.mem_map.2 ⟨(k, v'), get?_eq_some_iff.1 hv, rfl⟩

/-! ## Lists of pairs -/

/-- What is found after many insertions was inserted or there before. -/
theorem get?_insertAll {t : Table κ ν} {pairs : List (κ × ν)} {k : κ} {v : ν}
    (h : (t.insertAll pairs).get? k = some v) : (k, v) ∈ pairs ∨ t.get? k = some v := by
  induction pairs generalizing t with
  | nil => exact .inr h
  | cons e rest ih =>
    rcases ih h with hm | hv
    · exact .inl (List.mem_cons_of_mem e hm)
    · rw [get?_insert] at hv
      by_cases hk : k = e.1
      · rw [if_pos hk, Option.some.injEq] at hv
        subst hk hv
        exact .inl List.mem_cons_self
      · rw [if_neg hk] at hv
        exact .inr hv

/-- Many insertions add their keys. -/
theorem mem_keys_insertAll {t : Table κ ν} {pairs : List (κ × ν)} {k : κ} :
    k ∈ (t.insertAll pairs).keys ↔ k ∈ pairs.map Prod.fst ∨ k ∈ t.keys := by
  induction pairs generalizing t with
  | nil => simp [insertAll]
  | cons e rest ih =>
    have hstep : (t.insertAll (e :: rest)) = (t.insert e.1 e.2).insertAll rest := rfl
    rw [hstep, ih, mem_keys_insert, List.map_cons, List.mem_cons, or_left_comm, or_assoc]

/-- What a table of pairs holds is one of the pairs. -/
theorem mem_of_get?_ofList {pairs : List (κ × ν)} {k : κ} {v : ν}
    (h : (ofList pairs).get? k = some v) : (k, v) ∈ pairs := by
  rcases get?_insertAll h with hm | hv
  · exact hm
  · cases hv

/-- Inserting images of elements gives the images of what inserting the elements gives. -/
theorem get?_insertAll_map {α : Type} (key : α → κ) (f : α → ν) (as : List α) {t : Table κ ν}
    {t' : Table κ α} (h : ∀ k, t.get? k = (t'.get? k).map f) (k : κ) :
    (t.insertAll (as.map fun a => (key a, f a))).get? k =
      ((t'.insertAll (as.map fun a => (key a, a))).get? k).map f := by
  induction as generalizing t t' with
  | nil => exact h k
  | cons a as ih =>
    have hstep : ∀ k', (t.insert (key a) (f a)).get? k' =
        ((t'.insert (key a) a).get? k').map f := by
      intro k'
      rw [get?_insert, get?_insert, h k']
      by_cases hk : k' = key a <;> simp [hk]
    exact ih hstep

/-- A table of functions of things is a function of the table of the things. -/
theorem get?_ofList_map {α : Type} (key : α → κ) (f : α → ν) (as : List α) (k : κ) :
    (ofList (as.map fun a => (key a, f a))).get? k =
      ((ofList (as.map fun a => (key a, a))).get? k).map f :=
  get?_insertAll_map key f as (fun _ => rfl) k

/-- The keys of a table made of pairs are the keys of the pairs. -/
theorem mem_keys_ofList {pairs : List (κ × ν)} {k : κ} :
    k ∈ (ofList pairs).keys ↔ k ∈ pairs.map Prod.fst := by
  rw [ofList, mem_keys_insertAll]
  simp [empty, keys]

/-! ## What holds of all entries -/

/-- Every key with its value has a property. -/
def All (P : κ → ν → Prop) (t : Table κ ν) : Prop := ∀ k v, t.get? k = some v → P k v

namespace All

variable {P : κ → ν → Prop} {t : Table κ ν}

/-- Whatever is asked of entries holds of an empty table. -/
theorem empty : All P (empty : Table κ ν) := by
  intro k v hv
  cases hv

/-- It is kept by an insertion of an entry for which it holds. -/
theorem insert (h : t.All P) {k : κ} {v : ν} (hv : P k v) : (t.insert k v).All P := by
  intro k' v' hget
  rw [get?_insert] at hget
  by_cases hk : k' = k
  · rw [if_pos hk, Option.some.injEq] at hget
    rw [hk, ← hget]
    exact hv
  · rw [if_neg hk] at hget
    exact h k' v' hget

/-- It is kept by many such insertions. -/
theorem insertAll (h : t.All P) {pairs : List (κ × ν)} (hpairs : ∀ e ∈ pairs, P e.1 e.2) :
    (t.insertAll pairs).All P := by
  intro k v hget
  rcases get?_insertAll hget with hmem | hget
  · exact hpairs (k, v) hmem
  · exact h k v hget

/-- It holds of a table made of pairs for which it holds. -/
theorem ofList {pairs : List (κ × ν)} (hpairs : ∀ e ∈ pairs, P e.1 e.2) : (ofList pairs).All P :=
  empty.insertAll hpairs

/-- It goes over to changed values. -/
theorem map {Q : κ → μ → Prop} {f : κ → ν → μ} (h : t.All P) (hf : ∀ k v, P k v → Q k (f k v)) :
    (t.map f).All Q := by
  intro k v hget
  rw [get?_map] at hget
  obtain ⟨v', hv', rfl⟩ := Option.map_eq_some_iff.1 hget
  exact hf k v' (h k v' hv')

/-- It holds of each value. -/
theorem of_mem_values {R : ν → Prop} (h : t.All fun _ v => R v) {v : ν} (hv : v ∈ t.values) :
    R v := by
  obtain ⟨k, hk⟩ := mem_values_iff.1 hv
  exact h k v hk

end All

end Table

end Gradual
