/-!
# Tables in insertion order

A table is a finite map that lists its keys in the order in which they first came in. Writing to a
key that is already present changes its value and keeps its place. What a table shows in order
(variables, functions, graph nodes) is this order, so it is part of the type; so is the fact that no
key is listed twice.

Main statements: `get?_insert_self`, `get?_insert_of_ne`, and `keys_insert`, which says where a key
goes.
-/

namespace Gradual

/-- A finite map with its keys in the order of their first insertion. -/
structure Table (κ ν : Type) where
  entries : List (κ × ν)
  nodup_keys : (entries.map Prod.fst).Nodup

namespace Table

variable {κ ν μ : Type}

/-! ## Entry lists -/

section Entries

variable [DecidableEq κ]

/-- Replaces the value of a key where the key stands, or adds the pair at the end. -/
def upsert (k : κ) (v : ν) : List (κ × ν) → List (κ × ν)
  | [] => [(k, v)]
  | e :: rest => if e.1 = k then (k, v) :: rest else e :: upsert k v rest

/-- The value of the first entry with a key. -/
def valueAt (k : κ) : List (κ × ν) → Option ν
  | [] => none
  | e :: rest => if e.1 = k then some e.2 else valueAt k rest

/-- An insertion keeps the keys in their order and puts a new one at the end. -/
theorem map_fst_upsert (k : κ) (v : ν) (es : List (κ × ν)) :
    (upsert k v es).map Prod.fst =
      if k ∈ es.map Prod.fst then es.map Prod.fst else es.map Prod.fst ++ [k] := by
  induction es with
  | nil => simp [upsert]
  | cons e rest ih =>
    by_cases h : e.1 = k
    · simp [upsert, h]
    · have hk : ¬ k = e.1 := fun h' => h h'.symm
      by_cases hm : k ∈ rest.map Prod.fst
      · simp only [upsert, h, if_false, List.map_cons, ih, hm, if_true, List.mem_cons, or_true]
      · simp only [upsert, h, if_false, List.map_cons, ih, hm, List.mem_cons, hk, or_self,
          List.cons_append]

theorem nodup_upsert (k : κ) (v : ν) (es : List (κ × ν)) (h : (es.map Prod.fst).Nodup) :
    ((upsert k v es).map Prod.fst).Nodup := by
  rw [map_fst_upsert]
  split
  · exact h
  · rename_i hk
    rw [List.nodup_append]
    refine ⟨h, by simp, ?_⟩
    intro a ha b hb hab
    simp only [List.mem_singleton] at hb
    subst hb
    exact hk (hab ▸ ha)

theorem valueAt_upsert_self (k : κ) (v : ν) (es : List (κ × ν)) :
    valueAt k (upsert k v es) = some v := by
  induction es with
  | nil => simp [upsert, valueAt]
  | cons e rest ih => by_cases h : e.1 = k <;> simp [upsert, valueAt, h, ih]

theorem valueAt_upsert_of_ne {k k' : κ} (hne : k' ≠ k) (v : ν) (es : List (κ × ν)) :
    valueAt k' (upsert k v es) = valueAt k' es := by
  induction es with
  | nil => simp [upsert, valueAt, hne.symm]
  | cons e rest ih =>
    by_cases h : e.1 = k
    · simp [upsert, valueAt, h, hne.symm]
    · simp [upsert, valueAt, h, ih]

end Entries

/-! ## Tables -/

/-- The table without entries. -/
def empty : Table κ ν := ⟨[], by simp⟩

instance : Inhabited (Table κ ν) := ⟨empty⟩

instance : EmptyCollection (Table κ ν) := ⟨empty⟩

/-- The keys in order. -/
def keys (t : Table κ ν) : List κ := t.entries.map Prod.fst

/-- The values in the order of their keys. -/
def values (t : Table κ ν) : List ν := t.entries.map Prod.snd

/-- The number of keys. -/
def size (t : Table κ ν) : Nat := t.entries.length

/-- Changes every value and keeps the keys in place. -/
def map (f : κ → ν → μ) (t : Table κ ν) : Table κ μ :=
  ⟨t.entries.map fun e => (e.1, f e.1 e.2), by simpa [List.map_map,
    Function.comp_def] using t.nodup_keys⟩

section Lookup

variable [DecidableEq κ]

/-- The value of a key. -/
def get? (t : Table κ ν) (k : κ) : Option ν := valueAt k t.entries

/-- Whether a key is present. -/
def contains (t : Table κ ν) (k : κ) : Bool := (t.get? k).isSome

/-- The value of a key, or a given one where the key is absent. -/
def getD (t : Table κ ν) (k : κ) (v : ν) : ν := (t.get? k).getD v

/-- Writes a value: in place when the key is present, else at the end. -/
def insert (t : Table κ ν) (k : κ) (v : ν) : Table κ ν :=
  ⟨upsert k v t.entries, nodup_upsert k v _ t.nodup_keys⟩

/-- Writes a value only when the key is absent. -/
def insertNew (t : Table κ ν) (k : κ) (v : ν) : Table κ ν :=
  if t.contains k then t else t.insert k v

/-- Writes the pairs one after the other. -/
def insertAll (t : Table κ ν) (pairs : List (κ × ν)) : Table κ ν :=
  pairs.foldl (fun t e => t.insert e.1 e.2) t

/-- The table of a list of pairs: a repeated key keeps its first place and takes its last value. -/
def ofList (pairs : List (κ × ν)) : Table κ ν := insertAll empty pairs

@[simp] theorem get?_empty (k : κ) : (empty : Table κ ν).get? k = none := rfl

@[simp] theorem get?_insert_self (t : Table κ ν) (k : κ) (v : ν) : (t.insert k v).get? k = some v :=
  valueAt_upsert_self k v t.entries

theorem get?_insert_of_ne (t : Table κ ν) {k k' : κ} (hne : k' ≠ k) (v : ν) :
    (t.insert k v).get? k' = t.get? k' :=
  valueAt_upsert_of_ne hne v t.entries

/-- A key that is present keeps its place; a new one goes to the end. -/
theorem keys_insert (t : Table κ ν) (k : κ) (v : ν) :
    (t.insert k v).keys = if k ∈ t.keys then t.keys else t.keys ++ [k] :=
  map_fst_upsert k v t.entries

end Lookup

end Table

end Gradual
