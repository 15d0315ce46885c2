import Mathlib.Data.List.Induction
import Mathlib.Data.List.Perm.Basic
import Gradual.Json.Value
import Gradual.Proofs.Table

/-!
# Listing order

The keys of an object are listed with indices in front, from the least, and all others behind them
in the order in which they were first written. What is in this order already is listed as it stands,
so that listing twice is the same as listing once.

Main statements: `Table.listed_listing` and `Table.listing_ofList_of_listed` for tables,
`Json.members_inKeyOrder` for the fields of an object.
-/

namespace Gradual

namespace Text

/-- An index is written in one way. -/
theorem index?_inj {t t' : Text} {n : Nat} (h : t.index? = some n) (h' : t'.index? = some n) :
    t = t' := by
  have written : ∀ {u : Text}, u.index? = some n → ofNat n = u := by
    intro u hu
    unfold index? at hu
    dsimp only at hu
    split at hu
    · next hc =>
      cases hu
      simp only [Bool.and_eq_true, beq_iff_eq] at hc
      exact hc.1.2
    · cases hu
  rw [← written h, written h']

/-- Whether a key is listed before another one by what they are: indices come first, from the
least. -/
def Precedes (k k' : Text) : Prop :=
  match k.index?, k'.index? with
  | some i, some j => i < j
  | none, some _ => False
  | _, none => True

end Text

namespace Table

variable {ν : Type}

/-! ## Indices -/

/-- Placing an entry by its index adds it and loses none. -/
theorem placeByIndex_perm (i : Nat) (e : Text × ν) (xs : List (Nat × Text × ν)) :
    (placeByIndex i e xs).Perm ((i, e) :: xs) := by
  induction xs with
  | nil => exact .refl _
  | cons x xs ih =>
    rw [placeByIndex]
    split
    · exact .refl _
    · exact (ih.cons x).trans (.swap _ _ _)

/-- The indexed entries are those whose keys are indices. -/
theorem indexed_perm (es : List (Text × ν)) :
    (indexed es).Perm (es.filterMap fun e => e.1.index?.map fun i => (i, e)) := by
  induction es with
  | nil => exact .refl _
  | cons e es ih =>
    rw [indexed]
    cases hi : e.1.index? with
    | none => simpa [hi] using ih
    | some i => simpa [hi] using (placeByIndex_perm i e _).trans (ih.cons _)

/-- An entry is indexed by what its key says. -/
theorem mem_indexed_iff {es : List (Text × ν)} {i : Nat} {e : Text × ν} :
    (i, e) ∈ indexed es ↔ e ∈ es ∧ e.1.index? = some i := by
  rw [(indexed_perm es).mem_iff, List.mem_filterMap]
  constructor
  · rintro ⟨e', he', h⟩
    obtain ⟨j, hj, hje⟩ := Option.map_eq_some_iff.1 h
    cases hje
    exact ⟨he', hj⟩
  · rintro ⟨he, hi⟩
    exact ⟨e, he, by rw [hi, Option.map_some]⟩

/-- The place of an entry is behind those with smaller indices and in front of all others. -/
theorem placeByIndex_pairwise {i : Nat} {e : Text × ν} {xs : List (Nat × Text × ν)}
    (h : xs.Pairwise fun x y => x.1 < y.1) (hi : ∀ x ∈ xs, x.1 ≠ i) :
    (placeByIndex i e xs).Pairwise fun x y => x.1 < y.1 := by
  induction xs with
  | nil => exact List.pairwise_singleton _ _
  | cons x xs ih =>
    obtain ⟨hx, hxs⟩ := List.pairwise_cons.1 h
    rw [List.forall_mem_cons] at hi
    rw [placeByIndex]
    split
    · next hlt =>
      refine List.pairwise_cons.2 ⟨?_, h⟩
      exact List.forall_mem_cons.2 ⟨hlt, fun y hy => Nat.lt_trans hlt (hx y hy)⟩
    · next hlt =>
      refine List.pairwise_cons.2 ⟨fun y hy => ?_, ih hxs hi.2⟩
      rcases List.mem_cons.1 ((placeByIndex_perm i e xs).mem_iff.1 hy) with rfl | hy
      · have := hi.1
        show x.1 < i
        omega
      · exact hx y hy

/-- The indices rise, as no key is there twice. -/
theorem indexed_pairwise {es : List (Text × ν)} (h : (es.map Prod.fst).Nodup) :
    (indexed es).Pairwise fun x y => x.1 < y.1 := by
  induction es with
  | nil => exact .nil
  | cons e es ih =>
    obtain ⟨hnot, hes⟩ := List.nodup_cons.1 h
    rw [indexed]
    cases hi : e.1.index? with
    | none => exact ih hes
    | some i =>
      refine placeByIndex_pairwise (ih hes) ?_
      rintro ⟨j, e'⟩ he' rfl
      obtain ⟨hmem, hj⟩ := mem_indexed_iff.1 he'
      exact hnot (List.mem_map.2 ⟨e', hmem, Text.index?_inj hj hi⟩)

/-! ## Whole tables -/

/-- Whether keys are in listing order by what they are. -/
def Listed (es : List (Text × ν)) : Prop := (es.map Prod.fst).Pairwise Text.Precedes

/-- Leaving entries out keeps the listing order. -/
theorem Listed.filter {es : List (Text × ν)} (h : Listed es) (p : Text × ν → Bool) :
    Listed (es.filter p) :=
  List.Pairwise.sublist ((List.filter_sublist).map Prod.fst) h

/-- The listing moves entries and loses none. -/
theorem listing_perm (t : Table Text ν) : t.listing.Perm t.entries := by
  have hindexed : ((indexed t.entries).map Prod.snd).Perm
      (t.entries.filter fun e => e.1.index?.isSome) := by
    refine ((indexed_perm t.entries).map Prod.snd).trans (.of_eq ?_)
    induction t.entries with
    | nil => rfl
    | cons e es ih => cases hi : e.1.index? <;> simp [hi, ih]
  have hsplit := List.filter_append_perm (fun e : Text × ν => e.1.index?.isSome) t.entries
  refine (hindexed.append_right _).trans (.trans (.of_eq ?_) hsplit)
  simp

/-- An entry is listed exactly where it is in the table. -/
theorem mem_listing_iff {t : Table Text ν} {e : Text × ν} : e ∈ t.listing ↔ e ∈ t.entries :=
  (listing_perm t).mem_iff

/-- No key is listed twice. -/
theorem nodup_keys_listing (t : Table Text ν) : (t.listing.map Prod.fst).Nodup :=
  ((listing_perm t).map Prod.fst).nodup_iff.2 t.nodup_keys

/-- **A table is listed in listing order.** -/
theorem listed_listing (t : Table Text ν) : Listed t.listing := by
  unfold Listed listing
  rw [List.pairwise_map, List.pairwise_append]
  have hothers : ∀ e ∈ t.entries.filter fun e => e.1.index?.isNone, e.1.index? = none := fun e he =>
    Option.isNone_iff_eq_none.1 (List.mem_filter.1 he).2
  refine ⟨?_, ?_, ?_⟩
  · rw [List.pairwise_map]
    refine (indexed_pairwise t.nodup_keys).imp_of_mem ?_
    rintro ⟨i, e⟩ ⟨j, e'⟩ he he' hij
    rw [Text.Precedes, (mem_indexed_iff.1 he).2, (mem_indexed_iff.1 he').2]
    exact hij
  · refine List.pairwise_of_forall_mem_list ?_
    intro e he e' he'
    rw [Text.Precedes, hothers e he, hothers e' he']
    trivial
  · intro e he e' he'
    rw [Text.Precedes, hothers e' he']
    cases e.1.index? <;> trivial

/-- Keys that are no indices are listed in the order of the table. -/
theorem filter_keys_listing (t : Table Text ν) :
    (t.listing.map Prod.fst).filter (fun k => k.index?.isNone) = t.keys.filter fun k =>
      k.index?.isNone := by
  have hindexed : ((indexed t.entries).map Prod.snd).filter (fun e => e.1.index?.isNone) = [] := by
    rw [List.filter_eq_nil_iff]
    intro e he
    obtain ⟨⟨i, e⟩, hmem, rfl⟩ := List.mem_map.1 he
    simp [(mem_indexed_iff.1 hmem).2]
  rw [listing, keys, List.filter_map, List.filter_map, Function.comp_def, List.filter_append,
    hindexed, List.nil_append, List.filter_filter]
  simp

/-- Without indices among the keys nothing is indexed. -/
theorem indexed_eq_nil {es : List (Text × ν)} (h : ∀ e ∈ es, e.1.index? = none) :
    indexed es = [] := by
  induction es with
  | nil => rfl
  | cons e es ih =>
    rw [List.forall_mem_cons] at h
    rw [indexed, h.1]
    exact ih h.2

/-- An entry with the least index goes to the front. -/
theorem placeByIndex_of_lt {i : Nat} {e : Text × ν} {xs : List (Nat × Text × ν)}
    (h : ∀ x ∈ xs, i < x.1) :
    placeByIndex i e xs = (i, e) :: xs := by
  cases xs with
  | nil => rfl
  | cons x xs => rw [placeByIndex, if_pos (h x List.mem_cons_self)]

/-- What is in listing order is listed as it stands. -/
theorem listing_of_listed {t : Table Text ν} (h : Listed t.entries) : t.listing = t.entries := by
  unfold listing
  unfold Listed at h
  generalize t.entries = es at h ⊢
  induction es with
  | nil => rfl
  | cons e es ih =>
    rw [List.map_cons, List.pairwise_cons] at h
    obtain ⟨he, hes⟩ := h
    rw [indexed]
    cases hi : e.1.index? with
    | none =>
      -- Behind a key that is no index there are no indices.
      have hnone : ∀ e' ∈ es, e'.1.index? = none := by
        intro e' he'
        have hprecedes := he e'.1 (List.mem_map_of_mem he')
        rw [Text.Precedes, hi] at hprecedes
        cases hi' : e'.1.index? with
        | none => rfl
        | some j =>
          rw [hi'] at hprecedes
          exact hprecedes.elim
      have hfilter : (e :: es).filter (fun e => e.1.index?.isNone) = e :: es := by
        rw [List.filter_eq_self, List.forall_mem_cons]
        exact ⟨by rw [hi]; rfl, fun e' he' => by rw [hnone e' he']; rfl⟩
      dsimp only
      rw [indexed_eq_nil hnone, hfilter]
      rfl
    | some i =>
      have hlt : ∀ x ∈ indexed es, i < x.1 := by
        rintro ⟨j, e'⟩ he'
        obtain ⟨hmem, hj⟩ := mem_indexed_iff.1 he'
        have hprecedes := he e'.1 (List.mem_map_of_mem hmem)
        rw [Text.Precedes, hi, hj] at hprecedes
        exact hprecedes
      dsimp only
      rw [placeByIndex_of_lt hlt, List.filter_cons_of_neg (by simp [hi]), List.map_cons,
        List.cons_append, ih hes]

/-- New entries with different keys go to the end as they are. -/
theorem entries_insertAll {t : Table Text ν} {es : List (Text × ν)}
    (hnodup : (es.map Prod.fst).Nodup) (hnew : ∀ k ∈ es.map Prod.fst, k ∉ t.keys) :
    (t.insertAll es).entries = t.entries ++ es := by
  induction es generalizing t with
  | nil => rw [List.append_nil]; rfl
  | cons e es ih =>
    rw [List.map_cons, List.nodup_cons] at hnodup
    rw [List.map_cons, List.forall_mem_cons] at hnew
    have hstep : t.insertAll (e :: es) = (t.insert e.1 e.2).insertAll es := rfl
    rw [hstep, ih hnodup.2, entries_insert hnew.1, List.append_assoc, List.singleton_append]
    intro k hk hmem
    rcases mem_keys_insert.1 hmem with rfl | hmem
    · exact hnodup.1 hk
    · exact hnew.2 k hk hmem

/-- Without repeated keys, the entries of a table are the pairs. -/
theorem entries_ofList {es : List (Text × ν)} (h : (es.map Prod.fst).Nodup) :
    (ofList es).entries = es := by
  rw [ofList, entries_insertAll h (by simp [empty, keys])]
  rfl

/-- A table made of entries in listing order lists them as they are. -/
theorem listing_ofList_of_listed {es : List (Text × ν)} (hnodup : (es.map Prod.fst).Nodup)
    (h : Listed es) :
    (ofList es).listing = es := by
  rw [listing_of_listed (by rwa [entries_ofList hnodup]), entries_ofList hnodup]

/-- The keys of a table of pairs come in the order in which they were first written. -/
theorem keys_ofList_pairwise (es : List (Text × ν)) :
    (ofList es).keys.Pairwise fun k k' =>
      (es.map Prod.fst).idxOf k < (es.map Prod.fst).idxOf k' := by
  induction es using List.reverseRecOn with
  | nil => exact .nil
  | append_singleton es e ih =>
    have hstep : ofList (es ++ [e]) = (ofList es).insert e.1 e.2 := by
      unfold ofList insertAll
      rw [List.foldl_append]
      rfl
    have hold : ∀ k ∈ (ofList es).keys, ((es ++ [e]).map Prod.fst).idxOf k =
        (es.map Prod.fst).idxOf k := by
      intro k hk
      rw [List.map_append, List.idxOf_append_of_mem (mem_keys_ofList.1 hk)]
    have hpairwise : (ofList es).keys.Pairwise fun k k' =>
        ((es ++ [e]).map Prod.fst).idxOf k < ((es ++ [e]).map Prod.fst).idxOf k' := by
      refine ih.imp_of_mem ?_
      intro k k' hk hk' hlt
      rw [hold k hk, hold k' hk']
      exact hlt
    rw [hstep, keys_insert]
    split
    · exact hpairwise
    · next hnew =>
      rw [List.pairwise_append]
      refine ⟨hpairwise, List.pairwise_singleton _ _, ?_⟩
      intro k hk k' hk'
      rw [List.mem_singleton] at hk'
      subst hk'
      have hnot : e.1 ∉ es.map Prod.fst := fun hmem => hnew (mem_keys_ofList.2 hmem)
      rw [hold k hk, List.map_append, List.idxOf_append_of_notMem hnot]
      exact Nat.lt_of_lt_of_le (List.idxOf_lt_length_of_mem (mem_keys_ofList.1 hk))
        (Nat.le_add_right _ _)

end Table

/-! ## Objects -/

namespace Json

/-- Whether entries are those of an object in listing order: of fields with one name the last one
counts, indices come first from the least, and all other names follow in the order in which they
were first written. -/
structure InKeyOrder (fields entries : List (Text × Json)) : Prop where
  mem_iff : ∀ name value, (name, value) ∈ entries ↔ field? fields name = some value
  indicesFirst : Table.Listed entries
  othersAsWritten : ((entries.map Prod.fst).filter fun k => k.index?.isNone).Pairwise fun k k' =>
    (fields.map Prod.fst).idxOf k < (fields.map Prod.fst).idxOf k'

/-- The members of an object are its fields in key order. -/
theorem members_inKeyOrder (fields : List (Text × Json)) : InKeyOrder fields (members fields) where
  mem_iff name value := by rw [members, Table.mem_listing_iff, field?, Table.get?_eq_some_iff]
  indicesFirst := Table.listed_listing _
  othersAsWritten := by
    rw [members, Table.filter_keys_listing]
    exact (Table.keys_ofList_pairwise fields).sublist List.filter_sublist

end Json

end Gradual
