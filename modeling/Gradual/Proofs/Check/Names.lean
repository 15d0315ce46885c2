import Gradual.Proofs.Calls.Named
import Gradual.Proofs.Calls.Readings
import Gradual.Proofs.Check.Findings

/-!
# What a name of a call stands for in a check

The call graph looks a name up among the declared routines. The walk and the judgement on calls look
it up among the signatures that the check ends with: those of other modules, and behind them those
of the routines, as they were read. Both prefer the exact spelling and else take the first same
word. So they come to the same routine for the spellings of the declarations, but for any other
spelling only if no other same word stands in front.

Main statement: `findEntry?_eq_iff`.
-/

namespace Gradual

variable {ω : Type}

namespace Table

variable {κ ν α : Type} [DecidableEq κ]

/-- Writing pairs with distinct keys makes each of them found. -/
theorem get?_insertAll_of_mem {t : Table κ ν} {pairs : List (κ × ν)}
    (hnodup : (pairs.map Prod.fst).Nodup) {k : κ} {v : ν} (h : (k, v) ∈ pairs) :
    (t.insertAll pairs).get? k = some v := by
  induction pairs using List.reverseRecOn with
  | nil => cases h
  | append_singleton pairs e ih =>
    have hlast : t.insertAll (pairs ++ [e]) = (t.insertAll pairs).insert e.1 e.2 :=
      List.foldl_append
    rw [List.map_append, List.nodup_append] at hnodup
    rw [hlast, get?_insert]
    rcases List.mem_append.1 h with h | h
    · have hne : k ≠ e.1 := fun heq => hnodup.2.2 k (List.mem_map_of_mem h) e.1 (by simp) heq
      rw [if_neg hne, ih hnodup.1 h]
    · rw [← List.mem_singleton.1 h, if_pos rfl]

theorem findWord?_of_get? {t : Table Text α} {name : Text} {a : α} (h : t.get? name = some a) :
    t.findWord? name = some a := by
  rw [findWord?, findEntry?, h]
  rfl

/-- An entry is found under the key that is. -/
theorem findEntry?_eq_iff_findKey? {t : Table Text α} {name k : Text} {a : α}
    (hk : t.get? k = some a) :
    t.findEntry? name = some (k, a) ↔ t.findKey? name = some k := by
  rw [findKey?]
  constructor
  · intro h
    rw [h, Option.map_some]
  · intro h
    obtain ⟨⟨k', a'⟩, hentry, rfl⟩ := Option.map_eq_some_iff.1 h
    have hsame : some a' = some a := (get?_of_entry hentry).symm.trans hk
    rw [hentry, Option.some.inj hsame]

end Table

namespace Program

variable [Weight ω] (file : Text) (externals : Signatures ω) (p : Program)

/-- The signatures of the routines, as they are read in a check. -/
def analyzed : Signatures ω :=
  (CallGraph.analyzeAll (.ofProgram p) (.make (.module file) externals) .empty).analyzed

/-- Reading all routines gives signatures to the declared ones. -/
theorem mem_keys_analyzed {name : Text} :
    name ∈ (p.analyzed file externals).keys ↔ name ∈ p.routineNames := by
  have hg : (CallGraph.ofProgram p : CallGraph ω).Faithful := CallGraph.faithful_ofProgram p
  obtain ⟨hreadings, hcons, -, hkeys⟩ :=
    @CallGraph.reads_readAll _ _ _ (.make (.module file) externals) hg (fun _ => pure none) 0
  rw [← CallGraph.mem_keys_iff_mem_routineNames (ω := ω), analyzed, ← hreadings]
  exact ⟨fun h => hcons.declared name (List.mem_append_left _ h), hkeys name⟩

/-- The checker knows the external functions and, over them, the routines that were analyzed. -/
theorem functions_check_eq : (p.check file externals).context.functions =
    externals.insertAll (p.analyzed file externals).entries := by
  rw [functions_check, Readings.extend_eq, analyzed, Context.make]

variable {name d : Text}

/-- The spelling of a declaration finds its own routine in a check. -/
theorem get?_functions_check (hd : d ∈ p.routineNames) :
    ∃ signature, (p.analyzed file externals).get? d = some signature ∧
      (p.check file externals).context.functions.get? d = some signature := by
  obtain ⟨signature, hget⟩ := Table.mem_keys_iff.1 ((p.mem_keys_analyzed file externals).2 hd)
  refine ⟨signature, hget, ?_⟩
  rw [functions_check_eq]
  exact Table.get?_insertAll_of_mem (p.analyzed file externals).nodup_keys
    (Table.get?_eq_some_iff.1 hget)

/-- The spelling that a check finds for a call of a declared routine. -/
theorem findKey?_check_iff (hd : p.resolve? name = some d) :
    (p.check file externals).context.functions.findKey? name = some d ↔
      name = d ∨ name ∉ externals.keys ∧
        (externals.keys ++ (p.analyzed file externals).keys).find?
          (fun k => k.lower == name.lower) = some d := by
  have hmem : name ∈ (externals.insertAll (p.analyzed file externals).entries).keys ↔
      name ∈ (p.analyzed file externals).keys ∨ name ∈ externals.keys := Table.mem_keys_insertAll
  rw [functions_check_eq, Table.findKey?_eq, Table.find?_keys_insertAll]
  by_cases hname : name = d
  · have hdeclared := (p.mem_keys_analyzed file externals).2 (mem_routineNames_of_resolve? hd)
    rw [if_pos (hmem.2 (.inl (hname ▸ hdeclared)))]
    simp [hname]
  · -- Among the routines the name would be found, and stand for itself.
    have hnot : name ∉ (p.analyzed file externals).keys := by
      intro h
      have hself := resolve?_of_mem ((p.mem_keys_analyzed file externals).1 h)
      exact hname (Option.some.inj (hself.symm.trans hd))
    by_cases hexternal : name ∈ externals.keys
    · rw [if_pos (hmem.2 (.inr hexternal))]
      simp [hname, hexternal]
    · rw [if_neg fun h => (hmem.1 h).elim hnot hexternal]
      simp only [hname, false_or, hexternal, not_false_eq_true, true_and]
      rfl

/-- **A name of a call in a check.** For every module and all signatures of other modules, let the
call graph resolve a name to a declared routine. The check has the signature that was made for the
routine, and finds it by the spelling of the declaration. By the name itself it finds this entry
exactly if the name has this spelling, or if it is not the name of a signature of another module and
the routine is the first same word among these and then the routines as they were read. So it does
whenever no other of them is the same word. -/
theorem findEntry?_eq_iff (hd : (CallGraph.ofProgram p : CallGraph ω).declaredName? name = some d) :
    let functions := (p.check file externals).context.functions
    ∃ signature, (p.analyzed file externals).get? d = some signature ∧
      functions.findWord? d = some signature ∧ (functions.findEntry? name = some (d, signature) ↔
        name = d ∨ name ∉ externals.keys ∧
          (externals.keys ++ (p.analyzed file externals).keys).find?
            (fun k => k.lower == name.lower) = some d) ∧
      ((∀ k ∈ externals.keys ++ p.routineNames, k.lower = name.lower → k = d) →
        functions.findWord? name = some signature) := by
  intro functions
  rw [CallGraph.declaredName?_ofProgram] at hd
  have hdeclared := mem_routineNames_of_resolve? hd
  obtain ⟨signature, hanalyzed, hget⟩ := p.get?_functions_check file externals hdeclared
  have hiff := (Table.findEntry?_eq_iff_findKey? hget).trans
    (p.findKey?_check_iff file externals hd)
  refine ⟨signature, hanalyzed, Table.findWord?_of_get? hget, hiff, fun halone => ?_⟩
  have hentry : functions.findEntry? name = some (d, signature) := by
    refine hiff.2 (or_iff_not_imp_left.2 fun hne => ⟨fun h => hne ?_, ?_⟩)
    · exact halone name (List.mem_append_left _ h) rfl
    · have hsome : ((externals.keys ++ (p.analyzed file externals).keys).find? fun k =>
          k.lower == name.lower).isSome = true := by
        rw [List.find?_isSome]
        have hkey := (p.mem_keys_analyzed file externals).2 hdeclared
        exact ⟨d, List.mem_append_right _ hkey, beq_iff_eq.2 (lower_of_resolve? hd)⟩
      obtain ⟨k, hk⟩ := Option.isSome_iff_exists.1 hsome
      have hmem : k ∈ externals.keys ++ p.routineNames := by
        rcases List.mem_append.1 (List.mem_of_find?_eq_some hk) with h | h
        · exact List.mem_append_left _ h
        · exact List.mem_append_right _ ((p.mem_keys_analyzed file externals).1 h)
      have hword : k.lower = name.lower := by simpa using List.find?_some hk
      rw [hk, halone k hmem hword]
  rw [Table.findWord?, hentry]
  rfl

/-- A module that declares one routine. -/
def declaring (d : Text) : Program := [.routine .procedure d [] [] false none]

/-- The signature of an exported routine of another module. -/
def exportedAs (d : Text) : Signatures Float := .ofList [(d, ⟨[], .void, true⟩)]

/-- The routine is found under another spelling if the signature of another module is no same
word. -/
theorem findEntry?_eq_iff_alone :
    let p := declaring "Main"
    (CallGraph.ofProgram p : CallGraph Float).declaredName? "MAIN" = some "Main" ∧
      (p.check "m" (exportedAs "other")).context.functions.findWord? "MAIN" =
        (p.analyzed "m" (exportedAs "other")).get? "Main" := by
  intro p
  have hd : (CallGraph.ofProgram p : CallGraph Float).declaredName? "MAIN" = some "Main" := by
    decide
  obtain ⟨signature, hanalyzed, -, -, halone⟩ := p.findEntry?_eq_iff "m" (exportedAs "other") hd
  exact ⟨hd, (halone (by decide)).trans hanalyzed.symm⟩

/-- It is not if the signature is one. -/
theorem not_findWord?_eq_analyzed :
    ¬ ∀ (file : Text) (externals : Signatures Float) (p : Program) (name d : Text),
      (CallGraph.ofProgram p : CallGraph Float).declaredName? name = some d →
        (p.check file externals).context.functions.findWord? name =
          (p.analyzed file externals).get? d := by
  intro h
  have hexported := congrArg (Option.map Signature.exported)
    (h "m" (exportedAs "main") (declaring "Main") "MAIN" "Main" (by decide))
  rw [functions_check_eq] at hexported
  exact absurd hexported (by decide)

end Program

end Gradual
