import Mathlib.Data.List.Dedup
import Mathlib.Data.List.Induction
import Gradual.Proofs.Calls.Declared
import Gradual.Proofs.Syntax.Parts

/-!
# What the names of calls stand for

A program declares routines under names. A later declaration of a name replaces an earlier one, and
a call stands for the routine of exactly its spelling, else for the first declared one that is the
same word. Both are said here of the statements of the program, and the call graph is shown to hold
nothing else.

Main statement: `calleesFirst?_orders_calls`. Routines can be ordered with the callees first exactly
when no routine leads back to itself along calls.
-/

namespace Gradual

/-! ## Tables of declarations -/

namespace Table

variable {κ ν : Type} [DecidableEq κ]

/-- The last of the pairs is inserted last. -/
theorem ofList_append_singleton (pairs : List (κ × ν)) (e : κ × ν) :
    ofList (pairs ++ [e]) = (ofList pairs).insert e.1 e.2 := by
  rw [ofList, ofList, insertAll, insertAll, List.foldl_append]
  rfl

/-- A table of pairs holds the last value of every key. -/
theorem get?_ofList (pairs : List (κ × ν)) (k : κ) :
    (ofList pairs).get? k =
      (pairs.filterMap fun e => if e.1 = k then some e.2 else none).getLast? := by
  induction pairs using List.reverseRecOn with
  | nil => rfl
  | append_singleton pairs e ih =>
    rw [ofList_append_singleton, get?_insert, ih, List.filterMap_append]
    by_cases h : k = e.1
    · simp [h]
    · have hne : ¬ e.1 = k := fun h' => h h'.symm
      rw [if_neg h]
      simp [hne]

/-- A test of the keys finds the first pair that passes it. -/
theorem find?_keys_insertAll (t : Table κ ν) (pairs : List (κ × ν)) (test : κ → Bool) :
    (t.insertAll pairs).keys.find? test = (t.keys ++ pairs.map Prod.fst).find? test := by
  induction pairs generalizing t with
  | nil => rw [List.map_nil, List.append_nil]; rfl
  | cons e pairs ih =>
    have hstep : t.insertAll (e :: pairs) = (t.insert e.1 e.2).insertAll pairs := rfl
    rw [hstep, ih, keys_insert, List.map_cons]
    by_cases hmem : e.1 ∈ t.keys
    · -- A key that is there already is not the first to pass the test.
      rw [if_pos hmem, List.find?_append, List.find?_append, List.find?_cons]
      cases hfind : t.keys.find? test with
      | some k => rfl
      | none =>
        have hfails : test e.1 = false := by simpa using List.find?_eq_none.1 hfind e.1 hmem
        rw [hfails]
    · rw [if_neg hmem, List.append_assoc, List.singleton_append]

/-- The first key that passes a test is the first such key of the pairs. -/
theorem find?_keys_ofList (pairs : List (κ × ν)) (test : κ → Bool) :
    (ofList pairs).keys.find? test = (pairs.map Prod.fst).find? test :=
  find?_keys_insertAll empty pairs test

/-- A name is found as it is spelled, else under its first other spelling. -/
theorem findKey?_eq {α : Type} (t : Table Text α) (name : Text) :
    t.findKey? name =
      if name ∈ t.keys then some name else t.keys.find? fun k => k.lower == name.lower := by
  rw [findKey?, findEntry?]
  cases hget : t.get? name with
  | some a => rw [if_pos (mem_keys_iff.2 ⟨a, hget⟩)]; rfl
  | none => rw [if_neg (get?_eq_none_iff.1 hget), keys, List.find?_map]; rfl

end Table

/-! ## Calls as they are written -/

/-- The call site of an expression that calls a name. -/
def Expr.callSite? : Expr → Option CallSite
  | .call (.ident name _) args loc => some ⟨name, args.length, true, loc⟩
  | _ => none

/-- The call site of a statement that calls a name. -/
def Stmt.callSite? : Stmt → Option CallSite
  | .call name none args loc => some ⟨name, args.length, false, loc⟩
  | _ => none

/-- The call sites of a statement itself: its own, and one for each expression at any depth in the
expressions of the statement that calls a name. -/
def Stmt.ownCalls (s : Stmt) : List CallSite :=
  s.callSite?.toList ++ (Expr.nodesIn s.expressions).filterMap Expr.callSite?

mutual

/-- The calls in an expression are those of the expressions in it that call a name. -/
theorem Expr.calls_eq_filterMap : (e : Expr) → e.calls = e.nodes.filterMap Expr.callSite?
  | .call callee args loc => by
    have hcallee := callee.calls_eq_filterMap
    have hargs := Expr.callsIn_eq_filterMap args
    rw [Expr.calls.eq_def, Expr.nodes]
    dsimp only
    cases callee with
    | ident name l =>
      have hfirst : (Expr.call (.ident name l) args loc).callSite? =
        some ⟨name, args.length, true, loc⟩ := rfl
      rw [List.filterMap_cons_some hfirst, List.filterMap_append, hargs]
      rfl
    | _ =>
      dsimp only
      rw [hcallee, hargs, List.filterMap_cons_none rfl, List.filterMap_append]
  | .binary _ left right _ => by
    rw [Expr.calls, Expr.nodes, List.filterMap_cons_none rfl, List.filterMap_append,
      left.calls_eq_filterMap, right.calls_eq_filterMap]
  | .unary _ operand _ => by
    rw [Expr.calls, Expr.nodes, List.filterMap_cons_none rfl, operand.calls_eq_filterMap]
  | .member object _ _ => by
    rw [Expr.calls, Expr.nodes, List.filterMap_cons_none rfl, object.calls_eq_filterMap]
  | .index object key _ => by
    rw [Expr.calls, Expr.nodes, List.filterMap_cons_none rfl, List.filterMap_append,
      object.calls_eq_filterMap, key.calls_eq_filterMap]
  | .new _ args _ => by
    rw [Expr.calls, Expr.nodes, List.filterMap_cons_none rfl, Expr.callsIn_eq_filterMap args]
  | .choice condition whenTrue whenFalse _ => by
    rw [Expr.calls, Expr.nodes, List.filterMap_cons_none rfl, List.filterMap_append,
      List.filterMap_append, condition.calls_eq_filterMap, whenTrue.calls_eq_filterMap,
      whenFalse.calls_eq_filterMap]
  | .array elements _ => by
    rw [Expr.calls, Expr.nodes, List.filterMap_cons_none rfl, Expr.callsIn_eq_filterMap elements]
  | .record fields _ => by
    rw [Expr.calls, Expr.nodes, List.filterMap_cons_none rfl,
      Expr.callsInFields_eq_filterMap fields]
  | .number .. | .string .. | .boolean .. | .date .. | .undefined _ | .null _ | .ident .. => rfl

/-- The calls in expressions, likewise. -/
theorem Expr.callsIn_eq_filterMap : (es : List Expr) →
    Expr.callsIn es = (Expr.nodesIn es).filterMap Expr.callSite?
  | [] => rfl
  | e :: rest => by
    rw [Expr.callsIn, Expr.nodesIn, List.filterMap_append, e.calls_eq_filterMap,
      Expr.callsIn_eq_filterMap rest]

/-- The calls in the values of fields, likewise. -/
theorem Expr.callsInFields_eq_filterMap : (fields : List (Text × Expr)) →
    Expr.callsInFields fields = (Expr.nodesInFields fields).filterMap Expr.callSite?
  | [] => rfl
  | (_, e) :: rest => by
    rw [Expr.callsInFields, Expr.nodesInFields, List.filterMap_append, e.calls_eq_filterMap,
      Expr.callsInFields_eq_filterMap rest]

end

/-- The calls of a statement's own are the one that it is and those in its expressions. -/
theorem Stmt.ownCalls_eq (s : Stmt) :
    s.ownCalls = s.callSite?.toList ++ Expr.callsIn s.expressions := by
  rw [ownCalls, Expr.callsIn_eq_filterMap]

/-- An expression that may be absent holds the calls that it holds as a list. -/
theorem Expr.callsIn_toList (value : Option Expr) :
    Expr.callsIn value.toList = Expr.callsInOption value := by
  cases value with
  | none => rfl
  | some e => exact List.append_nil _

/-- Blocks and conditions may change places, as they do in a chain of conditions. -/
theorem Stmt.chain_perm {first tests body rest : List CallSite} {parts more : List CallSite}
    (hbody : body.Perm parts) (hrest : rest.Perm (tests ++ more)) :
    (first ++ body ++ rest).Perm (first ++ tests ++ (parts ++ more)) := by
  rw [List.append_assoc, List.append_assoc]
  refine List.Perm.append_left first ((hbody.append hrest).trans ?_)
  rw [← List.append_assoc, ← List.append_assoc]
  exact List.perm_append_comm.append_right _

mutual

/-- The calls in a statement are those of the statements in it, each as often as it is written. -/
theorem Stmt.calls_perm : (s : Stmt) → s.calls.Perm (s.parts.flatMap Stmt.ownCalls)
  | .declare _ _ value _ | .ret value _ | .raise value _ => by
    rw [Stmt.calls, Stmt.parts, List.flatMap_singleton, Stmt.ownCalls_eq, Stmt.expressions,
      Expr.callsIn_toList]
    exact .refl _
  | .assign target value _ => by
    rw [Stmt.parts, List.flatMap_singleton, Stmt.ownCalls_eq]
    simp [Stmt.calls, Stmt.callSite?, Stmt.expressions, Expr.callsIn]
  | .call _ none args _ => by
    rw [Stmt.parts, List.flatMap_singleton, Stmt.ownCalls_eq]
    exact .refl _
  | .call _ (some object) args _ => by
    rw [Stmt.parts, List.flatMap_singleton, Stmt.ownCalls_eq]
    exact .refl _
  | .conditional c body rest _ => by
    rw [Stmt.calls, Stmt.parts, List.flatMap_cons, List.flatMap_append, Stmt.ownCalls_eq]
    exact Stmt.chain_perm (Stmt.callsIn_perm body) rest.calls_perm
  | .forTo _ first last body _ => by
    have hown : Expr.callsIn [first, last] = first.calls ++ last.calls := by simp [Expr.callsIn]
    rw [Stmt.calls, Stmt.parts, List.flatMap_cons, Stmt.ownCalls_eq, Stmt.expressions, hown]
    exact (Stmt.callsIn_perm body).append_left _
  | .forEach _ e body _ | .whileDo e body _ => by
    have hown : Expr.callsIn [e] = e.calls := List.append_nil _
    rw [Stmt.calls, Stmt.parts, List.flatMap_cons, Stmt.ownCalls_eq, Stmt.expressions, hown]
    exact (Stmt.callsIn_perm body).append_left _
  | .attempt body handler _ => by
    rw [Stmt.calls, Stmt.parts, List.flatMap_cons, List.flatMap_append]
    exact (Stmt.callsIn_perm body).append (Stmt.callsInHandler_perm handler)
  | .routine .. | .brk _ | .cont _ => .refl _

/-- The calls in a block, likewise. -/
theorem Stmt.callsIn_perm : (body : List Stmt) →
    (Stmt.callsIn body).Perm ((Stmt.partsIn body).flatMap Stmt.ownCalls)
  | [] => .refl _
  | s :: rest => by
    rw [Stmt.callsIn, Stmt.partsIn, List.flatMap_append]
    exact s.calls_perm.append (Stmt.callsIn_perm rest)

/-- The calls in the handler of an attempt, likewise. -/
theorem Stmt.callsInHandler_perm : (handler : Option (List Stmt)) →
    (Stmt.callsInHandler handler).Perm ((Stmt.partsInHandler handler).flatMap Stmt.ownCalls)
  | none => .refl _
  | some body => Stmt.callsIn_perm body

/-- The calls in the other ways of a conditional are those in their conditions, which stand in the
conditional itself, and those of the statements in their blocks. -/
theorem Alternative.calls_perm : (a : Alternative) →
    a.calls.Perm (Expr.callsIn a.tests ++ a.parts.flatMap Stmt.ownCalls)
  | .none => .refl _
  | .otherwise body => Stmt.callsIn_perm body
  | .elsif c body rest => by
    rw [Alternative.calls, Alternative.tests, Alternative.parts, Expr.callsIn, List.flatMap_append]
    exact Stmt.chain_perm (Stmt.callsIn_perm body) rest.calls_perm

end

/-! ## Declarations -/

/-- The name under which a statement declares a routine. -/
def Stmt.routineName? : Stmt → Option Text
  | .routine _ name _ _ _ _ => some name
  | _ => none

/-- The body of the routine that a statement declares under a name. -/
def Stmt.bodyOf? (f : Text) : Stmt → Option (List Stmt)
  | .routine _ name _ body _ _ => if name = f then some body else none
  | _ => none

namespace Program

/-- The names of the declared routines, in the order of the declarations. -/
def routineNames (p : Program) : List Text := p.filterMap Stmt.routineName?

/-- The body of a routine: that of its last declaration. -/
def body? (p : Program) (f : Text) : Option (List Stmt) := (p.filterMap (Stmt.bodyOf? f)).getLast?

/-- The declared routine that a name stands for: the one of exactly this spelling, else the first
declared one that is the same word. -/
def resolve? (p : Program) (name : Text) : Option Text :=
  (p.routineNames.find? fun d => d == name).or (p.routineNames.find? fun d => d.lower == name.lower)

/-- A routine contains a call whose name stands for another. -/
def Calls (p : Program) (f g : Text) : Prop :=
  ∃ body ∈ p.body? f, ∃ c ∈ Stmt.callsIn body, p.resolve? c.callee = some g

/-- A routine calls another if a call of a name that stands for the other is written in one of the
statements of its body, at any depth, and not in a routine there. -/
theorem calls_iff_written (p : Program) (f g : Text) :
    p.Calls f g ↔ ∃ body ∈ p.body? f, ∃ s ∈ Stmt.partsIn body, ∃ c ∈ s.ownCalls,
      p.resolve? c.callee = some g := by
  simp only [Calls, (Stmt.callsIn_perm _).mem_iff, List.mem_flatMap]
  grind

/-- A name is resolved to the routine of its spelling, else to the first one of another spelling. -/
theorem resolve?_eq (p : Program) (name : Text) :
    p.resolve? name =
      if name ∈ p.routineNames then some name
      else p.routineNames.find? fun d => d.lower == name.lower := by
  rw [resolve?]
  cases hfind : p.routineNames.find? fun d => d == name with
  | some d =>
    have hname : d = name := by simpa using List.find?_some hfind
    rw [if_pos (hname ▸ List.mem_of_find?_eq_some hfind), hname]
    rfl
  | none =>
    have hmem : name ∉ p.routineNames := fun h => by simpa using List.find?_eq_none.1 hfind name h
    rw [if_neg hmem]
    rfl

section

variable {p : Program} {name d : Text}

/-- The name of a routine is resolved to itself. -/
theorem resolve?_of_mem (hd : d ∈ p.routineNames) : p.resolve? d = some d := by
  rw [resolve?_eq, if_pos hd]

/-- A name is resolved to routines of the module only. -/
theorem mem_routineNames_of_resolve? (h : p.resolve? name = some d) : d ∈ p.routineNames := by
  rw [resolve?_eq] at h
  split at h
  · cases h
    assumption
  · exact List.mem_of_find?_eq_some h

/-- A name stands for the same word. -/
theorem lower_of_resolve? (h : p.resolve? name = some d) : d.lower = name.lower := by
  rw [resolve?_eq] at h
  split at h
  · rw [← Option.some.inj h]
  · simpa using List.find?_some h

end

end Program

/-! ## Call graphs -/

namespace CallGraph

variable {ω : Type}

/-- A routine has the name that its declaration gives it. -/
theorem name_ofStmt? (s : Stmt) :
    (Routine.ofStmt? s : Option (Routine ω)).map Routine.name = s.routineName? := by
  cases s <;> rfl

/-- The routines of a module have the names that are declared, in their order. -/
theorem map_name_routines (p : Program) :
    (p.filterMap (Routine.ofStmt? (ω := ω))).map Routine.name = p.routineNames := by
  rw [List.map_filterMap, Program.routineNames]
  exact List.filterMap_congr fun s _ => name_ofStmt? s

/-- The graph knows the routines that the module declares. -/
theorem mem_keys_iff_mem_routineNames {p : Program} {name : Text} :
    name ∈ (ofProgram p : CallGraph ω).routines.keys ↔ name ∈ p.routineNames := by
  rw [ofProgram, Table.mem_keys_ofList, List.map_map, ← map_name_routines (ω := ω)]
  rfl

/-- The routine that the graph lists under a name has the body of the last declaration. -/
theorem get?_routines (p : Program) (f : Text) :
    ((ofProgram p : CallGraph ω).routines.get? f).map Routine.body = p.body? f := by
  rw [ofProgram, Table.get?_ofList, List.filterMap_map, List.filterMap_filterMap,
    ← List.getLast?_map, List.map_filterMap, Program.body?]
  refine congrArg List.getLast? (List.filterMap_congr fun s _ => ?_)
  cases s with
  | routine kind name params body exported loc =>
    by_cases h : name = f <;> simp [Routine.ofStmt?, Stmt.bodyOf?, h]
  | _ => rfl

/-- The calls out of a routine are those in its body. -/
theorem callsFrom_ofProgram (p : Program) (f : Text) :
    (ofProgram p : CallGraph ω).callsFrom f = ((p.body? f).map Stmt.callsIn).getD [] := by
  have hg : (ofProgram p : CallGraph ω).Faithful := faithful_ofProgram p
  rw [← get?_routines (ω := ω)]
  cases hr : (ofProgram p : CallGraph ω).routines.get? f with
  | some r => rw [hg.callsFrom_eq f r hr]; rfl
  | none =>
    by_contra hne
    exact Table.get?_eq_none_iff.1 hr (hg.mem_keys f hne)

/-- The spelling of a declaration is the one under which the routine is listed. -/
theorem declaredName?_eq_findKey? (p : Program) (name : Text) :
    (ofProgram p : CallGraph ω).declaredName? name =
      (ofProgram p : CallGraph ω).routines.findKey? name := by
  have hg : (ofProgram p : CallGraph ω).Faithful := faithful_ofProgram p
  rw [declaredName?, routine?, Table.findWord?, Table.findKey?, Option.map_map]
  exact Option.map_congr fun e he => hg.name_eq e.1 e.2 (Table.get?_of_entry he)

/-- The graph resolves a name as the program does. -/
theorem declaredName?_ofProgram (p : Program) (name : Text) :
    (ofProgram p : CallGraph ω).declaredName? name = p.resolve? name := by
  have hfind : ∀ test : Text → Bool,
      (ofProgram p : CallGraph ω).routines.keys.find? test = p.routineNames.find? test := by
    intro test
    rw [ofProgram, Table.find?_keys_ofList, List.map_map, ← map_name_routines (ω := ω)]
    rfl
  rw [declaredName?_eq_findKey?, Table.findKey?_eq, hfind, Program.resolve?_eq]
  by_cases hmem : name ∈ p.routineNames
  · rw [if_pos hmem, if_pos (mem_keys_iff_mem_routineNames.2 hmem)]
  · rw [if_neg hmem, if_neg fun h => hmem (mem_keys_iff_mem_routineNames.1 h)]

end CallGraph

end Gradual
