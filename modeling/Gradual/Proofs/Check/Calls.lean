import Gradual.Proofs.Check.Findings

/-!
# Every call is judged once

The walk of a check passes calls behind their arguments and enters the bodies of routines where they
are declared; the call sites of a block are listed in front of those in their arguments, and without
those of routines. Both pass the same calls. So the findings about calls are the verdicts on the
call sites of the module and of all routines in it, each given once.

Main statement: `call_diagnostics_perm`.
-/

namespace Gradual

variable {ω : Type}

/-! ## Call sites of a module -/

mutual

/-- The bodies of the routines that a statement declares, at any depth. -/
def Stmt.bodies : Stmt → List (List Stmt)
  | .routine _ _ _ body _ _ => body :: Stmt.bodiesIn body
  | .conditional _ body rest _ => Stmt.bodiesIn body ++ rest.bodies
  | .forTo _ _ _ body _ | .forEach _ _ body _ | .whileDo _ body _ => Stmt.bodiesIn body
  | .attempt body handler _ => Stmt.bodiesIn body ++ Stmt.bodiesInHandler handler
  | .declare .. | .assign .. | .call .. | .ret .. | .raise .. | .brk _ | .cont _ => []

/-- The bodies of the routines that a block declares. -/
def Stmt.bodiesIn : List Stmt → List (List Stmt)
  | [] => []
  | s :: rest => s.bodies ++ Stmt.bodiesIn rest

/-- The bodies of the routines that the handler of an attempt declares. -/
def Stmt.bodiesInHandler : Option (List Stmt) → List (List Stmt)
  | some body => Stmt.bodiesIn body
  | none => []

/-- The bodies of the routines that the other ways of a conditional declare. -/
def Alternative.bodies : Alternative → List (List Stmt)
  | .none => []
  | .otherwise body => Stmt.bodiesIn body
  | .elsif _ body rest => Stmt.bodiesIn body ++ rest.bodies

end

/-- The call sites of a module: those of its own statements and of the body of every routine. -/
def Program.callSites (p : Program) : List CallSite := (p :: Stmt.bodiesIn p).flatMap Stmt.callsIn

/-! ## Verdicts -/

namespace Table

variable {α : Type} {t : Table Text α} {name : Text}

/-- A name finds the entry of exactly its spelling, else the first entry that is the same word. -/
theorem findEntry?_eq_some_iff {k : Text} {a : α} :
    t.findEntry? name = some (k, a) ↔ (k = name ∧ t.get? name = some a) ∨
      (name ∉ t.keys ∧ k.lower = name.lower ∧ ∃ before after,
        t.entries = before ++ (k, a) :: after ∧ ∀ e ∈ before, e.1.lower ≠ name.lower) := by
  rw [Table.findEntry?]
  cases hget : t.get? name with
  | some b =>
    have hmem : name ∈ t.keys := mem_keys_iff.2 ⟨b, hget⟩
    simp [hmem, eq_comm]
  | none =>
    have hmem : name ∉ t.keys := get?_eq_none_iff.1 hget
    simp [hmem, List.find?_eq_some_iff_append]

/-- A name finds nothing if no entry is the same word. -/
theorem findEntry?_eq_none_iff :
    t.findEntry? name = none ↔ ∀ k ∈ t.keys, k.lower ≠ name.lower := by
  rw [Table.findEntry?]
  cases hget : t.get? name with
  | some b =>
    have hmem : name ∈ t.keys := mem_keys_iff.2 ⟨b, hget⟩
    simp only [reduceCtorEq, false_iff]
    exact fun h => h name hmem rfl
  | none => simp [keys]

end Table

namespace CallSite

/-- The parameters of what a call finds, each with whether it can be left out: those of the
signature under its name, else of the global function of this name. -/
def optional? (functions : Signatures ω) (c : CallSite) : Option (List Bool) :=
  match functions.findWord? c.callee with
  | some signature => some (signature.params.map SignatureParam.optional)
  | none => (GlobalFunction.find? (ω := ω) c.callee).map fun f => f.params.map GlobalParam.optional

/-- The verdict on a call: its name finds nothing, or it passes more arguments than there are
parameters or fewer than cannot be left out. -/
def verdict? (functions : Signatures ω) (c : CallSite) : Option Finding :=
  match c.optional? functions with
  | none => some (.unknownFunction c.callee)
  | some flags =>
    if flags.length < c.count ∨ c.count < flags.count false then
      some (.argumentCount c.callee flags.length c.count)
    else none

/-- A call is judged by the signature of exactly its name, else by the first one under the same
word. A global function is asked for only if there is neither. -/
theorem optional?_eq_some_iff {functions : Signatures ω} {c : CallSite} {flags : List Bool} :
    c.optional? functions = some flags ↔
      (∃ k signature, functions.findEntry? c.callee = some (k, signature) ∧
        flags = signature.params.map SignatureParam.optional) ∨
      (∀ k ∈ functions.keys, k.lower ≠ c.callee.lower) ∧
        ∃ f, GlobalFunction.find? (ω := ω) c.callee = some f ∧
          flags = f.params.map GlobalParam.optional := by
  rw [← Table.findEntry?_eq_none_iff, optional?, Table.findWord?]
  cases functions.findEntry? c.callee with
  | some e =>
    obtain ⟨k, signature⟩ := e
    simp [eq_comm]
  | none => simp [eq_comm]

/-- Calls are judged by this rule. -/
theorem verdict?_eq (functions : Signatures ω) (c : CallSite) :
    c.verdict? functions = Finding.ofCall? functions c.callee c.count := by
  have hcount : ∀ {α : Type} (flag : α → Bool) (as : List α),
      (as.map flag).count false = as.countP fun a => !flag a := by
    intro α flag as
    rw [List.count, List.countP_map]
    refine List.countP_congr fun a _ => ?_
    cases h : flag a <;> simp [h]
  rw [verdict?, optional?, Finding.ofCall?, Finding.arity?]
  cases functions.findWord? c.callee with
  | some signature =>
    simp only [Bool.or_eq_true, decide_eq_true_eq, List.length_map, hcount]
    rfl
  | none =>
    cases GlobalFunction.find? (ω := ω) c.callee with
    | some f =>
      simp only [Option.map_some, Bool.or_eq_true, decide_eq_true_eq, List.length_map, hcount]
      rfl
    | none => rfl

/-- A call site as a use of its name. -/
def asUse (c : CallSite) : Use := .call c.callee c.count c.loc

end CallSite

/-! ## Calls among visits -/

/-- Whether a use is a call. -/
def Use.isCall : Use → Bool
  | .call .. => true
  | .read .. => false

/-- The call that is made at a visit. -/
def Visit.call? : Visit → Option Use
  | .pass m _ => if m.isCall then some m else none
  | .fork .. => none

mutual

/-- The calls among the uses in an expression are its call sites. -/
theorem Expr.calls_uses : (e : Expr) → (e.uses.filter Use.isCall).Perm (e.calls.map CallSite.asUse)
  | .call callee args loc => by
    have hcallee := callee.calls_uses
    have hargs := Expr.callsIn_uses args
    rw [Expr.uses.eq_def, Expr.calls.eq_def]
    dsimp only
    rw [List.filter_append, List.map_append]
    refine (hargs.append ?_).trans List.perm_append_comm
    cases callee with
    | ident name l => exact List.Perm.refl _
    | _ => exact hcallee
  | .binary _ left right _ => by
    rw [Expr.uses, Expr.calls, List.filter_append, List.map_append]
    exact left.calls_uses.append right.calls_uses
  | .unary _ operand _ => operand.calls_uses
  | .member object _ _ => object.calls_uses
  | .index object key _ => by
    rw [Expr.uses, Expr.calls, List.filter_append, List.map_append]
    exact object.calls_uses.append key.calls_uses
  | .new _ args _ => Expr.callsIn_uses args
  | .choice condition whenTrue whenFalse _ => by
    rw [Expr.uses, Expr.calls, List.filter_append, List.filter_append, List.append_assoc,
      List.map_append, List.map_append]
    exact condition.calls_uses.append (whenTrue.calls_uses.append whenFalse.calls_uses)
  | .array elements _ => Expr.callsIn_uses elements
  | .record fields _ => Expr.callsInFields_uses fields
  | .number .. | .string .. | .boolean .. | .date .. | .undefined _ | .null _
  | .ident .. => List.Perm.refl _

/-- The calls among the uses of expressions are the calls they hold. -/
theorem Expr.callsIn_uses : (es : List Expr) →
    ((Expr.usesIn es).filter Use.isCall).Perm ((Expr.callsIn es).map CallSite.asUse)
  | [] => List.Perm.refl _
  | e :: rest => by
    rw [Expr.usesIn, Expr.callsIn, List.filter_append, List.map_append]
    exact e.calls_uses.append (Expr.callsIn_uses rest)

theorem Expr.callsInFields_uses : (fields : List (Text × Expr)) →
    ((Expr.usesInFields fields).filter Use.isCall).Perm
      ((Expr.callsInFields fields).map CallSite.asUse)
  | [] => List.Perm.refl _
  | (_, e) :: rest => by
    rw [Expr.usesInFields, Expr.callsInFields, List.filter_append, List.map_append]
    exact e.calls_uses.append (Expr.callsInFields_uses rest)

end

theorem Expr.callsInOption_uses (value : Option Expr) :
    ((Expr.usesInOption value).filter Use.isCall).Perm
      ((Expr.callsInOption value).map CallSite.asUse) := by
  cases value with
  | none => exact List.Perm.refl _
  | some e => exact e.calls_uses

/-- Assigning to a variable calls nothing, and any other target is visited. -/
theorem Expr.calls_targetUses (e : Expr) :
    (e.targetUses.filter Use.isCall).Perm (e.calls.map CallSite.asUse) := by
  have huses := e.calls_uses
  cases e with
  | ident name l => exact List.Perm.refl _
  | _ => exact huses

/-- The calls among the visits are the call sites and those of the bodies. -/
def Covers (vs : List Visit) (sites : List CallSite) (bodies : List (List Stmt)) : Prop :=
  (vs.filterMap Visit.call?).Perm ((sites ++ bodies.flatMap Stmt.callsIn).map CallSite.asUse)

namespace Covers

variable {vs ws : List Visit} {sites more : List CallSite} {bodies others : List (List Stmt)}

theorem nil : Covers [] [] [] := List.Perm.refl _

/-- Uses cover the calls among them. -/
theorem uses {ms : List Use} (h : (ms.filter Use.isCall).Perm (sites.map CallSite.asUse))
    (names : Finset Text) :
    Covers (Use.visits names ms) sites [] := by
  have hcalls : (Use.visits names ms).filterMap Visit.call? = ms.filter Use.isCall := by
    rw [Use.visits, List.filterMap_map, ← List.filterMap_eq_filter]
    rfl
  rw [Covers, hcalls, List.flatMap_nil, List.append_nil]
  exact h

/-- Visits that cover calls may follow each other. -/
theorem append (h : Covers vs sites bodies) (h' : Covers ws more others) :
    Covers (vs ++ ws) (sites ++ more) (bodies ++ others) := by
  rw [Covers, List.filterMap_append, List.flatMap_append]
  refine (List.Perm.append h h').trans ?_
  -- The sites of both parts change places with the bodies of the first.
  rw [← List.map_append]
  refine List.Perm.map CallSite.asUse ?_
  rw [List.append_assoc, List.append_assoc]
  refine List.Perm.append_left sites ?_
  rw [← List.append_assoc, ← List.append_assoc]
  exact List.perm_append_comm.append_right _

/-- A fork is visited after its condition and before both ways. -/
theorem fork (c : Expr) (names : Finset Text) (h : Covers vs sites bodies)
    (h' : Covers ws more others) :
    Covers (Use.visits names c.uses ++ .fork c names :: (vs ++ ws)) (c.calls ++ sites ++ more)
      (bodies ++ others) := by
  have hways : Covers (.fork c names :: (vs ++ ws)) (sites ++ more) (bodies ++ others) :=
    h.append h'
  rw [List.append_assoc]
  exact (uses c.calls_uses names).append hways

/-- Behind a declaration the calls of the body are no longer those of the block, but of a
routine. -/
theorem routine {body : List Stmt} (h : Covers vs (Stmt.callsIn body) bodies) :
    Covers vs [] (body :: bodies) := h

end Covers

section

variable (given : Expr → Finset Text)

mutual

/-- The visits of a statement cover its calls and those of the routines in it. -/
theorem covers_statement : (s : Stmt) → (names : Finset Text) →
    Covers (s.visits given names) s.calls s.bodies
  | .declare _ _ value _, names | .ret value _, names | .raise value _, names =>
    .uses (Expr.callsInOption_uses value) names
  | .assign target value _, names => by
    refine .uses ?_ names
    rw [List.filter_append, Stmt.calls, List.map_append]
    exact target.calls_targetUses.append value.calls_uses
  | .routine _ _ params body _ _, names => .routine (covers_block body _)
  | .call name none args loc, names => by
    refine .uses ?_ names
    -- The walk passes the call behind its arguments, the sites list it in front of them.
    rw [List.filter_append, Stmt.calls, List.map_cons]
    exact (List.perm_append_singleton _ _).trans ((Expr.callsIn_uses args).cons _)
  | .call _ (some object) args _, names => by
    refine .uses ?_ names
    rw [List.filter_append, Stmt.calls, List.map_append]
    exact object.calls_uses.append (Expr.callsIn_uses args)
  | .conditional c body rest _, names =>
    .fork c names (covers_block body _) (covers_alternative rest _ _)
  | .forTo name first last body _, names => by
    refine .append (.uses ?_ names) (covers_block body _)
    rw [List.filter_append, List.map_append]
    exact first.calls_uses.append last.calls_uses
  | .forEach name collection body _, names =>
    .append (.uses collection.calls_uses names) (covers_block body _)
  | .whileDo c body _, names => .append (.uses c.calls_uses names) (covers_block body _)
  | .attempt body handler _, names => .append (covers_block body _) (covers_handlerBlock handler _)
  | .brk _, _ | .cont _, _ => .nil

/-- The visits of a block cover its calls and those of the bodies inside. -/
theorem covers_block : (body : List Stmt) → (names : Finset Text) →
    Covers (Stmt.visitsIn given body names) (Stmt.callsIn body) (Stmt.bodiesIn body)
  | [], _ => .nil
  | s :: rest, names => (covers_statement s names).append (covers_block rest _)

theorem covers_handlerBlock : (handler : Option (List Stmt)) → (names : Finset Text) →
    Covers (Stmt.visitsInHandler given handler names) (Stmt.callsInHandler handler)
      (Stmt.bodiesInHandler handler)
  | none, _ => .nil
  | some body, names => covers_block body names

theorem covers_alternative : (a : Alternative) → (gained names : Finset Text) →
    Covers (a.visits given gained names) a.calls a.bodies
  | .none, _, _ => .nil
  | .otherwise body, _, _ => covers_block body _
  | .elsif c body rest, _, _ => .fork c _ (covers_block body _) (covers_alternative rest _ _)

end

end

/-! ## Judgements -/

/-- The diagnostic of the verdict on a call. -/
def CallSite.diagnose (file : Text) (functions : Signatures ω) (c : CallSite) : Option Diagnostic :=
  (c.verdict? functions).map (Finding.toDiagnostic file c.loc)

/-- A call is diagnosed as the use that it is. -/
theorem CallSite.diagnose_asUse (file : Text) (functions : Signatures ω) (c : CallSite) :
    c.asUse.diagnose file functions = c.diagnose file functions := by
  rw [diagnose, verdict?_eq]
  rfl

/-- Only the calls among uses are judged as calls. -/
theorem filter_diagnose_uses (file : Text) (functions : Signatures ω) (ms : List Use) :
    (ms.filterMap (Use.diagnose file functions)).filter (fun d => d.code.isAboutCall) =
      (ms.filter Use.isCall).filterMap (Use.diagnose file functions) := by
  rw [List.filter_filterMap, List.filterMap_filter]
  refine List.filterMap_congr fun m _ => ?_
  cases m with
  | call name count loc =>
    cases h : Finding.ofCall? functions name count with
    | none => simp [Use.diagnose, Use.isCall, h]
    | some finding =>
      simp [Use.diagnose, Use.isCall, h, Finding.toDiagnostic, Finding.isAboutCall_ofCall? h]
  | read name loc => rfl

/-- A walk tells about all calls that it visits. -/
theorem filter_told (vs : List Visit) :
    (vs.filterMap Visit.told?).filter Use.isCall = vs.filterMap Visit.call? := by
  rw [List.filter_filterMap]
  refine List.filterMap_congr fun v _ => ?_
  cases v with
  | pass m names =>
    cases m with
    | call name count loc => rfl
    | read name loc =>
      by_cases h : name ∈ names <;> simp [Visit.told?, Use.told?, Visit.call?, h, Use.isCall]
  | fork c names => rfl

/-- **Every call is judged once.** For every module and all signatures of other modules, the
findings of a check about the number of arguments and about unknown functions are, each as often as
it occurs, the verdicts on the call sites of the module and of all routines in it, however they are
nested, under the signatures that the check ends with. -/
theorem Program.call_diagnostics_perm [Weight ω] (file : Text) (externals : Signatures ω)
    (p : Program) :
    let result := p.check file externals
    (result.diagnostics.filter fun d => d.code = .argumentCount ∨ d.code = .unknownFunction).Perm
      (p.callSites.filterMap (CallSite.diagnose file result.context.functions)) := by
  intro result
  have hcodes : (fun d : Diagnostic =>
    decide (d.code = .argumentCount ∨ d.code = .unknownFunction)) =
      fun d => d.code.isAboutCall := by
    funext d
    cases d.code <;> rfl
  have hcalls : ((Stmt.visitsIn Narrowing.subjects p ∅).filterMap Visit.call?).Perm
      (p.callSites.map CallSite.asUse) := covers_block Narrowing.subjects p ∅
  rw [hcodes, diagnostics_of_uses (fun c => Code.isAboutCall_of_needsTypes), filter_diagnose_uses,
    filter_told]
  refine (hcalls.filterMap _).trans (List.Perm.of_eq ?_)
  rw [List.filterMap_map]
  refine List.filterMap_congr fun c _ => ?_
  rw [Function.comp_apply, CallSite.diagnose_asUse]

end Gradual
