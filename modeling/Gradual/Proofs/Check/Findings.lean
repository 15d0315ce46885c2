import Gradual.Checker
import Gradual.Proofs.Flow.Visits

/-!
# Findings that need no types

A check judges what its walk tells. Findings about operands and assignments depend on types; those
about calls and about variables without a value follow from the uses of the visits alone.

Main statement: `diagnostics_of_uses`.
-/

namespace Gradual

variable {ω : Type}

/-! ## Codes -/

/-- The codes of findings that depend on the types of values. -/
def Code.needsTypes : Code → Bool
  | .operandType | .reassignment => true
  | _ => false

/-- The codes of findings about calls. -/
def Code.isAboutCall : Code → Bool
  | .argumentCount | .unknownFunction => true
  | _ => false

/-- A finding that needs types is not about a call. -/
theorem Code.isAboutCall_of_needsTypes {c : Code} (h : c.needsTypes = true) :
    c.isAboutCall = false := by
  cases c with
  | argumentCount | unknownFunction => cases h
  | _ => rfl

namespace Finding

/-- What is found on a call is about a call. -/
theorem isAboutCall_ofCall? {functions : Signatures ω} {name : Text} {count : Nat}
    {finding : Finding} (h : ofCall? functions name count = some finding) :
    finding.code.isAboutCall = true := by
  rw [ofCall?] at h
  split at h
  · cases h
    rfl
  · split at h
    · cases h
      rfl
    · cases h

variable [Weight ω]

theorem code_ofOperator? {operation : Operation} {operands : List (Resolution ω)}
    {finding : Finding} (h : ofOperator? operation operands = some finding) :
    finding.code = .operandType := by
  rw [ofOperator?.eq_def] at h
  split at h
  · split at h
    · cases h
      rfl
    · cases h
  · split at h
    · cases h
      rfl
    · cases h
  · cases h

theorem code_ofCondition? {type : Resolution ω} {finding : Finding}
    (h : ofCondition? type = some finding) :
    finding.code = .operandType := by
  rw [ofCondition?.eq_def] at h
  split at h
  · split at h
    · cases h
      rfl
    · cases h
  · cases h

theorem code_ofAssignment? {name : Text} {previous : Option (Resolution ω)} {next : Resolution ω}
    {finding : Finding} (h : ofAssignment? name previous next = some finding) :
    finding.code = .reassignment := by
  rw [ofAssignment?.eq_def] at h
  split at h
  · split at h
    · cases h
    · cases h
      rfl
  · cases h

end Finding

/-! ## Judging uses -/

/-- The diagnostic that a use calls for. -/
def Use.diagnose (file : Text) (functions : Signatures ω) : Use → Option Diagnostic
  | .call name count loc =>
    (Finding.ofCall? functions name count).map (Finding.toDiagnostic file loc)
  | .read name loc => some ((Finding.undeclared name).toDiagnostic file loc)

section

variable {keep : Code → Bool} (hkeep : ∀ c, c.needsTypes = true → keep c = false) (file : Text)

include hkeep

/-- A finding that needs types is not kept. -/
theorem filter_toDiagnostic {finding? : Option Finding}
    (h : ∀ finding, finding? = some finding → finding.code.needsTypes = true)
    (loc : Option Position) :
    (finding?.map (Finding.toDiagnostic file loc)).filter (fun d => keep d.code) = none := by
  cases finding? with
  | none => rfl
  | some finding =>
    exact Option.filter_some_neg (by simp [Finding.toDiagnostic, hkeep _ (h finding rfl)])

variable [Weight ω] (functions : Signatures ω)

/-- An event and its use are judged alike. -/
theorem filter_diagnose (e : FlowEvent ω) :
    (e.diagnose file functions).filter (fun d => keep d.code) =
      (e.toUse?.bind (Use.diagnose file functions)).filter fun d => keep d.code := by
  cases e with
  | undeclared name loc => rfl
  | call name count loc => rfl
  | operator operation operands loc =>
    exact filter_toDiagnostic hkeep file (fun f hf => by rw [Finding.code_ofOperator? hf]; rfl) loc
  | condition e type =>
    exact filter_toDiagnostic hkeep file
      (fun f hf => by rw [Finding.code_ofCondition? hf]; rfl) e.loc
  | assignment name previous next loc =>
    exact filter_toDiagnostic hkeep file
      (fun f hf => by rw [Finding.code_ofAssignment? hf]; rfl) loc

end

/-! ## Checks -/

/-- Extending a context with signatures writes them into its table and leaves the rest. -/
theorem Readings.extend_eq (readings : Readings ω) (context : Context ω) :
    readings.extend context =
      { context with functions := context.functions.insertAll readings.analyzed.entries } := by
  have hfold : ∀ (es : List (Text × Signature ω)) (c : Context ω),
    es.foldl (fun c e => c.withFunction e.1 e.2) c =
      { c with functions := c.functions.insertAll es } := by
    intro es
    induction es with
    | nil => exact fun _ => rfl
    | cons e es ih => exact fun c => ih (c.withFunction e.1 e.2)
  exact hfold _ context

/-- A check ends with the signatures of other modules, extended with those of the routines. -/
theorem Program.functions_check [Weight ω] (file : Text) (externals : Signatures ω) (p : Program) :
    (p.check file externals).context.functions =
      ((CallGraph.analyzeAll (.ofProgram p) (.make (.module file) externals) .empty).extend
        (.make (.module file) externals)).functions := by
  dsimp only [Program.check, Context.withVariables]

/-- **Findings without types.** What a check finds of the kinds that need no types are the
judgements on what its walk tells of the visits of the module, in their order. -/
theorem Program.diagnostics_of_uses [Weight ω] {keep : Code → Bool}
    (hkeep : ∀ c, c.needsTypes = true → keep c = false) (file : Text) (externals : Signatures ω)
    (p : Program) :
    (p.check file externals).diagnostics.filter (fun d => keep d.code) =
      (((Stmt.visitsIn Narrowing.subjects p ∅).filterMap Visit.told?).filterMap
        (Use.diagnose file (p.check file externals).context.functions)).filter fun d =>
          keep d.code := by
  let initial : Context ω := .make (.module file) externals
  let context := (CallGraph.analyzeAll (.ofProgram p) initial .empty).extend initial
  have hstart : (Flow.start context).names = ∅ := by
    show (FlowState.make 0 context.vars [] context.scope).vars.keys.toFinset = ∅
    have hvars : context.vars = .empty := congrArg Context.vars (Readings.extend_eq _ initial)
    rw [hvars]
    rfl
  have hsilent : FlowEvent.uses (Flow.start context).events = [] := rfl
  have huses := (Flow.notes_block p (Flow.start context)).uses
  rw [hstart, hsilent, List.nil_append, FlowEvent.uses] at huses
  have hdiagnostics : (p.check file externals).diagnostics =
      (Flow.block p (Flow.start context)).events.toList.filterMap
        (FlowEvent.diagnose file context.functions) := rfl
  rw [← huses, functions_check, hdiagnostics, List.filter_filterMap, List.filterMap_filterMap,
    List.filter_filterMap]
  exact List.filterMap_congr fun e _ => filter_diagnose hkeep file context.functions e

end Gradual
