import Gradual.Calls.Site
import Gradual.Graph.Order
import Gradual.Types.Inference

/-!
# Call graphs

The routines that a module declares at its top level, and who calls whom. A call means the routine
that its name finds: the one of exactly this spelling, else the first that is the same word.
-/

namespace Gradual

/-- A parameter of a declared routine. -/
structure RoutineParam (ω : Type) where
  name : Text
  type : Resolution ω
  default? : Option Expr
  byReference : Bool

/-- A declared routine. -/
structure Routine (ω : Type) where
  name : Text
  params : List (RoutineParam ω)
  body : List Stmt
  exported : Bool
  kind : RoutineKind
  loc : Option Position

/-- The declared routines of a module with their calls. -/
structure CallGraph (ω : Type) where
  routines : Table Text (Routine ω)
  /-- The calls in the body of each routine. -/
  calls : Table Text (List CallSite)
  /-- The routines that call a name, each once. -/
  callers : Table Text (List Text)

variable {ω : Type}

/-- The routine that a statement declares. -/
def Routine.ofStmt? : Stmt → Option (Routine ω)
  | .routine kind name params body exported loc =>
    let infos := params.mapIdx fun i p =>
      RoutineParam.mk p.name (p.type.recordAt (.parameter name i)) p.default? (!p.byValue)
    some ⟨name, infos, body, exported, kind, loc⟩
  | _ => none

namespace CallGraph

/-- Adds a caller to the callers of a name, unless it is among them. -/
def addCaller (callers : Table Text (List Text)) (callee caller : Text) : Table Text (List Text) :=
  let before := callers.getD callee []
  callers.insert callee (if before.contains caller then before else before ++ [caller])

/-- The call graph of a module. -/
def ofProgram (p : Program) : CallGraph ω :=
  let declared : List (Routine ω) := p.filterMap Routine.ofStmt?
  let routines : Table Text (Routine ω) := .ofList (declared.map fun r => (r.name, r))
  let sites := declared.map fun r => (r.name, Stmt.callsIn r.body)
  let pairs := sites.flatMap fun s => s.2.map fun c =>
    ((routines.findKey? c.callee).getD c.callee, s.1)
  ⟨routines, .ofList sites, pairs.foldl (fun t e => addCaller t e.1 e.2) .empty⟩

/-- The routine of a name in any case. -/
def routine? (g : CallGraph ω) (name : Text) : Option (Routine ω) := g.routines.findWord? name

/-- The spelling of a routine's declaration. -/
def declaredName? (g : CallGraph ω) (name : Text) : Option Text :=
  (g.routine? name).map Routine.name

/-- The calls in the body of a routine. -/
def callsFrom (g : CallGraph ω) (name : Text) : List CallSite := g.calls.getD name []

/-- The routines that call a name. -/
def callersOf (g : CallGraph ω) (name : Text) : List Text := g.callers.getD name []

/-- The declared routines that a routine calls, each once. -/
def callees (g : CallGraph ω) (name : Text) : List Text :=
  (Table.ofList (((g.callsFrom name).filterMap fun c => g.declaredName? c.callee).map fun d =>
    (d, ()))).keys

/-- How many routines call each routine. -/
def callerCounts (g : CallGraph ω) : Table Text Nat :=
  (g.routines.keys.flatMap g.callees).foldl (fun counts d => counts.insert d (counts.getD d 0 + 1))
    (g.routines.map fun _ _ => 0)

/-- The routines with every callee before its callers, unless they call each other in a circle. -/
def calleesFirst? (g : CallGraph ω) : Option (List Text) :=
  (Order.sort? g.callees g.callerCounts).map List.reverse

end CallGraph

end Gradual
