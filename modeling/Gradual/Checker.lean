import Gradual.Calls.Signatures
import Gradual.Flow.Walk
import Gradual.Graph.Build

/-!
# Checking a module

A check makes the dependency graph and the signatures of the routines, and then walks through the
module. What the walk comes across is judged event by event; nothing stops the analysis. Operands
are judged only when their types are certain enough.
-/

namespace Gradual

variable {ω : Type} [Weight ω]

/-! ## Judging types -/

/-- The confidence from which on a type is judged. -/
def judgedConfidence : ω := Weight.ofRatio 7 10

/-- The concrete type of a value, if it is certain enough to be judged. -/
def Resolution.judged? (r : Resolution ω) : Option (Concrete ω) :=
  if judgedConfidence ≤ r.certainty.confidence then r.concrete? else none

namespace Concrete

/-- Whether a type is one of the given primitive ones. -/
def isOneOf (t : Concrete ω) (ps : List Primitive) : Bool :=
  match t with
  | .primitive p => ps.contains p
  | _ => false

/-- The types of values that stand for the absence of one. -/
def isAbsent : Concrete ω → Bool
  | .special .undefined | .special .null => true
  | _ => false

end Concrete

namespace Resolution

/-- Whether a value of the second type can be assigned to a variable of the first. What is not known
is compatible with everything, and so are the absent values, with which variables are reset. -/
def accepts (previous next : Resolution ω) : Bool :=
  if previous.isUnknown || next.isUnknown then true
  else if (next.concrete?.map Concrete.isAbsent).getD false then true
  else
    match previous.shape with
    | .union members => Members.accepts members next
    | _ =>
      match previous.concrete?, next.concrete? with
      | some before, some after => before.isAbsent || after.isAbsent || before.same after
      | _, _ => true

end Resolution

/-- Whether the operands of a binary operator do not fit it. -/
def BinaryOp.mismatch (op : BinaryOp) (left right : Concrete ω) : Bool :=
  match op with
  | .add =>
    !left.isOneOf [.string] && !right.isOneOf [.string] &&
      !(left.isOneOf [.number, .date] && right.isOneOf [.number, .date])
  | .sub => !left.isOneOf [.number, .date] || !right.isOneOf [.number]
  | .mul | .div | .mod => !left.isOneOf [.number] || !right.isOneOf [.number]
  | .and | .or => !left.isOneOf [.boolean] || !right.isOneOf [.boolean]
  | _ => false

/-- Whether the operand of a unary operator does not fit it. -/
def UnaryOp.mismatch (op : UnaryOp) (operand : Concrete ω) : Bool :=
  match op with
  | .not => !operand.isOneOf [.boolean]
  | .neg => !operand.isOneOf [.number]

/-- The sign of an operator, or its word, in messages. -/
def Operation.title : Operation → Text
  | .binary .and => "И"
  | .binary .or => "ИЛИ"
  | .unary .not => "НЕ"
  | operation => operation.symbol

/-! ## Judging events -/

/-- What can be wrong with a module that can be read. -/
inductive Finding where
  | undeclared (name : Text)
  | unknownFunction (name : Text)
  | argumentCount (name : Text) (expected given : Nat)
  | operands (operation : Operation) (left right : Text)
  | operand (operation : Operation) (type : Text)
  | condition (type : Text)
  | reassignment (name : Text) (previous next : Text)
deriving DecidableEq, Repr

namespace Finding

/-- The code of a finding. -/
def code : Finding → Code
  | undeclared _ => .undeclared
  | unknownFunction _ => .unknownFunction
  | argumentCount .. => .argumentCount
  | operands .. | operand .. | condition _ => .operandType
  | reassignment .. => .reassignment

/-- How serious a finding is: only a wrong number of arguments is an error. -/
def severity : Finding → Severity
  | unknownFunction _ => .info
  | argumentCount .. => .error
  | _ => .warning

/-- The message of a finding. -/
def message : Finding → Text
  | undeclared name => "Переменная " ++ name.quoted ++ " используется без объявления"
  | unknownFunction name => "Функция " ++ name.quoted ++ " не найдена в контексте"
  | argumentCount name expected given =>
    "Функция " ++ name.quoted ++ " ожидает " ++ Text.ofNat expected ++ " аргументов, передано " ++
      Text.ofNat given
  | operands operation left right =>
    "Несовместимые типы операндов для оператора " ++ operation.title.quoted ++ ": " ++ left ++
      " и " ++ right
  | operand operation type =>
    "Несовместимый тип операнда для оператора " ++ operation.title.quoted ++ ": " ++ type
  | condition type => "Условие имеет тип " ++ type ++ ", ожидается Булево"
  | reassignment name _ _ => "Несовместимое присваивание переменной " ++ name.quoted

/-- The hint of a finding. -/
def hint? : Finding → Option Text
  | reassignment _ previous next => some (previous ++ " := " ++ next)
  | _ => none

/-- The diagnostic of a finding at a place. -/
def toDiagnostic (file : Text) (loc : Option Position) (finding : Finding) : Diagnostic where
  code := finding.code
  severity := finding.severity
  message := finding.message
  location := loc.map (Location.ofPosition file)
  hint := finding.hint?

/-- The parameters that a call can fill and has to fill at least. -/
def arity? (functions : Signatures ω) (name : Text) : Option (Nat × Nat) :=
  match functions.findWord? name with
  | some s => some (s.params.length, s.required)
  | none => (GlobalFunction.find? (ω := ω) name).map fun f => (f.params.length, f.required)

/-- Judges the number of arguments of a call. -/
def ofCall? (functions : Signatures ω) (name : Text) (count : Nat) : Option Finding :=
  match arity? functions name with
  | none => some (.unknownFunction name)
  | some (expected, required) =>
    if expected < count || count < required then some (.argumentCount name expected count) else none

/-- Judges the operands of an operator. -/
def ofOperator? (operation : Operation) (operands : List (Resolution ω)) : Option Finding :=
  match operation, operands.map Resolution.judged? with
  | .binary op, [some left, some right] =>
    if op.mismatch left right then some (.operands operation left.name right.name) else none
  | .unary op, [some type] => if op.mismatch type then some (.operand operation type.name) else none
  | _, _ => none

/-- Judges the type of a condition. -/
def ofCondition? (type : Resolution ω) : Option Finding :=
  match type.judged? with
  | some t =>
    if !t.isOneOf [.boolean, .number] && !t.isAbsent then some (.condition t.name) else none
  | none => none

/-- Judges an assignment to a variable that may have a type. -/
def ofAssignment? (name : Text) (previous : Option (Resolution ω))
    (next : Resolution ω) : Option Finding :=
  match previous with
  | some before =>
    if before.accepts next then none else some (.reassignment name before.format next.format)
  | none => none

end Finding

/-- The diagnostic that an event of the walk calls for. -/
def FlowEvent.diagnose (file : Text) (functions : Signatures ω) : FlowEvent ω → Option Diagnostic
  | .undeclared name loc => some ((Finding.undeclared name).toDiagnostic file loc)
  | .call name count loc =>
    (Finding.ofCall? functions name count).map (Finding.toDiagnostic file loc)
  | .operator operation operands loc =>
    (Finding.ofOperator? operation operands).map (Finding.toDiagnostic file loc)
  | .condition e type => (Finding.ofCondition? type).map (Finding.toDiagnostic file e.loc)
  | .assignment name previous next loc =>
    (Finding.ofAssignment? name previous next).map (Finding.toDiagnostic file loc)

/-! ## Checks -/

/-- All that a check makes of a module. -/
structure CheckResult (ω : Type) where
  context : Context ω
  diagnostics : List Diagnostic
  graph : DependencyGraph
  callGraph : CallGraph ω
  states : Array (FlowState ω)
  merges : Array MergePoint

/-- Checks a module of a file, given the signatures of routines in other modules. -/
def Program.check (file : Text) (externals : Signatures ω) (p : Program) : CheckResult ω :=
  let callGraph : CallGraph ω := .ofProgram p
  let initial : Context ω := .make (.module file) externals
  let context := (callGraph.analyzeAll initial .empty).extend initial
  let flow := Flow.block p (Flow.start context)
  { context := context.withVariables flow.current.vars
    diagnostics := flow.events.toList.filterMap (FlowEvent.diagnose file context.functions)
    graph := .ofProgram file p
    callGraph := callGraph
    states := flow.states
    merges := flow.merges }

end Gradual
