import Gradual.Types.Narrowing

/-!
# Flow states

While a module is walked through, every change of what is known about its variables makes a new
state. States are numbered in the order of their making and name the states they come from; where
paths meet again, a merge point says which states were joined. Whoever follows the walk sees a list
of events.
-/

namespace Gradual

variable {ω : Type}

/-- What is known at one point of the walk. -/
structure FlowState (ω : Type) where
  id : Nat
  vars : Variables ω
  predecessors : List Nat
  scope : Scope

/-- States that were joined, and the state they were joined to. -/
structure MergePoint where
  states : List Nat
  merged : Nat
deriving DecidableEq, Repr

/-- What the walk comes across. -/
inductive FlowEvent (ω : Type) where
  /-- A variable is read before it has a value. -/
  | undeclared (name : Text) (loc : Option Position)
  | call (name : Text) (count : Nat) (loc : Option Position)
  | operator (operation : Operation) (operands : List (Resolution ω)) (loc : Option Position)
  | condition (condition : Expr) (type : Resolution ω)
  | assignment (name : Text) (previous : Option (Resolution ω)) (next : Resolution ω)
    (loc : Option Position)

/-- A walk up to some point. -/
structure Flow (ω : Type) where
  states : Array (FlowState ω)
  merges : Array MergePoint
  events : Array (FlowEvent ω)
  current : FlowState ω
  context : Context ω

namespace FlowState

/-- A state in which every variable has an origin: what was never held before is first held here. -/
def make (id : Nat) (vars : Variables ω) (predecessors : List Nat) (scope : Scope) : FlowState ω :=
  ⟨id, vars.map fun name r => r.recordAt (.held id name), predecessors, scope⟩

end FlowState

namespace Flow

/-! ## Single steps -/

/-- The start of a walk in a context. -/
def start (context : Context ω) : Flow ω :=
  let first := FlowState.make 0 context.vars [] context.scope
  ⟨#[first], #[], #[], first, context⟩

/-- Adds a state and makes it the current one. -/
def enter (f : Flow ω) (vars : Variables ω) (predecessors : List Nat) : Flow ω :=
  let s := FlowState.make f.states.size vars predecessors f.context.scope
  { f with states := f.states.push s, current := s }

/-- Tells about an event. -/
def emit (f : Flow ω) (e : FlowEvent ω) : Flow ω := { f with events := f.events.push e }

/-- The type of a variable in the current state. -/
def typeOf? (f : Flow ω) (name : Text) : Option (Resolution ω) := f.current.vars.get? name

/-- Gives a variable a type, in a new state. -/
def update (f : Flow ω) (name : Text) (type : Resolution ω) : Flow ω :=
  f.enter (f.current.vars.insert name type) [f.current.id]

/-- The context with the variables of a state, and inside its scope. -/
def contextAt? (f : Flow ω) (id : Nat) : Option (Context ω) :=
  f.states[id]?.map fun s =>
    let context := f.context.withVariables s.vars
    if s.scope.key == context.scope.key then context else context.enter s.scope

/-- Look-ups in the current state, which tell about missing variables, calls and operators. -/
def environment [Weight ω] (f : Flow ω) : Environment ω (Array (FlowEvent ω)) where
  lookup name loc := do
    match f.typeOf? name with
    | some t => pure (some t)
    | none => do
      modify fun events => events.push (.undeclared name loc)
      pure none
  call name args loc := do
    modify fun events => events.push (.call name args.length loc)
    pure (callResult f.context.functions name args)
  operator operation operands loc :=
    modify fun events => events.push (.operator operation operands loc)

/-- The type of an expression in the current state. -/
def expression [Weight ω] (e : Expr) (f : Flow ω) : Resolution ω × Flow ω :=
  let (t, events) := (f.environment.infer e).run f.events
  (t, { f with events := events })

/-- Visits an expression for its events. -/
def visit [Weight ω] (e : Expr) (f : Flow ω) : Flow ω := (f.expression e).2

/-- Visits expressions from left to right. -/
def visitAll [Weight ω] (es : List Expr) (f : Flow ω) : Flow ω := es.foldl (fun f e => f.visit e) f

/-- Visits the condition of a branch or loop. -/
def condition [Weight ω] (e : Expr) (f : Flow ω) : Flow ω :=
  let (t, f) := f.expression e
  f.emit (.condition e t)

/-- Assigns the value of an expression to a variable. -/
def assign [Weight ω] (name : Text) (value : Expr) (loc : Option Position) (f : Flow ω) :
    Resolution ω × Flow ω :=
  let (t, f) := f.expression value
  (t, (f.emit (.assignment name (f.typeOf? name) t loc)).update name t)

/-- Visits the parts of an assignment target that is not a variable. -/
def target [Weight ω] (e : Expr) (f : Flow ω) : Flow ω :=
  match e with
  | .member object _ _ => f.visit object
  | .index object key _ => (f.visit object).visit key
  | other => f.visit other

/-! ## Forks -/

/-- Joins states: the current state for none, the state itself for one, else a new state with a
merge point, which becomes the current one. -/
def merge [Weight ω] (inputs : List (FlowState ω)) (f : Flow ω) : Flow ω :=
  match inputs with
  | [] => f
  | [s] => { f with current := s }
  | _ =>
    let f := f.enter (Variables.join (inputs.map FlowState.vars)) (inputs.map FlowState.id)
    { f with merges := f.merges.push ⟨inputs.map FlowState.id, f.current.id⟩ }

/-- Walks both ways from a condition and joins their ends. `body` walks the way on which it holds;
`rest` gets the state at the condition and the variables refined by its failure, and ends in the
state at the end of the other way. -/
def fork [Weight ω] (c : Expr) (body : Flow ω → Flow ω)
    (rest : FlowState ω → Variables ω → Flow ω → Flow ω) (f : Flow ω) : Flow ω :=
  let f := f.condition c
  let origin := f.current
  let holds := Narrowing.refinements origin.vars c
  let f := body (f.enter (Narrowing.apply origin.vars holds) [origin.id])
  let bodyEnd := f.current
  let f := rest origin (Narrowing.apply origin.vars (Narrowing.invert origin.vars holds)) f
  f.merge [bodyEnd, f.current]

/-! ## Routines -/

/-- The variables inside a routine: those around it, and its parameters with the types of its
signature if it has one under the exact name. -/
def parameters (f : Flow ω) (name : Text) (params : List Param) : Variables ω :=
  let declared := ((f.context.functions.get? name).map Signature.params).getD []
  f.current.vars.insertAll <| params.mapIdx fun i p =>
    (p.name, match declared[i]? with
      | some d => d.type
      | none => p.type)

/-- Walks through the body of a routine in its scope, and comes back to the state before it. -/
def routine (name : Text) (params : List Param) (body : Flow ω → Flow ω) (f : Flow ω) : Flow ω :=
  let outside := f.current
  let vars := f.parameters name params
  let inside := { f with context := f.context.enter (.function name) }.enter vars [outside.id]
  let f := body inside
  { f with context := f.context.exit, current := outside }

end Flow

end Gradual
