import Gradual.Calls.Graph

/-!
# Signatures of declared routines

The body of a routine is read for the types it returns. When it calls a declared routine, that one
is read first; a call of a routine that is just being read gives an unknown type. A routine is read
once and its signature is kept.

The nesting of such readings is bounded, since every one of them starts with a declared routine that
is not being read: one more than the number of routines is enough.
-/

namespace Gradual

variable {ω σ : Type}

/-- The signatures made so far, and the routines that are being read. -/
structure Readings (ω : Type) where
  analyzed : Signatures ω
  inProgress : List Text

namespace Readings

/-- Nothing read yet. -/
def empty : Readings ω := ⟨.empty, []⟩

/-- The routine is being read. -/
def start (name : Text) (r : Readings ω) : Readings ω :=
  { r with inProgress := name :: r.inProgress }

/-- The routine was read, and this is its signature. -/
def finish (name : Text) (signature : Signature ω) (r : Readings ω) : Readings ω where
  analyzed := r.analyzed.insert name signature
  inProgress := r.inProgress.filter fun m => m != name

end Readings

/-- How a state keeps readings: what they are, and how one starts and finishes. -/
structure Notebook (ω σ : Type) where
  readings : σ → Readings ω
  start : Text → σ → σ
  finish : Text → Signature ω → σ → σ

/-- Readings as the whole state. -/
def Readings.notebook : Notebook ω (Readings ω) := ⟨id, start, finish⟩

/-- What is known at a point of a body that is being read. -/
structure BodyState (ω σ : Type) where
  /-- What answering calls has made of its state. -/
  state : σ
  locals : Variables ω
  returns : List (Resolution ω)
  /-- How many times variables were given types. -/
  step : Nat

namespace BodyState

/-- How calls are answered while a body is read. -/
abbrev Calls (ω σ : Type) := Text → List (Resolution ω) → StateM σ (Resolution ω)

variable (routine : Text) (calls : Calls ω σ)

/-- Gives a variable a type. -/
def bind (st : BodyState ω σ) (name : Text) (type : Resolution ω) : BodyState ω σ :=
  { st with
    locals := st.locals.insert name (type.recordAt (.bound routine st.step name))
    step := st.step + 1 }

/-- Replaces all variables by those after several ways. -/
def rejoin [Weight ω] (st : BodyState ω σ) (ways : List (Variables ω)) : BodyState ω σ :=
  { st with
    locals := (Variables.join ways).map fun name r => r.recordAt (.bound routine st.step name)
    step := st.step + 1 }

/-- The environment of a body with the given variables. -/
def environment (locals : Variables ω) : Environment ω σ where
  lookup name _ := pure (locals.get? name)
  call name args _ := calls name args
  operator _ _ _ := pure ()

/-- The type of an expression. -/
def typeOf [Weight ω] (st : BodyState ω σ) (e : Expr) : Resolution ω × BodyState ω σ :=
  let (t, state) := ((environment calls st.locals).infer e).run st.state
  (t, { st with state := state })

/-- Assigns the value of an expression to a variable. -/
def assign [Weight ω] (st : BodyState ω σ) (name : Text) (value : Expr) : BodyState ω σ :=
  let (t, st) := st.typeOf calls value
  st.bind routine name t

variable [Weight ω]

mutual

/-- Reads a statement. Only assignments, returns and the blocks of statements matter. -/
def statement : Stmt → BodyState ω σ → BodyState ω σ
  | .declare name _ (some value) _, st => st.assign routine calls name value
  | .declare name _ none _, st => st.bind routine name (.unknownBecause "Declared without a value")
  | .assign (.ident name _) value _, st => st.assign routine calls name value
  | .ret (some value) _, st =>
    let (t, st) := st.typeOf calls value
    { st with returns := st.returns ++ [t] }
  | .conditional _ body rest _, st =>
    let start := st.locals
    let st := block body st
    let (ways, after) := alternative start rest st
    after.rejoin routine (st.locals :: ways)
  | .forTo _ _ _ body _, st | .forEach _ _ body _, st | .whileDo _ body _, st => block body st
  | .attempt body handler _, st => handlerBlock handler (block body st)
  | .assign _ _ _, st | .ret none _, st | .routine .., st | .call .., st | .brk _, st | .cont _, st
  | .raise .., st => st

/-- Reads statements in order. -/
def block : List Stmt → BodyState ω σ → BodyState ω σ
  | [], st => st
  | s :: rest, st => block rest (statement s st)

/-- Reads the handler of an attempt, if it has one. -/
def handlerBlock : Option (List Stmt) → BodyState ω σ → BodyState ω σ
  | none, st => st
  | some body, st => block body st

/-- Reads the other ways of a conditional, each from the variables at its start, and gives the
variables at their ends; without an unconditional block, one way does nothing. -/
def alternative (start : Variables ω) :
    Alternative → BodyState ω σ → List (Variables ω) × BodyState ω σ
  | .none, st => ([start], st)
  | .otherwise body, st =>
    let st := block body { st with locals := start }
    ([st.locals], st)
  | .elsif _ body rest, st =>
    let st := block body { st with locals := start }
    let (ways, after) := alternative start rest st
    (st.locals :: ways, after)

end

end BodyState

namespace CallGraph

variable [Weight ω] (book : Notebook ω σ)

/-- The type of a call while routines are read by `read`: a declared routine is read unless it is
being read. -/
def answer (g : CallGraph ω) (context : Context ω) (read : Text → StateM σ (Option (Signature ω))) :
    BodyState.Calls ω σ := fun name args => do
  match g.declaredName? name with
  | some declared => do
    if (book.readings (← get)).inProgress.contains declared then
      pure (.unknownBecause "Recursive call detected")
    else do
      let signature ← read declared
      pure ((signature.map Signature.returns).getD .unknown)
  | none => pure (callResult context.functions name args)

/-- The type that a routine returns: nothing for a procedure and for a function without returned
values. -/
def returnType (r : Routine ω) (returns : List (Resolution ω)) : Resolution ω :=
  match r.kind, returns with
  | .procedure, _ => .void
  | .function, [] => .void
  | .function, types => .join types

/-- The parameters of a routine's signature. -/
def signatureParams (r : Routine ω) : List (SignatureParam ω) :=
  r.params.map fun p => ⟨p.name, p.type, p.default?.isSome⟩

/-- Reads a routine under a name, unless that was done before. `deeper` reads the routines that it
calls. -/
def readWith (g : CallGraph ω) (context : Context ω)
    (deeper : Text → StateM σ (Option (Signature ω))) (name : Text) :
    StateM σ (Option (Signature ω)) := fun s =>
  match (book.readings s).analyzed.get? name with
  | some signature => (some signature, s)
  | none =>
    match g.routine? name with
    | none => (none, s)
    | some r =>
      let locals := context.vars.insertAll (r.params.map fun p => (p.name, p.type))
      let st := BodyState.block name (answer book g context deeper) r.body
        ⟨book.start name s, locals, [], 0⟩
      let signature : Signature ω :=
        ⟨signatureParams r, (returnType r st.returns).recordAt (.result name), r.exported⟩
      (some signature, book.finish name signature st.state)

/-- Reads a routine and what it calls. The first argument bounds the nesting of readings. -/
def read (g : CallGraph ω) (context : Context ω) :
    (bound : Nat) → Text → StateM σ (Option (Signature ω))
  | 0, _ => pure none
  | n + 1, name => readWith book g context (read g context n) name

/-- Reads a routine. -/
def analyze (g : CallGraph ω) (context : Context ω) (name : Text) :
    StateM (Readings ω) (Option (Signature ω)) :=
  read Readings.notebook g context (g.routines.size + 1) name

/-- Reads all routines: callees first, or in the order of their declarations if they call each other
in a circle. -/
def readAll (g : CallGraph ω) (read : Text → StateM σ (Option (Signature ω))) (s : σ) : σ :=
  (g.calleesFirst?.getD g.routines.keys).foldl (fun s name => (read name s).2) s

/-- Reads all routines. -/
def analyzeAll (g : CallGraph ω) (context : Context ω) (readings : Readings ω) : Readings ω :=
  g.readAll (g.analyze context) readings

end CallGraph

namespace Readings

/-- A context with all signatures made so far. -/
def extend (readings : Readings ω) (context : Context ω) : Context ω :=
  readings.analyzed.entries.foldl (fun c e => c.withFunction e.1 e.2) context

end Readings

end Gradual
