import Gradual.Flow.State

/-!
# Walking through statements

Statements are walked through in order. The ways of a conditional start from the same state and are
joined behind it; a further condition is a conditional on the way where the one before fails. Bodies
of loops and attempts are walked through once.
-/

namespace Gradual

namespace Flow

variable {ω : Type} [Weight ω]

mutual

/-- Walks through one statement. -/
def statement : Stmt → Flow ω → Flow ω
  | .declare name _ (some value) loc, f => (f.assign name value loc).2
  | .declare name _ none _, f => f.update name (.unknownBecause "Declared without a value")
  | .assign (.ident name _) value loc, f => (f.assign name value loc).2
  | .assign target value _, f => (f.target target).visit value
  | .routine _ name params body _ _, f => f.routine name params (block body)
  | .call name none args loc, f => (f.visitAll args).emit (.call name args.length loc)
  | .call _ (some object) args _, f => (f.visit object).visitAll args
  | .conditional c body rest _, f => f.fork c (block body) (alternative rest)
  | .forTo name first last body _, f =>
    block body (((f.visit first).visit last).update name (.primitive .number))
  | .forEach name collection body _, f =>
    block body ((f.visit collection).update name (.unknownBecause "Collection element"))
  | .whileDo c body _, f => block body (f.condition c)
  | .attempt body handler _, f => handlerBlock handler (block body f)
  | .ret (some value) _, f => f.visit value
  | .raise (some message) _, f => f.visit message
  | .ret none _, f | .raise none _, f | .brk _, f | .cont _, f => f

/-- Walks through statements in order. -/
def block : List Stmt → Flow ω → Flow ω
  | [], f => f
  | s :: rest, f => block rest (statement s f)

/-- Walks through the handler of an attempt, if it has one. -/
def handlerBlock : Option (List Stmt) → Flow ω → Flow ω
  | none, f => f
  | some body, f => block body f

/-- Walks the way on which a condition fails, from the state at the condition. Where nothing is to
be done on it, no state is made. -/
def alternative : Alternative → FlowState ω → Variables ω → Flow ω → Flow ω
  | .none, origin, _, f => { f with current := origin }
  | .otherwise body, origin, vars, f => block body (f.enter vars [origin.id])
  | .elsif c body rest, origin, vars, f =>
    (f.enter vars [origin.id]).fork c (block body) (alternative rest)

end

/-- Walks through a conditional on its own. -/
def conditional (c : Expr) (body : List Stmt) (rest : Alternative) (f : Flow ω) : Flow ω :=
  f.fork c (block body) (alternative rest)

end Flow

end Gradual
