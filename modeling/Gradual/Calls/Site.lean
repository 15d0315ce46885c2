import Gradual.Syntax.Stmt

/-!
# Call sites

The calls of a block in the order in which they are written, an outer call before those in its
arguments. Calls inside routines that the block declares, and in default values, are not among them.
-/

namespace Gradual

/-- A call by name. -/
structure CallSite where
  callee : Text
  count : Nat
  /-- The call stands in an expression, so its value is used. -/
  expectsValue : Bool
  loc : Option Position
deriving DecidableEq, Repr

mutual

/-- The calls in an expression. -/
def Expr.calls : Expr → List CallSite
  | .call callee args loc =>
    (match callee with
      | .ident name _ => [⟨name, args.length, true, loc⟩]
      | other => other.calls) ++ Expr.callsIn args
  | .binary _ left right _ => left.calls ++ right.calls
  | .unary _ operand _ => operand.calls
  | .member object _ _ => object.calls
  | .index object key _ => object.calls ++ key.calls
  | .new _ args _ => Expr.callsIn args
  | .choice condition whenTrue whenFalse _ => condition.calls ++ whenTrue.calls ++ whenFalse.calls
  | .array elements _ => Expr.callsIn elements
  | .record fields _ => Expr.callsInFields fields
  | .number .. | .string .. | .boolean .. | .date .. | .undefined _ | .null _ | .ident .. => []

/-- The calls in expressions. -/
def Expr.callsIn : List Expr → List CallSite
  | [] => []
  | e :: rest => e.calls ++ Expr.callsIn rest

/-- The calls in the values of fields. -/
def Expr.callsInFields : List (Text × Expr) → List CallSite
  | [] => []
  | (_, e) :: rest => e.calls ++ Expr.callsInFields rest

end

/-- The calls in an expression that may be absent. -/
def Expr.callsInOption : Option Expr → List CallSite
  | some e => e.calls
  | none => []

mutual

/-- The calls in a statement. -/
def Stmt.calls : Stmt → List CallSite
  | .declare _ _ value _ => Expr.callsInOption value
  | .assign target value _ => target.calls ++ value.calls
  | .call name none args loc => ⟨name, args.length, false, loc⟩ :: Expr.callsIn args
  | .call _ (some object) args _ => object.calls ++ Expr.callsIn args
  | .conditional c body rest _ => c.calls ++ Stmt.callsIn body ++ rest.calls
  | .forTo _ first last body _ => first.calls ++ last.calls ++ Stmt.callsIn body
  | .forEach _ collection body _ => collection.calls ++ Stmt.callsIn body
  | .whileDo c body _ => c.calls ++ Stmt.callsIn body
  | .attempt body handler _ => Stmt.callsIn body ++ Stmt.callsInHandler handler
  | .ret value _ => Expr.callsInOption value
  | .raise message _ => Expr.callsInOption message
  | .routine .. | .brk _ | .cont _ => []

/-- The calls in a block. -/
def Stmt.callsIn : List Stmt → List CallSite
  | [] => []
  | s :: rest => s.calls ++ Stmt.callsIn rest

/-- The calls in the handler of an attempt. -/
def Stmt.callsInHandler : Option (List Stmt) → List CallSite
  | some body => Stmt.callsIn body
  | none => []

/-- The calls in the other ways of a conditional. -/
def Alternative.calls : Alternative → List CallSite
  | .none => []
  | .otherwise body => Stmt.callsIn body
  | .elsif c body rest => c.calls ++ Stmt.callsIn body ++ rest.calls

end

end Gradual
