import Gradual.Syntax.Expr

/-!
# Statements

The statement trees of a module. What follows the first branch of a conditional is a chain of
further conditions that may end in an unconditional block; a chain without such a block is different
from one with an empty block.
-/

namespace Gradual

/-- A parameter of a routine. -/
structure Param where
  name : Text
  byValue : Bool
  default? : Option Expr

/-- Functions return values, procedures do not. -/
inductive RoutineKind where
  | procedure
  | function
deriving DecidableEq, Repr

mutual

/-- Statement trees. -/
inductive Stmt where
  | declare (name : Text) (exported : Bool) (value : Option Expr) (loc : Option Position)
  | routine (kind : RoutineKind) (name : Text) (params : List Param) (body : List Stmt)
    (exported : Bool)
      (loc : Option Position)
  | assign (target value : Expr) (loc : Option Position)
  /-- A call in statement position; with an object it is a method call. -/
  | call (name : Text) (object : Option Expr) (args : List Expr) (loc : Option Position)
  | conditional (condition : Expr) (body : List Stmt) (rest : Alternative) (loc : Option Position)
  | forTo (name : Text) (first last : Expr) (body : List Stmt) (loc : Option Position)
  | forEach (name : Text) (collection : Expr) (body : List Stmt) (loc : Option Position)
  | whileDo (condition : Expr) (body : List Stmt) (loc : Option Position)
  | ret (value : Option Expr) (loc : Option Position)
  | brk (loc : Option Position)
  | cont (loc : Option Position)
  | attempt (body : List Stmt) (handler : Option (List Stmt)) (loc : Option Position)
  | raise (message : Option Expr) (loc : Option Position)

/-- What is tried after a condition fails. -/
inductive Alternative where
  | none
  | otherwise (body : List Stmt)
  | elsif (condition : Expr) (body : List Stmt) (rest : Alternative)

end

/-- A module: its statements in order. -/
abbrev Program := List Stmt

namespace Stmt

/-- Where the statement stands. -/
def loc : Stmt → Option Position
  | declare _ _ _ l | routine _ _ _ _ _ l | assign _ _ l | call _ _ _ l | conditional _ _ _ l
  | forTo _ _ _ _ l
  | forEach _ _ _ l | whileDo _ _ l | ret _ l | brk l | cont l | attempt _ _ l | raise _ l => l

/-- Whether the statement declares a procedure or function. -/
def isRoutine : Stmt → Bool
  | routine .. => true
  | _ => false

end Stmt

end Gradual
