import Gradual.Diagnostic

/-!
# Expressions

The expression trees of a module. A node knows its position when it comes from a source text.
-/

namespace Gradual

/-- Operators between two operands. -/
inductive BinaryOp where
  | add | sub | mul | div | mod
  | eq | ne | lt | le | gt | ge
  | and | or
deriving DecidableEq, Repr

namespace BinaryOp

/-- All binary operators. -/
def all : List BinaryOp := [add, sub, mul, div, mod, eq, ne, lt, le, gt, ge, and, or]

/-- The sign or word of an operator. -/
def symbol : BinaryOp → Text
  | add => "+" | sub => "-" | mul => "*" | div => "/" | mod => "%"
  | eq => "=" | ne => "<>" | lt => "<" | le => "<=" | gt => ">" | ge => ">="
  | and => "and" | or => "or"

/-- The operator of a sign or word. -/
def ofSymbol? (t : Text) : Option BinaryOp := all.find? fun op => op.symbol == t

/-- Operators that compute. -/
def isArithmetic : BinaryOp → Bool
  | add | sub | mul | div | mod => true
  | _ => false

/-- Operators that compare. -/
def isComparison : BinaryOp → Bool
  | eq | ne | lt | le | gt | ge => true
  | _ => false

end BinaryOp

/-- Operators before one operand. -/
inductive UnaryOp where
  | not
  | neg
deriving DecidableEq, Repr

namespace UnaryOp

/-- The sign or word of an operator. -/
def symbol : UnaryOp → Text
  | not => "not"
  | neg => "-"

end UnaryOp

/-- Expression trees. -/
inductive Expr where
  | number (value : Float) (loc : Option Position)
  | string (value : Text) (loc : Option Position)
  | boolean (value : Bool) (loc : Option Position)
  | date (value : Text) (loc : Option Position)
  | undefined (loc : Option Position)
  | null (loc : Option Position)
  | ident (name : Text) (loc : Option Position)
  | member (object : Expr) (name : Text) (loc : Option Position)
  | index (object : Expr) (key : Expr) (loc : Option Position)
  | call (callee : Expr) (args : List Expr) (loc : Option Position)
  | new (typeName : Text) (args : List Expr) (loc : Option Position)
  | binary (op : BinaryOp) (left right : Expr) (loc : Option Position)
  | unary (op : UnaryOp) (operand : Expr) (loc : Option Position)
  /-- `?(condition, whenTrue, whenFalse)`. -/
  | choice (condition whenTrue whenFalse : Expr) (loc : Option Position)
  | array (elements : List Expr) (loc : Option Position)
  | record (fields : List (Text × Expr)) (loc : Option Position)

namespace Expr

/-- Where the expression stands. -/
def loc : Expr → Option Position
  | number _ l | string _ l | boolean _ l | date _ l | undefined l | null l | ident _ l
  | member _ _ l
  | index _ _ l | call _ _ l | new _ _ l | binary _ _ _ l | unary _ _ l | choice _ _ _ l | array _ l
  | record _ l => l

/-- Expressions that can be assigned to. -/
def isTarget : Expr → Bool
  | ident .. | member .. | index .. => true
  | _ => false

end Expr

end Gradual
