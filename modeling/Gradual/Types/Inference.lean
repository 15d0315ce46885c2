import Gradual.Syntax.Stmt
import Gradual.Types.Builtin

/-!
# Types of expressions

The type of an expression follows from the types of its parts. What a name stands for, what a call
gives and who is told about operators is up to an environment, which may keep a state of its own
while the parts are visited from left to right.
-/

namespace Gradual

variable {ω σ : Type}

/-- An operator with its number of operands. -/
inductive Operation where
  | binary (op : BinaryOp)
  | unary (op : UnaryOp)
deriving DecidableEq, Repr

namespace Operation

/-- The sign or word of the operator. -/
def symbol : Operation → Text
  | binary op => op.symbol
  | unary op => op.symbol

end Operation

namespace Resolution

variable [Weight ω]

/-- The type of a binary operation. Arithmetic with a number is a number, addition with a string is
a string, a remainder is always a number, and comparisons and logical operations are boolean. -/
def ofBinary (op : BinaryOp) (left right : Resolution ω) : Resolution ω :=
  if op == .mod then .primitive .number
  else if op.isArithmetic then
    if left.isNumber || right.isNumber then .primitive .number
    else if op == .add && (left.isString || right.isString) then .primitive .string
    else .unknown
  else .primitive .boolean

/-- The type of a unary operation. -/
def ofUnary (op : UnaryOp) (operand : Resolution ω) : Resolution ω :=
  match op with
  | .not => .primitive .boolean
  | .neg => if operand.isNumber then .primitive .number else .unknown

/-- The type of a choice: the first branch if both name equal types, else their union. -/
def choose (whenTrue whenFalse : Resolution ω) : Resolution ω :=
  match whenTrue.concrete?, whenFalse.concrete? with
  | some a, some b => if a.same b then whenTrue else union [whenTrue, whenFalse]
  | _, _ => union [whenTrue, whenFalse]

end Resolution

/-- Where the names of an expression are looked up, with a state that the look-ups may change. -/
structure Environment (ω σ : Type) where
  lookup : Text → Option Position → StateM σ (Option (Resolution ω))
  call : Text → List (Resolution ω) → Option Position → StateM σ (Resolution ω)
  /-- Told about an operator after its operands were typed. -/
  operator : Operation → List (Resolution ω) → Option Position → StateM σ Unit

namespace Environment

variable [Weight ω]

mutual

/-- The type of an expression. -/
def infer (env : Environment ω σ) : Expr → StateM σ (Resolution ω)
  | .number .. => pure (.primitive .number)
  | .string .. => pure (.primitive .string)
  | .boolean .. => pure (.primitive .boolean)
  | .date .. => pure (.primitive .date)
  | .undefined _ => pure (.special .undefined)
  | .null _ => pure (.special .null)
  | .ident name loc => do
    let found ← env.lookup name loc
    pure (found.getD (.unknownBecause "Unknown variable"))
  | .binary op left right loc => do
    let l ← infer env left
    let r ← infer env right
    env.operator (.binary op) [l, r] loc
    pure (.ofBinary op l r)
  | .unary op operand loc => do
    let t ← infer env operand
    env.operator (.unary op) [t] loc
    pure (.ofUnary op t)
  | .call callee args loc => do
    let types ← inferAll env args
    match callee with
    | .ident name _ => env.call name types loc
    | other => do
      let _ ← infer env other
      pure (.unknownBecause "Method call")
  | .member object _ _ => do
    let _ ← infer env object
    pure (.unknownBecause "Member access")
  | .index object key _ => do
    let _ ← infer env object
    let _ ← infer env key
    pure (.unknownBecause "Indexed access")
  | .new typeName args _ => do
    let _ ← inferAll env args
    pure (constructedType typeName)
  | .choice condition whenTrue whenFalse _ => do
    let _ ← infer env condition
    let a ← infer env whenTrue
    let b ← infer env whenFalse
    pure (.choose a b)
  | .array elements _ => do
    let _ ← inferAll env elements
    pure (.platform "Массив")
  | .record fields _ => do
    inferFields env fields
    pure (.platform "Структура")

/-- The types of expressions, from left to right. -/
def inferAll (env : Environment ω σ) : List Expr → StateM σ (List (Resolution ω))
  | [] => pure []
  | e :: es => do
    let t ← infer env e
    let ts ← inferAll env es
    pure (t :: ts)

/-- Visits the values of fields, from left to right. -/
def inferFields (env : Environment ω σ) : List (Text × Expr) → StateM σ Unit
  | [] => pure ()
  | (_, e) :: rest => do
    let _ ← infer env e
    inferFields env rest

end

/-- The environment of given variables and signatures, which keeps no state. -/
def ofTables (vars : Variables ω) (functions : Signatures ω) : Environment ω Unit where
  lookup name _ := pure (vars.get? name)
  call name args _ := pure (callResult functions name args)
  operator _ _ _ := pure ()

end Environment

/-- The type of a parameter, which follows from a literal default value. -/
def Param.type (p : Param) : Resolution ω :=
  match p.default? with
  | some (.number ..) => .primitive .number
  | some (.string ..) => .primitive .string
  | some (.boolean ..) => .primitive .boolean
  | some (.date ..) => .primitive .date
  | some (.undefined _) => .special .undefined
  | some (.null _) => .special .null
  | _ => .unknownBecause "Parameter type to be inferred"

end Gradual
