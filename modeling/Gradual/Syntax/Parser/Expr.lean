import Gradual.Syntax.Expr
import Gradual.Syntax.Parser.Basic
import Gradual.Numeral

/-!
# Reading expressions

Operators bind at eight levels, from the disjunction to the access to a member. An expression at a
level is a sequence of operands of the next tighter level joined by the operators of the level,
grouped to the left.

The descent is bounded by a number that decreases with every call. `Stream.depth` is always large
enough, since a call that reads no token goes to a tighter level.
-/

namespace Gradual

/-- How tightly an expression binds, the loosest first. -/
inductive Level where
  | disjunction
  | conjunction
  | negation
  | comparison
  | sum
  | product
  | sign
  | access
deriving DecidableEq, Repr

namespace Level

/-- The next tighter level. -/
def tighter : Level → Level
  | disjunction => conjunction
  | conjunction => negation
  | negation => comparison
  | comparison => sum
  | sum => product
  | product => sign
  | sign => access
  | access => access

/-- The binary operator of a level that a lexeme stands for. -/
def operator? : Level → Lexeme → Option BinaryOp
  | disjunction, .keyword .kwOr => some .or
  | conjunction, .keyword .kwAnd => some .and
  | comparison, .mark .equal => some .eq
  | comparison, .mark .notEqual => some .ne
  | comparison, .mark .less => some .lt
  | comparison, .mark .lessEqual => some .le
  | comparison, .mark .greater => some .gt
  | comparison, .mark .greaterEqual => some .ge
  | sum, .mark .plus => some .add
  | sum, .mark .minus => some .sub
  | product, .mark .star => some .mul
  | product, .mark .slash => some .div
  | product, .mark .percent => some .mod
  | _, _ => none

end Level

namespace Stream

/-- A bound on the depth of the descent that is enough for every stream of this length. -/
def depth (s : Stream) : Nat := 16 * (s.length + 1)

end Stream

namespace Parser

mutual

/-- An expression that binds at least as tightly as the level. -/
def expression : (depth : Nat) → Level → Stream → Except SyntaxError (Expr × Stream)
  | 0, _, s => s.fail .tooDeep
  | n + 1, .negation, s =>
    match s with
    | .next ⟨.keyword .kwNot, _, p⟩ rest => do
      let (operand, s) ← expression n .negation rest
      .ok (.unary .not operand (some p), s)
    | _ => expression n .comparison s
  | n + 1, .sign, s =>
    match s with
    | .next ⟨.mark .minus, _, p⟩ rest => do
      let (operand, s) ← expression n .sign rest
      .ok (.unary .neg operand (some p), s)
    | .next ⟨.mark .plus, _, _⟩ rest => expression n .sign rest
    | _ => expression n .access s
  | n + 1, .access, s => do
    let (e, s) ← primary n s
    accesses n e s
  | n + 1, level, s => do
    let (left, s) ← expression n level.tighter s
    operations n level left s

/-- The operators of a level that follow an operand, with their right operands. -/
def operations : (depth : Nat) → Level → Expr → Stream → Except SyntaxError (Expr × Stream)
  | 0, _, _, s => s.fail .tooDeep
  | n + 1, level, left, .next t rest =>
    match level.operator? t.lexeme with
    | some op => do
      let (right, s) ← expression n level.tighter rest
      operations n level (.binary op left right (some t.position)) s
    | none => .ok (left, .next t rest)
  | _ + 1, _, left, .finish p => .ok (left, .finish p)

/-- The members, calls and indices that follow an operand. A call stands where its callee does. -/
def accesses : (depth : Nat) → Expr → Stream → Except SyntaxError (Expr × Stream)
  | 0, _, s => s.fail .tooDeep
  | n + 1, e, s =>
    match s with
    | .next ⟨.mark .dot, _, p⟩ rest =>
      match rest with
      | .next ⟨.identifier _, raw, _⟩ rest' => accesses n (.member e raw (some p)) rest'
      | .next ⟨.keyword _, raw, _⟩ rest' => accesses n (.member e raw (some p)) rest'
      | _ => rest.fail (.expectedName .member rest.raw?)
    | .next ⟨.mark .openParen, _, _⟩ rest => do
      let (args, s) ← arguments n rest
      accesses n (.call e args e.loc) s
    | .next ⟨.mark .openBracket, _, p⟩ rest => do
      let (key, s) ← expression n .disjunction rest
      let s ← s.expectMark .closeBracket
      accesses n (.index e key (some p)) s
    | _ => .ok (e, s)

/-- The arguments after an opening parenthesis, with the closing one. -/
def arguments : (depth : Nat) → Stream → Except SyntaxError (List Expr × Stream)
  | 0, s => s.fail .tooDeep
  | n + 1, s => if s.startsWithMark .closeParen then .ok ([], s.tail) else argumentList n s

/-- One or more arguments up to the closing parenthesis. -/
def argumentList : (depth : Nat) → Stream → Except SyntaxError (List Expr × Stream)
  | 0, s => s.fail .tooDeep
  | n + 1, s => do
    let (arg, s) ← argument n s
    match s.takeMark .comma with
    | (true, s) => do
      let (rest, s) ← argumentList n s
      .ok (arg :: rest, s)
    | (false, s) => do
      let s ← s.expectMark .closeParen
      .ok ([arg], s)

/-- An argument; where one is left out, it is the undefined value. -/
def argument : (depth : Nat) → Stream → Except SyntaxError (Expr × Stream)
  | 0, s => s.fail .tooDeep
  | n + 1, s =>
    if s.startsWithMark .comma ||
      s.startsWithMark .closeParen then .ok (.undefined (some s.position), s)
    else expression n .disjunction s

/-- Literals, names, constructors, choices and parenthesised expressions. -/
def primary : (depth : Nat) → Stream → Except SyntaxError (Expr × Stream)
  | 0, s => s.fail .tooDeep
  | n + 1, s =>
    match s with
    | .next ⟨.number digits, _, p⟩ rest => .ok (.number (Numeral.toFloat digits) (some p), rest)
    | .next ⟨.string value, _, p⟩ rest => .ok (.string value (some p), rest)
    | .next ⟨.date value, _, p⟩ rest => .ok (.date value (some p), rest)
    | .next ⟨.identifier name, _, p⟩ rest => .ok (.ident name (some p), rest)
    | .next ⟨.keyword .kwTrue, _, p⟩ rest => .ok (.boolean true (some p), rest)
    | .next ⟨.keyword .kwFalse, _, p⟩ rest => .ok (.boolean false (some p), rest)
    | .next ⟨.keyword .kwUndefined, _, p⟩ rest => .ok (.undefined (some p), rest)
    | .next ⟨.keyword .kwNull, _, p⟩ rest => .ok (.null (some p), rest)
    | .next ⟨.keyword .kwNew, _, p⟩ rest => do
      let ((typeName, _), s) ← rest.expectName .type
      match s.takeMark .openParen with
      | (true, s) => do
        let (args, s) ← arguments n s
        .ok (.new typeName args (some p), s)
      | (false, s) => .ok (.new typeName [] (some p), s)
    | .next ⟨.mark .openParen, _, _⟩ rest => do
      let (inner, s) ← expression n .disjunction rest
      let s ← s.expectMark .closeParen
      .ok (inner, s)
    | .next ⟨.mark .question, _, p⟩ rest => do
      let s ← rest.expectMark .openParen
      let (condition, s) ← expression n .disjunction s
      let s ← s.expectMark .comma
      let (whenTrue, s) ← expression n .disjunction s
      let s ← s.expectMark .comma
      let (whenFalse, s) ← expression n .disjunction s
      let s ← s.expectMark .closeParen
      .ok (.choice condition whenTrue whenFalse (some p), s)
    | _ => s.fail (.noExpression s.raw?)

end

end Parser

end Gradual
