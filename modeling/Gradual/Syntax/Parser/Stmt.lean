import Gradual.Syntax.Stmt
import Gradual.Syntax.Parser.Expr

/-!
# Reading statements

A block is a sequence of statements, with any number of semicolons before, between and after them;
it ends at one of the keywords that close it, or at the end of the module.
-/

namespace Gradual

namespace Parser

/-! ## Declarations -/

/-- The expression after an equals sign, if there is one. -/
def initialValue (depth : Nat) (level : Level) (s : Stream) :
    Except SyntaxError (Option Expr × Stream) :=
  match s.takeMark .equal with
  | (true, s) => do
    let (e, s) ← expression depth level s
    .ok (some e, s)
  | (false, s) => .ok (none, s)

/-- The variables after `Перем`, separated by commas. -/
def declarations : (depth : Nat) → Stream → Except SyntaxError (List Stmt × Stream)
  | 0, s => s.fail .tooDeep
  | n + 1, s => do
    let ((name, p), s) ← s.expectName .variable
    let (value, s) ← initialValue n .disjunction s
    let (exported, s) := s.takeWord .kwExport
    match s.takeMark .comma with
    | (true, s) => do
      let (more, s) ← declarations n s
      .ok (.declare name exported value (some p) :: more, s)
    | (false, s) => .ok ([.declare name exported value (some p)], s)

/-- One or more parameters up to the closing parenthesis. A default value is an operand with its
signs. -/
def parameterList : (depth : Nat) → Stream → Except SyntaxError (List Param × Stream)
  | 0, s => s.fail .tooDeep
  | n + 1, s => do
    let (byValue, s) := s.takeWord .kwVal
    let ((name, _), s) ← s.expectName .parameter
    let (default?, s) ← initialValue n .sign s
    match s.takeMark .comma with
    | (true, s) => do
      let (more, s) ← parameterList n s
      .ok (⟨name, byValue, default?⟩ :: more, s)
    | (false, s) => do
      let s ← s.expectMark .closeParen
      .ok ([⟨name, byValue, default?⟩], s)

/-- Parameters in parentheses. -/
def parameters (depth : Nat) (s : Stream) : Except SyntaxError (List Param × Stream) := do
  let s ← s.expectMark .openParen
  match s.takeMark .closeParen with
  | (true, s) => .ok ([], s)
  | (false, s) => parameterList depth s

/-! ## Simple statements -/

/-- The statement that a complete access followed by no equals sign makes: a call of a name or of a
method. -/
def callStatement? (p : Position) : Expr → Option Stmt
  | .call (.ident name _) args _ => some (.call name none args (some p))
  | .call (.member object name _) args _ => some (.call name (some object) args (some p))
  | _ => none

/-- An assignment or a call. -/
def simpleStatement (depth : Nat) (s : Stream) : Except SyntaxError (Stmt × Stream) := do
  let p := s.position
  let (target, s) ← expression depth .access s
  match s.takeMark .equal with
  | (true, s) =>
    if target.isTarget then do
      let (value, s) ← expression depth .disjunction s
      .ok (.assign target value (some p), s)
    else s.fail .invalidTarget
  | (false, s) =>
    match callStatement? p target with
    | some call => .ok (call, s)
    | none => s.fail (.noStatement s.raw?)

/-- An expression if one can start here. -/
def optionalExpression (depth : Nat) (s : Stream) : Except SyntaxError (Option Expr × Stream) :=
  if s.startsExpression then do
    let (e, s) ← expression depth .disjunction s
    .ok (some e, s)
  else .ok (none, s)

/-! ## Blocks -/

/-- The keyword that closes a routine. -/
def closing : RoutineKind → Keyword
  | .procedure => .kwEndProcedure
  | .function => .kwEndFunction

/-- The role of a routine's name. -/
def routineRole : RoutineKind → NameRole
  | .procedure => .procedure
  | .function => .function

/-- The keywords that close the branch of a conditional. -/
def branchEnds : List Keyword := [.kwElsif, .kwElse, .kwEndIf]

mutual

/-- The statements up to one of the closing keywords or the end of the module. -/
def block : (depth : Nat) → List Keyword → Stream → Except SyntaxError (List Stmt × Stream)
  | 0, _, s => s.fail .tooDeep
  | n + 1, ends, s =>
    let s := s.skipSemicolons
    match s.lexeme? with
    | none => .ok ([], s)
    | some l =>
      if ends.any fun k => l = .keyword k then .ok ([], s)
      else do
        let (first, s) ← statement n s
        let (more, s) ← block n ends s
        .ok (first ++ more, s)

/-- One statement; a declaration of several variables counts as several. -/
def statement : (depth : Nat) → Stream → Except SyntaxError (List Stmt × Stream)
  | 0, s => s.fail .tooDeep
  | n + 1, s =>
    match s with
    | .next ⟨.keyword .kwVar, _, _⟩ rest => declarations n rest
    | .next ⟨.keyword .kwProcedure, _, p⟩ rest => routine n .procedure p rest
    | .next ⟨.keyword .kwFunction, _, p⟩ rest => routine n .function p rest
    | .next ⟨.keyword .kwIf, _, p⟩ rest => do
      let (condition, s) ← expression n .disjunction rest
      let s ← s.expectWord .kwThen
      let (body, s) ← block n branchEnds s
      let (alternative, s) ← alternative n s
      .ok ([.conditional condition body alternative (some p)], s)
    | .next ⟨.keyword .kwFor, _, p⟩ rest =>
      match rest.takeWord .kwEach with
      | (true, s) => do
        let ((name, _), s) ← s.expectName .loopVariable
        let s ← s.expectWord .kwIn
        let (collection, s) ← expression n .disjunction s
        let (body, s) ← loopBody n s
        .ok ([.forEach name collection body (some p)], s)
      | (false, s) => do
        let ((name, _), s) ← s.expectName .loopVariable
        let s ← s.expectMark .equal
        let (first, s) ← expression n .disjunction s
        let s ← s.expectWord .kwTo
        let (last, s) ← expression n .disjunction s
        let (body, s) ← loopBody n s
        .ok ([.forTo name first last body (some p)], s)
    | .next ⟨.keyword .kwWhile, _, p⟩ rest => do
      let (condition, s) ← expression n .disjunction rest
      let (body, s) ← loopBody n s
      .ok ([.whileDo condition body (some p)], s)
    | .next ⟨.keyword .kwReturn, _, p⟩ rest => do
      let (value, s) ← optionalExpression n rest
      .ok ([.ret value (some p)], s)
    | .next ⟨.keyword .kwBreak, _, p⟩ rest => .ok ([.brk (some p)], rest)
    | .next ⟨.keyword .kwContinue, _, p⟩ rest => .ok ([.cont (some p)], rest)
    | .next ⟨.keyword .kwTry, _, p⟩ rest => do
      let (body, s) ← block n [.kwExcept, .kwEndTry] rest
      match s.takeWord .kwExcept with
      | (true, s) => do
        let (handler, s) ← block n [.kwEndTry] s
        let s ← s.expectWord .kwEndTry
        .ok ([.attempt body (some handler) (some p)], s)
      | (false, s) => do
        let s ← s.expectWord .kwEndTry
        .ok ([.attempt body none (some p)], s)
    | .next ⟨.keyword .kwRaise, _, p⟩ rest => do
      let (message, s) ← optionalExpression n rest
      .ok ([.raise message (some p)], s)
    | _ => do
      let (simple, s) ← simpleStatement n s
      .ok ([simple], s)

/-- A routine after its opening keyword, which stands at the given position. -/
def routine : (depth : Nat) → RoutineKind → Position → Stream →
    Except SyntaxError (List Stmt × Stream)
  | 0, _, _, s => s.fail .tooDeep
  | n + 1, kind, p, s => do
    let ((name, _), s) ← s.expectName (routineRole kind)
    let (params, s) ← parameters n s
    let (exported, s) := s.takeWord .kwExport
    let (body, s) ← block n [closing kind] s
    let s ← s.expectWord (closing kind)
    .ok ([.routine kind name params body exported (some p)], s)

/-- The body of a loop between `Цикл` and `КонецЦикла`. -/
def loopBody : (depth : Nat) → Stream → Except SyntaxError (List Stmt × Stream)
  | 0, s => s.fail .tooDeep
  | n + 1, s => do
    let s ← s.expectWord .kwDo
    let (body, s) ← block n [.kwEndDo] s
    let s ← s.expectWord .kwEndDo
    .ok (body, s)

/-- What follows the branch of a conditional, up to and including `КонецЕсли`. -/
def alternative : (depth : Nat) → Stream → Except SyntaxError (Alternative × Stream)
  | 0, s => s.fail .tooDeep
  | n + 1, s =>
    match s.takeWord .kwElsif with
    | (true, s) => do
      let (condition, s) ← expression n .disjunction s
      let s ← s.expectWord .kwThen
      let (body, s) ← block n branchEnds s
      let (rest, s) ← alternative n s
      .ok (.elsif condition body rest, s)
    | (false, s) =>
      match s.takeWord .kwElse with
      | (true, s) => do
        let (body, s) ← block n [.kwEndIf] s
        let s ← s.expectWord .kwEndIf
        .ok (.otherwise body, s)
      | (false, s) => do
        let s ← s.expectWord .kwEndIf
        .ok (.none, s)

end

/-! ## Modules -/

/-- The program of a token stream, which has to be used up. -/
def program (s : Stream) : Except SyntaxError Program := do
  let (statements, s) ← block s.depth [] s
  match s.raw? with
  | none => .ok statements
  | some raw => s.fail (.trailing raw)

end Parser

namespace Program

/-- Reads a module. -/
def ofSource (source : Text) : Except SyntaxError Program := do
  let tokens ← Stream.ofSource source
  Parser.program tokens

/-- Reads a module of a file; a syntax error becomes a diagnostic. -/
def parse (file source : Text) : Except Diagnostic Program :=
  match ofSource source with
  | .ok p => .ok p
  | .error e => .error (e.toDiagnostic file)

end Program

end Gradual
