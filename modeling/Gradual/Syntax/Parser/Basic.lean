import Gradual.Syntax.Fault

/-!
# Single tokens

Parsing functions take the tokens that are left and give back a tree with the tokens left after it,
or an error at the first token that does not fit.
-/

namespace Gradual

namespace Stream

/-- An error at the first token. -/
def fail {α : Type} (s : Stream) (fault : SyntaxFault) : Except SyntaxError α :=
  .error ⟨fault, s.position⟩

/-- The first token's lexeme, unless the module ends here. -/
def lexeme? : Stream → Option Lexeme
  | finish _ => none
  | next t _ => some t.lexeme

/-- Whether the first token is the given keyword. -/
def startsWithWord (s : Stream) (k : Keyword) : Bool := s.lexeme? == some (.keyword k)

/-- Whether the first token is the given mark. -/
def startsWithMark (s : Stream) (m : Mark) : Bool := s.lexeme? == some (.mark m)

/-- The tokens after the first one. -/
def tail : Stream → Stream
  | finish p => finish p
  | next _ rest => rest

/-- Drops the given mark if it comes first, and says whether it did. -/
def takeMark (m : Mark) (s : Stream) : Bool × Stream :=
  if s.startsWithMark m then (true, s.tail) else (false, s)

/-- Drops the given keyword if it comes first, and says whether it did. -/
def takeWord (k : Keyword) (s : Stream) : Bool × Stream :=
  if s.startsWithWord k then (true, s.tail) else (false, s)

/-- Drops the given keyword, which has to come first. -/
def expectWord (k : Keyword) (s : Stream) : Except SyntaxError Stream :=
  if s.startsWithWord k then .ok s.tail else s.fail (.expectedKeyword k s.raw?)

/-- Drops the given mark, which has to come first. -/
def expectMark (m : Mark) (s : Stream) : Except SyntaxError Stream :=
  if s.startsWithMark m then .ok s.tail else s.fail (.expectedMark m s.raw?)

/-- Reads an identifier, which has to come first, with its position. -/
def expectName (role : NameRole) (s : Stream) : Except SyntaxError ((Text × Position) × Stream) :=
  match s with
  | next ⟨.identifier name, _, p⟩ rest => .ok ((name, p), rest)
  | _ => s.fail (.expectedName role s.raw?)

/-- Drops the semicolons that come first. -/
def skipSemicolons : Stream → Stream
  | finish p => finish p
  | next t rest => if t.lexeme = .mark .semicolon then rest.skipSemicolons else next t rest

/-- Whether an expression can start here: not at the end, not at a semicolon, and at a keyword only
if it is one of those that begin an operand. -/
def startsExpression (s : Stream) : Bool :=
  match s.lexeme? with
  | none => false
  | some (.mark .semicolon) => false
  | some (.keyword k) =>
    [Keyword.kwNot, .kwNew, .kwTrue, .kwFalse, .kwUndefined, .kwNull].contains k
  | some _ => true

end Stream

end Gradual
