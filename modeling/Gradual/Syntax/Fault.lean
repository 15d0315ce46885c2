import Gradual.Syntax.Lexer

/-!
# Syntax errors

A syntax error is a cause and the position of the token (or unit) at which reading stopped. The
wording and the code of every cause are given here.
-/

namespace Gradual

/-- What a missing name was to name. -/
inductive NameRole where
  | variable
  | function
  | procedure
  | parameter
  | loopVariable
  | type
  | member
deriving DecidableEq, Repr

namespace NameRole

/-- The role in a message. -/
def describe : NameRole → Text
  | .variable => "variable name"
  | .function => "function name"
  | .procedure => "procedure name"
  | .parameter => "parameter name"
  | .loopVariable => "loop variable"
  | .type => "type name"
  | .member => "member name"

end NameRole

/-- Why a module cannot be read. `found` is how the offending token is written, none at the end of
the module. -/
inductive SyntaxFault where
  | lexical (fault : LexicalFault)
  | expectedKeyword (word : Keyword) (found : Option Text)
  | expectedMark (mark : Mark) (found : Option Text)
  | expectedName (role : NameRole) (found : Option Text)
  | invalidTarget
  | noStatement (found : Option Text)
  | noExpression (found : Option Text)
  | trailing (raw : Text)
  /-- The bound on the depth of the descent was too small for the module. -/
  | tooDeep
deriving DecidableEq, Repr

/-- The wording of a token that was found. -/
def describeFound : Option Text → Text
  | some raw => raw.quoted
  | none => "end of file"

namespace LexicalFault

/-- The message of a lexical fault. -/
def message : LexicalFault → Text
  | unexpectedCharacter c => "Unexpected character " ++ Text.quoted [c]
  | unterminatedString => "Unterminated string literal"
  | unterminatedDate => "Unterminated date literal"

/-- The code of a lexical fault. -/
def code : LexicalFault → Code
  | unexpectedCharacter _ => .unexpectedCharacter
  | unterminatedString | unterminatedDate => .unterminatedLiteral

end LexicalFault

namespace SyntaxFault

/-- The message of a fault. -/
def message : SyntaxFault → Text
  | lexical fault => fault.message
  | expectedKeyword word found =>
    "Expected " ++ word.russian.quoted ++ " but found " ++ describeFound found
  | expectedMark m found => "Expected " ++ m.text.quoted ++ " but found " ++ describeFound found
  | expectedName role found => "Expected " ++ role.describe ++ " but found " ++ describeFound found
  | invalidTarget => "Invalid assignment target"
  | noStatement found =>
    "Unexpected " ++ describeFound found ++ ", expected an assignment or a call"
  | noExpression found => "Unexpected " ++ describeFound found ++ " in expression"
  | trailing raw => "Unexpected " ++ raw.quoted
  | tooDeep => "Nesting too deep"

/-- The code of a fault: a keyword or an expression that is missing at the end of the module has a
code of its own. -/
def code : SyntaxFault → Code
  | lexical fault => fault.code
  | expectedKeyword _ none | noExpression none => .missingEnd
  | _ => .unexpectedToken

end SyntaxFault

/-- A fault and where it was found. -/
structure SyntaxError where
  fault : SyntaxFault
  position : Position
deriving DecidableEq, Repr

namespace SyntaxError

/-- The diagnostic of a syntax error in a file. -/
def toDiagnostic (file : Text) (e : SyntaxError) : Diagnostic where
  code := e.fault.code
  severity := .error
  message := e.fault.message
  location := some (.ofPosition file e.position)
  hint := none

end SyntaxError

namespace Stream

/-- The tokens of a module, or the error that stops their reading. -/
def ofSource (source : Text) : Except SyntaxError Stream :=
  match Lexer.tokenize source with
  | .ok s => .ok s
  | .error (fault, p) => .error ⟨.lexical fault, p⟩

end Stream

end Gradual
