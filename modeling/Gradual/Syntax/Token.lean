import Gradual.Diagnostic
import Gradual.Syntax.Keyword

/-!
# Tokens

A lexeme is what a token means: its kind together with its decoded content. A token adds how it was
written and where. A token stream is a list of tokens that ends in the position where the module
ends.
-/

namespace Gradual

/-- Punctuation marks and operator signs. -/
inductive Mark where
  | notEqual | lessEqual | greaterEqual
  | plus | minus | star | slash | percent
  | equal | less | greater
  | openParen | closeParen | openBracket | closeBracket
  | comma | semicolon | dot | question
deriving DecidableEq, Repr

namespace Mark

/-- The written form. -/
def text : Mark → Text
  | notEqual => "<>" | lessEqual => "<=" | greaterEqual => ">="
  | plus => "+" | minus => "-" | star => "*" | slash => "/" | percent => "%"
  | equal => "=" | less => "<" | greater => ">"
  | openParen => "(" | closeParen => ")" | openBracket => "[" | closeBracket => "]"
  | comma => "," | semicolon => ";" | dot => "." | question => "?"

/-- All marks, the longer ones first. -/
def all : List Mark :=
  [notEqual, lessEqual, greaterEqual, plus, minus, star, slash, percent, equal, less, greater,
    openParen, closeParen, openBracket, closeBracket, comma, semicolon, dot, question]

end Mark

/-- Kind and decoded content of a token. -/
inductive Lexeme where
  | identifier (name : Text)
  | keyword (word : Keyword)
  | number (digits : Text)
  | string (value : Text)
  | date (value : Text)
  | mark (mark : Mark)
deriving DecidableEq, Repr

namespace Lexeme

/-- The name of the kind. -/
def kind : Lexeme → Text
  | identifier _ => "identifier"
  | keyword _ => "keyword"
  | number _ => "number"
  | string _ => "string"
  | date _ => "date"
  | mark _ => "punctuation"

/-- The canonical text: the name, the keyword in English, the digits, the decoded literal, the
sign. -/
def text : Lexeme → Text
  | identifier name => name
  | keyword word => word.name
  | number digits => digits
  | string value => value
  | date value => value
  | mark m => m.text

end Lexeme

/-- A lexeme as it stands in a module. -/
structure Token where
  lexeme : Lexeme
  raw : Text
  position : Position
deriving DecidableEq, Repr

/-- The tokens of a module, up to the position of its end. -/
inductive Stream where
  | finish (position : Position)
  | next (token : Token) (rest : Stream)
deriving DecidableEq, Repr

namespace Stream

/-- Where the first token stands, or the end of the module. -/
def position : Stream → Position
  | finish p => p
  | next t _ => t.position

/-- How the first token is written, unless the module ends here. -/
def raw? : Stream → Option Text
  | finish _ => none
  | next t _ => some t.raw

/-- The tokens before the end. -/
def tokens : Stream → List Token
  | finish _ => []
  | next t rest => t :: rest.tokens

/-- The position of the end. -/
def finishPosition : Stream → Position
  | finish p => p
  | next _ rest => rest.finishPosition

/-- How many tokens stand before the end. -/
def length : Stream → Nat
  | finish _ => 0
  | next _ rest => rest.length + 1

end Stream

end Gradual
