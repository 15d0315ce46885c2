import Gradual.Syntax.Token

/-!
# Reading tokens

Between tokens stand blanks, line feeds, comments (`//` to the end of the line) and, where nothing
but such gaps precedes them on their line, directive lines (`#` or `&` to the end of the line).
Every other unit starts a lexeme.

`scan` walks the source unit by unit. The units of a gap or lexeme after its first one are skipped
by count, so the recursion is on the source itself and every position is that of the unit it is
written for.
-/

namespace Gradual

/-- Why no token can be read. -/
inductive LexicalFault where
  | unexpectedCharacter (unit : CodeUnit)
  | unterminatedString
  | unterminatedDate
deriving DecidableEq, Repr

namespace Lexer

open Text

/-! ## Single units -/

/-- The double quote, around strings. -/
def doubleQuote : CodeUnit := 0x22

/-- The single quote, around dates. -/
def singleQuote : CodeUnit := 0x27

/-- The bar, which continues a string on a new line. -/
def bar : CodeUnit := 0x7C

/-- The slash; two of them start a comment. -/
def slash : CodeUnit := 0x2F

/-- The decimal point. -/
def point : CodeUnit := 0x2E

/-- Space, tab and carriage return. -/
def isIndent (c : CodeUnit) : Bool := c == 0x20 || c == 0x09 || c == 0x0D

/-- A unit that separates tokens: an indent or the byte order mark. -/
def isBlank (c : CodeUnit) : Bool := isIndent c || c == 0xFEFF

/-- A unit that starts a directive line. -/
def isDirective (c : CodeUnit) : Bool := c == 0x23 || c == 0x26

/-- A unit of the current line. -/
def inLine (c : CodeUnit) : Bool := c != newline

/-! ## Gaps -/

/-- The length of the gap at the head of a text, line feeds apart; none if a lexeme starts there. -/
def gap? (lineStart : Bool) : Text → Option Nat
  | [] => none
  | c :: rest =>
    if isBlank c then some 1
    else if c == slash && rest.head? == some slash then some ((c :: rest).takeWhile inLine).length
    else if lineStart && isDirective c then some ((c :: rest).takeWhile inLine).length
    else none

/-! ## Lexemes -/

/-- A word: a keyword in any case and either language, else an identifier. -/
def ofWord (word : Text) : Lexeme :=
  match Keyword.ofWord? word with
  | some k => .keyword k
  | none => .identifier word

/-- The digits at the head of a text, with a fraction if a point and a digit follow. -/
def numeral (s : Text) : Text :=
  let whole := s.takeWhile isDigit
  match s.drop whole.length with
  | p :: d :: rest =>
    if p == point && isDigit d then whole ++ p :: (d :: rest).takeWhile isDigit else whole
  | _ => whole

/-- Value and length of a string literal after its opening quote. A doubled quote stands for one. A
line feed has to be followed, after an indent, by a bar, and both together stand for a line feed;
`margin` holds between the two. -/
def stringRest : (margin : Bool) → Text → Option (Text × Nat)
  | _, [] => none
  | true, c :: rest =>
    if isIndent c then (stringRest true rest).map fun r => (r.1, r.2 + 1)
    else if c == bar then (stringRest false rest).map fun r => (newline :: r.1, r.2 + 1)
    else none
  | false, c :: rest =>
    if c == doubleQuote then
      match rest with
      | d :: rest' =>
        if d == doubleQuote then (stringRest false rest').map fun r => (doubleQuote :: r.1, r.2 + 2)
        else some ([], 1)
      | [] => some ([], 1)
    else if c == newline then (stringRest true rest).map fun r => (r.1, r.2 + 1)
    else (stringRest false rest).map fun r => (c :: r.1, r.2 + 1)

/-- The value of a date literal after its opening quote: all up to the closing quote, which stands
on the same line. -/
def dateRest (s : Text) : Option Text :=
  let value := s.takeWhile fun c => c != singleQuote && inLine c
  if (s.drop value.length).head? == some singleQuote then some value else none

/-- The longest mark at the head of a text. -/
def mark? (s : Text) : Option Mark := Mark.all.find? fun m => m.text.isPrefixOf s

/-- The lexeme at the head of a text, and its length. -/
def lexeme (c : CodeUnit) (rest : Text) : Except LexicalFault (Lexeme × Nat) :=
  if isWordStart c then
    let word := (c :: rest).takeWhile isWordPart
    .ok (ofWord word, word.length)
  else if isDigit c then
    let digits := numeral (c :: rest)
    .ok (.number digits, digits.length)
  else if c == doubleQuote then
    match stringRest false rest with
    | some (value, n) => .ok (.string value, n + 1)
    | none => .error .unterminatedString
  else if c == singleQuote then
    match dateRest rest with
    | some value => .ok (.date value, value.length + 2)
    | none => .error .unterminatedDate
  else
    match mark? (c :: rest) with
    | some m => .ok (.mark m, m.text.length)
    | none => .error (.unexpectedCharacter c)

/-! ## The whole source -/

/-- Reads tokens from a position on. `skip` units belong to what was read last; `lineStart` holds as
long as only gaps were read on the current line. -/
def scan (lineStart : Bool) (p : Position) :
    (skip : Nat) → Text → Except (LexicalFault × Position) Stream
  | _, [] => .ok (.finish p)
  | n + 1, c :: rest => scan lineStart (p.advance c) n rest
  | 0, c :: rest =>
    if c == newline then scan true (p.advance c) 0 rest
    else match gap? lineStart (c :: rest) with
      | some n => scan lineStart (p.advance c) (n - 1) rest
      | none =>
        match lexeme c rest with
        | .ok (l, n) =>
          (scan false (p.advance c) (n - 1) rest).map (.next ⟨l, (c :: rest).take n, p⟩)
        | .error fault => .error (fault, p)

/-- The tokens of a module. -/
def tokenize (source : Text) : Except (LexicalFault × Position) Stream := scan true .start 0 source

end Lexer

end Gradual
