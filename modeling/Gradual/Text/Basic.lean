/-!
# Texts as code units

Columns, identifier characters and literals of a module are counted in UTF-16 code units, so a text
is a list of such units. Every `String` has a text, and string literals are accepted wherever a text
is expected. A text may hold a surrogate that stands alone, which no `String` can.
-/

namespace Gradual

/-- One UTF-16 code unit. -/
abbrev CodeUnit := UInt16

/-- A sequence of UTF-16 code units. -/
abbrev Text := List CodeUnit

namespace Text

/-! ## Code points -/

/-- First half of a surrogate pair. -/
def isHighSurrogate (c : CodeUnit) : Bool := 0xD800 ≤ c && c < 0xDC00

/-- Second half of a surrogate pair. -/
def isLowSurrogate (c : CodeUnit) : Bool := 0xDC00 ≤ c && c < 0xE000

/-- The units of one code point: itself inside the basic plane, a surrogate pair above it. -/
def unitsOf (point : Nat) : Text :=
  if point < 0x10000 then [point.toUInt16]
  else [(0xD800 + (point - 0x10000) / 0x400).toUInt16,
    (0xDC00 + (point - 0x10000) % 0x400).toUInt16]

/-- The code point of a surrogate pair. -/
def pairPoint (high low : CodeUnit) : Nat :=
  0x10000 + (high.toNat - 0xD800) * 0x400 + (low.toNat - 0xDC00)

/-- The code points of a text; a surrogate that stands alone is a point of its own. -/
def points : Text → List Nat
  | [] => []
  | [c] => [c.toNat]
  | c :: d :: rest =>
    if isHighSurrogate c && isLowSurrogate d then pairPoint c d :: points rest
    else c.toNat :: points (d :: rest)

/-- The text with the given code points. -/
def ofPoints (ps : List Nat) : Text := ps.flatMap unitsOf

/-! ## Strings and texts -/

/-- The code units of a string. -/
def ofString (s : String) : Text := ofPoints (s.toList.map Char.toNat)

instance : Coe String Text := ⟨ofString⟩

/-- Whether a code point is a surrogate, which is no character. -/
def isSurrogatePoint (p : Nat) : Bool := 0xD800 ≤ p && p < 0xE000

/-- The string of a text, where `lone` shows a surrogate that stands alone. -/
def toStringWith (lone : Nat → String) (t : Text) : String :=
  String.join (t.points.map fun p =>
    if isSurrogatePoint p then lone p else String.singleton (Char.ofNat p))

/-! ## Numbers, lines and pieces -/

/-- Decimal digits of a natural number. -/
def ofNat (n : Nat) : Text := ofString n.repr

/-- The pieces with a separator between each two. -/
def join (separator : Text) (pieces : List Text) : Text := List.intercalate separator pieces

/-- The line feed. -/
def newline : CodeUnit := 0x0A

/-- The pieces on lines of their own. -/
def lines (pieces : List Text) : Text := join [newline] pieces

/-- The text behind two spaces. -/
def indented (t : Text) : Text := "  " ++ t

/-- The text between single quotes. -/
def quoted (t : Text) : Text := "'" ++ t ++ "'"

end Text

end Gradual
