import Gradual.Text.Basic

/-!
# Writing JSON

A document is written with every item and field on a line of its own, two spaces deeper than what
holds it. Empty lists and records stay on one line. Control characters and surrogates that stand
alone are escaped.
-/

namespace Gradual

/-- A JSON document to be written. -/
inductive Document where
  | null
  | nat (n : Nat)
  | text (t : Text)
  | list (items : List Document)
  | record (fields : List (Text × Document))

namespace Document

/-! ## Strings -/

/-- The hexadecimal digit of a number below sixteen. -/
def hexDigit (n : Nat) : CodeUnit := (if n < 10 then 0x30 + n else 0x57 + n).toUInt16

/-- A unit as an escape with four hexadecimal digits. -/
def hexEscape (n : Nat) : Text :=
  "\\u" ++ [0x1000, 0x100, 0x10, 1].map fun unit => hexDigit (n / unit % 16)

/-- A code point inside a string. -/
def escape (p : Nat) : Text :=
  if p = 0x22 then "\\\""
  else if p = 0x5C then "\\\\"
  else if p = 0x08 then "\\b"
  else if p = 0x09 then "\\t"
  else if p = 0x0A then "\\n"
  else if p = 0x0C then "\\f"
  else if p = 0x0D then "\\r"
  else if p < 0x20 || Text.isSurrogatePoint p then hexEscape p
  else Text.unitsOf p

/-- A string between double quotes. -/
def quote (t : Text) : Text := "\"" ++ t.points.flatMap escape ++ "\""

/-! ## Layout -/

/-- A line feed and the given number of spaces. -/
def newline (indent : Nat) : Text := Text.newline :: List.replicate indent 0x20

/-- Pieces between brackets, each on a line of its own. -/
def enclose (opening closing : Text) (indent : Nat) (pieces : List Text) : Text :=
  if pieces.isEmpty then opening ++ closing
  else
    opening ++ newline (indent + 2) ++ Text.join ("," ++ newline (indent + 2)) pieces ++
      newline indent ++ closing

mutual

/-- The text of a document whose first line stands at an indent. -/
def renderAt (indent : Nat) : Document → Text
  | null => "null"
  | nat n => Text.ofNat n
  | text t => quote t
  | list items => enclose "[" "]" indent (renderItems (indent + 2) items)
  | record fields => enclose "\x7b" "\x7d" indent (renderFields (indent + 2) fields)

/-- The texts of items. -/
def renderItems (indent : Nat) : List Document → List Text
  | [] => []
  | d :: rest => renderAt indent d :: renderItems indent rest

/-- The texts of fields. -/
def renderFields (indent : Nat) : List (Text × Document) → List Text
  | [] => []
  | (name, d) :: rest => (quote name ++ ": " ++ renderAt indent d) :: renderFields indent rest

end

/-- The text of a document. -/
def render (d : Document) : Text := renderAt 0 d

/-- A record without the fields that are absent. -/
def ofFields (fields : List (Text × Option Document)) : Document :=
  record (fields.filterMap fun f => f.2.map fun d => (f.1, d))

end Document

end Gradual
