import Gradual.Json.Value

/-!
# Reading JSON

A text is read by the grammar of JSON and nothing beyond it: no comments, no trailing commas, no
numbers with leading zeros, no raw control characters in strings. A text that is not well-formed has
no value.

The functions for values take a bound on the number of steps; one more than the length of the text
is enough, since every step takes at least one unit.
-/

namespace Gradual

namespace Json

namespace Reader

/-! ## Blanks and words -/

/-- Space, tab, line feed and carriage return. -/
def isBlank (c : CodeUnit) : Bool := c == 0x20 || c == 0x09 || c == 0x0A || c == 0x0D

/-- Drops blanks. -/
def skip (t : Text) : Text := t.dropWhile isBlank

/-- What follows a word. -/
def after? (word t : Text) : Option Text :=
  if word.isPrefixOf t then some (t.drop word.length) else none

/-! ## Strings -/

/-- The value of a hexadecimal digit. -/
def hexDigit? (c : CodeUnit) : Option Nat :=
  if 0x30 ≤ c && c ≤ 0x39 then some (c.toNat - 0x30)
  else if 0x41 ≤ c && c ≤ 0x46 then some (c.toNat - 0x37)
  else if 0x61 ≤ c && c ≤ 0x66 then some (c.toNat - 0x57)
  else none

/-- The unit of four hexadecimal digits. -/
def hexUnit? (a b c d : CodeUnit) : Option CodeUnit := do
  let a ← hexDigit? a
  let b ← hexDigit? b
  let c ← hexDigit? c
  let d ← hexDigit? d
  return (((a * 16 + b) * 16 + c) * 16 + d).toUInt16

/-- The unit of an escape with one letter. -/
def escaped? (c : CodeUnit) : Option CodeUnit :=
  if c == 0x22 || c == 0x5C || c == 0x2F then some c
  else if c == 0x62 then some 0x08
  else if c == 0x66 then some 0x0C
  else if c == 0x6E then some 0x0A
  else if c == 0x72 then some 0x0D
  else if c == 0x74 then some 0x09
  else none

/-- A string behind its opening quote, and what follows its closing quote. -/
def string : Text → Option (Text × Text)
  | [] => none
  | 0x22 :: rest => some ([], rest)
  | 0x5C :: 0x75 :: a :: b :: c :: d :: rest => do
    let unit ← hexUnit? a b c d
    let (value, rest) ← string rest
    return (unit :: value, rest)
  | 0x5C :: c :: rest => do
    let unit ← escaped? c
    let (value, rest) ← string rest
    return (unit :: value, rest)
  | c :: rest =>
    if c < 0x20 || c == 0x5C then none
    else do
      let (value, rest) ← string rest
      return (c :: value, rest)

/-! ## Numbers -/

/-- At least one digit, and what follows. -/
def digits? (t : Text) : Option (Text × Text) :=
  let ds := t.takeWhile Text.isDigit
  if ds.isEmpty then none else some (ds, t.drop ds.length)

/-- The digits before the point, of which the first is zero only if it is the only one. -/
def whole? (t : Text) : Option (Text × Text) := do
  let (ds, rest) ← digits? t
  if ds.head? == some 0x30 && ds.length != 1 then none else some (ds, rest)

/-- The digits after a point, if there is one. -/
def fraction? : Text → Option (Text × Text)
  | 0x2E :: rest => digits? rest
  | t => some ([], t)

/-- A sign that may be left out, and what follows. -/
def sign : Text → Bool × Text
  | 0x2D :: rest => (true, rest)
  | 0x2B :: rest => (false, rest)
  | t => (false, t)

/-- The exponent, zero if there is none. -/
def exponent? : Text → Option (Int × Text)
  | c :: rest =>
    if c == 0x65 || c == 0x45 then do
      let (negative, rest) := sign rest
      let (ds, rest) ← digits? rest
      let n : Int := Numeral.ofDigits ds
      return (if negative then -n else n, rest)
    else some (0, c :: rest)
  | [] => some (0, [])

/-- A number, and what follows. -/
def number? (t : Text) : Option (Float × Text) := do
  let (negative, t) := if t.head? == some 0x2D then (true, t.drop 1) else (false, t)
  let (whole, t) ← whole? t
  let (fraction, t) ← fraction? t
  let (exponent, t) ← exponent? t
  let x := Numeral.scaled (Numeral.ofDigits (whole ++ fraction)) (exponent - fraction.length)
  return (if negative then -x else x, t)

/-! ## Values -/

mutual

/-- A value, and what follows. -/
def value : (bound : Nat) → Text → Option (Json × Text)
  | 0, _ => none
  | n + 1, t =>
    match skip t with
    | [] => none
    | c :: rest =>
      if c == 0x22 then (string rest).map fun r => (.string r.1, r.2)
      else if c == 0x5B then
        match after? "]" (skip rest) with
        | some rest => some (.array [], rest)
        | none => (items n rest).map fun r => (.array r.1, r.2)
      else if c == 0x7B then
        match after? "\x7d" (skip rest) with
        | some rest => some (.object [], rest)
        | none => (fields n rest).map fun r => (.object r.1, r.2)
      else if c == 0x6E then (after? "null" (c :: rest)).map fun r => (.null, r)
      else if c == 0x74 then (after? "true" (c :: rest)).map fun r => (.boolean true, r)
      else if c == 0x66 then (after? "false" (c :: rest)).map fun r => (.boolean false, r)
      else (number? (c :: rest)).map fun r => (.number r.1, r.2)

/-- The items of an array up to its end. -/
def items : (bound : Nat) → Text → Option (List Json × Text)
  | 0, _ => none
  | n + 1, t => do
    let (v, rest) ← value n t
    match skip rest with
    | 0x2C :: rest => do
      let (vs, rest) ← items n rest
      return (v :: vs, rest)
    | 0x5D :: rest => return ([v], rest)
    | _ => none

/-- The fields of an object up to its end. -/
def fields : (bound : Nat) → Text → Option (List (Text × Json) × Text)
  | 0, _ => none
  | n + 1, t => do
    let rest ← after? "\"" (skip t)
    let (name, rest) ← string rest
    let rest ← after? ":" (skip rest)
    let (v, rest) ← value n rest
    match skip rest with
    | 0x2C :: rest => do
      let (more, rest) ← fields n rest
      return ((name, v) :: more, rest)
    | 0x7D :: rest => return ([(name, v)], rest)
    | _ => none

end

end Reader

/-- The value of a text, if it is well-formed and nothing but blanks follows. -/
def read? (t : Text) : Option Json :=
  match Reader.value (t.length + 1) t with
  | some (v, rest) => if (Reader.skip rest).isEmpty then some v else none
  | none => none

end Json

end Gradual
