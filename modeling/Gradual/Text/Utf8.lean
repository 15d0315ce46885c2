import Gradual.Text.Basic

/-!
# Texts from bytes

Files hold UTF-8. Bytes that are no part of a character are replaced: every longest piece that
starts a character without completing it, and every other stray byte, becomes one replacement
character. A byte order mark is kept.
-/

namespace Gradual

namespace Text

namespace Utf8

/-- What is known of a character whose first bytes were read: its point so far, how many bytes are
missing, and the range of the next one. -/
structure Pending where
  point : Nat
  missing : Nat
  least : Nat
  most : Nat
deriving DecidableEq, Repr

/-- The replacement character. -/
def replacement : Nat := 0xFFFD

/-- What a byte is at the start of a character. -/
inductive Lead where
  | complete (point : Nat)
  | partly (pending : Pending)
deriving DecidableEq, Repr

/-- Reads the first byte of a character. The second byte is restricted where it would make a point
that a shorter form has, a surrogate, or a point beyond the last plane. -/
def lead (b : Nat) : Lead :=
  if b < 0x80 then .complete b
  else if 0xC2 ≤ b && b ≤ 0xDF then .partly ⟨b - 0xC0, 1, 0x80, 0xBF⟩
  else if 0xE0 ≤ b && b ≤ 0xEF then
    .partly ⟨b - 0xE0, 2, if b = 0xE0 then 0xA0 else 0x80, if b = 0xED then 0x9F else 0xBF⟩
  else if 0xF0 ≤ b && b ≤ 0xF4 then
    .partly ⟨b - 0xF0, 3, if b = 0xF0 then 0x90 else 0x80, if b = 0xF4 then 0x8F else 0xBF⟩
  else .complete replacement

/-- The code points of bytes, given a character that is not complete yet. -/
def points : Option Pending → List UInt8 → List Nat
  | none, [] => []
  | some _, [] => [replacement]
  | pending, byte :: rest =>
    let b := byte.toNat
    match pending with
    | some p =>
      if p.least ≤ b && b ≤ p.most then
        let point := p.point * 0x40 + (b - 0x80)
        if p.missing = 1 then point :: points none rest
        else points (some ⟨point, p.missing - 1, 0x80, 0xBF⟩) rest
      else
        match lead b with
        | .complete point => replacement :: point :: points none rest
        | .partly next => replacement :: points (some next) rest
    | none =>
      match lead b with
      | .complete point => point :: points none rest
      | .partly next => points (some next) rest

end Utf8

/-- The text of a file. -/
def ofUtf8 (bytes : List UInt8) : Text := ofPoints (Utf8.points none bytes)

end Text

end Gradual
