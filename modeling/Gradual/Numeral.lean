import Gradual.Text.Letter

/-!
# Numerals

Number literals are decimal digits with an optional fraction. Their value is the double nearest to
the decimal.
-/

namespace Gradual

namespace Numeral

/-- The value of a digit. -/
def digitValue (c : CodeUnit) : Nat := c.toNat - 0x30

/-- The number that decimal digits spell. -/
def ofDigits (digits : Text) : Nat := digits.foldl (fun n c => 10 * n + digitValue c) 0

/-- The double nearest to a decimal with an optional fraction. -/
def toFloat (numeral : Text) : Float :=
  let whole := numeral.takeWhile Text.isDigit
  let fraction := (numeral.drop whole.length).drop 1
  Float.ofScientific (ofDigits (whole ++ fraction)) true fraction.length

/-- The double nearest to `n * 10 ^ exponent`. Beyond the range of doubles it is infinite, below it
zero; there the power itself is not formed. -/
def scaled (n : Nat) (exponent : Int) : Float :=
  let size : Int := n.repr.length + exponent
  if n = 0 || size < -400 then 0.0
  else if 400 < size then 1.0 / 0.0
  else if exponent < 0 then Float.ofScientific n true exponent.natAbs
  else Float.ofScientific n false exponent.natAbs

end Numeral

end Gradual
