import Gradual.Decimal.Fixed

/-!
# Doubles that are natural numbers
-/

namespace Gradual

namespace Decimal

/-- Whether a double is neither infinite nor not a number. -/
def isFinite (x : Float) : Bool := exponentField x != exponents - 1

/-- The natural number that a double is equal to. -/
def natural? (x : Float) : Option Nat :=
  let shifted := mantissa x * twoTo (scale x)
  if isFinite x && shifted % twoTo 1075 == 0 &&
    (!isNegative x || mantissa x == 0) then some (shifted / twoTo 1075)
  else none

end Decimal

/-- A double that is a natural number. -/
structure Count where
  value : Float
  isNatural : (Decimal.natural? value).isSome

namespace Count

/-- The count that a double is. -/
def ofFloat? (x : Float) : Option Count :=
  if h : (Decimal.natural? x).isSome then some ⟨x, h⟩ else none

/-- The natural number. -/
def toNat (c : Count) : Nat := (Decimal.natural? c.value).get c.isNatural

end Count

end Gradual
