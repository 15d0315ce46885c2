import Gradual.Decimal.Fixed

/-!
# Weights

Confidences and the weights of union members are numbers of one kind. The operations that the
analysis needs of them are collected here, so that it runs on doubles and can be reasoned about over
any other numbers, such as exact fractions. Only the comparisons that are named hold for a value
that is not a number.
-/

namespace Gradual

/-- Numbers that serve as confidences and weights. -/
class Weight (ω : Type) extends Add ω, Mul ω, Div ω, LT ω, LE ω, BEq ω where
  /-- The number nearest to a fraction. -/
  ofRatio : Nat → Nat → ω
  decLt : ∀ a b : ω, Decidable (a < b)
  decLe : ∀ a b : ω, Decidable (a ≤ b)
  /-- The number with two decimal places. -/
  fixed : ω → Text

namespace Weight

variable {ω : Type} [Weight ω]

instance (a b : ω) : Decidable (a < b) := decLt a b

instance (a b : ω) : Decidable (a ≤ b) := decLe a b

/-- The weight of a natural number. -/
def ofNat (n : Nat) : ω := ofRatio n 1

/-- The sum of weights, from left to right. -/
def sum (ws : List ω) : ω := ws.foldl (· + ·) (ofNat 0)

/-- Whether a weight is a number: what is not differs from itself. -/
def isNumber (w : ω) : Bool := w == w

/-- The nearest number between zero and one; zero for what is not a number. -/
def clamp (w : ω) : ω := if ofNat 0 < w then (if w < ofNat 1 then w else ofNat 1) else ofNat 0

/-- A number, but at most the bound. -/
def atMost (bound w : ω) : ω := if bound < w then bound else w

end Weight

instance : Weight Float where
  ofRatio num den := Float.ofNat num / Float.ofNat den
  decLt := inferInstance
  decLe := inferInstance
  fixed := Decimal.ofFloat

end Gradual
