import Gradual.Numeral
import Gradual.Table

/-!
# Keys in listing order

Objects that are read from or written to files list their keys in a fixed order: keys that are the
decimal form of an index come first, from the least, and all others follow in the order of their
insertion.
-/

namespace Gradual

/-- The first number that is no index. -/
def indexBound : Nat := 0xFFFFFFFF

namespace Text

/-- The index that a text is the decimal form of: digits without a leading zero. -/
def index? (t : Text) : Option Nat :=
  let n := Numeral.ofDigits t
  if t.all isDigit && Text.ofNat n == t && n < indexBound then some n else none

end Text

namespace Table

variable {ν : Type}

/-- Puts an entry behind those with smaller indices. -/
def placeByIndex (i : Nat) (e : Text × ν) : List (Nat × Text × ν) → List (Nat × Text × ν)
  | [] => [(i, e)]
  | x :: rest => if i < x.1 then (i, e) :: x :: rest else x :: placeByIndex i e rest

/-- The entries whose keys are indices, from the least. -/
def indexed : List (Text × ν) → List (Nat × Text × ν)
  | [] => []
  | e :: rest =>
    match e.1.index? with
    | some i => placeByIndex i e (indexed rest)
    | none => indexed rest

/-- The entries in listing order. -/
def listing (t : Table Text ν) : List (Text × ν) :=
  (indexed t.entries).map Prod.snd ++ t.entries.filter fun e => e.1.index?.isNone

end Table

end Gradual
