import Gradual.Text.Basic

/-!
# Numbers with two decimal places

A finite double is an integer times a power of two. Below 10^21 it is printed with two decimal
places, rounded from its exact value, where a half goes away from zero. From 10^21 on it is printed
with the fewest digits that read back as the same double, in scientific notation.
-/

namespace Gradual

namespace Decimal

/-! ## Doubles as integers times powers of two -/

/-- The sign bit of a double. -/
def isNegative (x : Float) : Bool := x.toBits >>> 63 == 1

/-- How many values the exponent field has. -/
def exponents : Nat := 0x800

/-- How many values the fraction field has. -/
def fractions : Nat := 0x10000000000000

/-- A power of two. -/
def twoTo (n : Nat) : Nat := Nat.pow 2 n

/-- A power of ten. -/
def tenTo (n : Nat) : Nat := Nat.pow 10 n

/-- The exponent field of a double. -/
def exponentField (x : Float) : Nat := x.toBits.toNat / fractions % exponents

/-- The fraction field of a double. -/
def fractionField (x : Float) : Nat := x.toBits.toNat % fractions

/-- The integer `m` of a finite double, whose magnitude is `m * 2 ^ (e - 1075)` for
`e = scale x`. -/
def mantissa (x : Float) : Nat :=
  if exponentField x = 0 then fractionField x else fractions + fractionField x

/-- The exponent of two of a finite double, shifted by 1075. -/
def scale (x : Float) : Nat := if exponentField x = 0 then 1 else exponentField x

/-! ## Two places -/

/-- The fraction `num / den` rounded to an integer, where a half goes up. -/
def roundHalfUp (num den : Nat) : Nat := (2 * num + den) / (2 * den)

/-- A number of hundredths, with a point and two places. -/
def hundredths (n : Nat) : Text :=
  Text.ofNat (n / 100) ++ "." ++ Text.ofNat (n / 10 % 10) ++ Text.ofNat (n % 10)

/-- The fraction `num / den` with a sign and two places. -/
def fixed (negative : Bool) (num den : Nat) : Text :=
  (if negative then "-" else "") ++ hundredths (roundHalfUp (100 * num) den)

/-! ## Large numbers -/

/-- The digits of a number without the zeros at its end. -/
def significantDigits (n : Nat) : Text :=
  ((Text.ofNat n).reverse.dropWhile fun c => c == 0x30).reverse

/-- A positive integer in scientific notation. -/
def scientific (n : Nat) : Text :=
  let exponent : Text := "e+" ++ Text.ofNat ((Text.ofNat n).length - 1)
  match significantDigits n with
  | d :: [] => d :: exponent
  | d :: rest => d :: ("." ++ rest ++ exponent)
  | [] => "0"

/-- Whether an integer reads back as the double `m * 2 ^ q`: it lies between the midpoints to the
neighbouring doubles, which count as inside when `m` is even. The neighbour below is nearer when `m`
is a power of two. -/
def readsBack (m q n : Nat) : Bool :=
  let below := 4 * m * twoTo q - (if m = fractions then twoTo q else 2 * twoTo q)
  let above := 4 * m * twoTo q + 2 * twoTo q
  if m % 2 = 0 then below ≤ 4 * n && 4 * n ≤ above else below < 4 * n && 4 * n < above

/-- The distance of two numbers. -/
def distance (a b : Nat) : Nat := (a - b) + (b - a)

/-- The nearer of the two multiples of `unit` around `m * 2 ^ q` that reads back. -/
def roundedTo? (m q unit : Nat) : Option Nat :=
  let value := m * twoTo q
  let low := value / unit * unit
  let high := low + unit
  match readsBack m q low, readsBack m q high with
  | true, true => some (if distance value high < distance value low then high else low)
  | true, false => some low
  | false, true => some high
  | false, false => none

/-- The integer with the fewest digits before its zeros that reads back as `m * 2 ^ q`. -/
def shortest (m q : Nat) : Nat :=
  let digits := (Text.ofNat (m * twoTo q)).length
  ((List.range digits).reverse.findSome? fun zeros => roundedTo? m q (tenTo zeros)).getD
    (m * twoTo q)

/-! ## Doubles -/

/-- The magnitude from which on numbers are written in scientific notation. -/
def largeFrom : Nat := tenTo 21

/-- A double with two places, or in scientific notation when it is large. -/
def ofFloat (x : Float) : Text :=
  if x.isNaN then "NaN"
  else if x.isInf then (if isNegative x then "-Infinity" else "Infinity")
  else
    let m := mantissa x
    let e := scale x
    if 1075 ≤ e ∧ largeFrom ≤ m * twoTo (e - 1075) then
      (if isNegative x then "-" else "") ++ scientific (shortest m (e - 1075))
    else fixed (isNegative x && m != 0) (m * twoTo e) (twoTo 1075)

end Decimal

end Gradual
