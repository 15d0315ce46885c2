import Gradual.Text.Letter
import Gradual.Text.Case

/-!
# Lower case

Names are compared without regard to case, through their lower-case texts. The mapping is the full,
locale independent one of Unicode: code point by code point, where the dotted capital I becomes two
code points and a capital sigma becomes a final sigma at the end of a word.
-/

namespace Gradual

namespace Text

/-- The small letter of a code point in one of the ranges, which ascend, else the point itself. -/
def shiftIn : List CaseRange → Nat → Nat
  | [], p => p
  | r :: rest, p =>
    if p ≤ r.last then
      if r.first ≤ p && (p - r.first) % r.stride == 0 then (p + r.shift).toNat else p
    else shiftIn rest p

/-- The simple lower-case mapping. -/
def lowerPoint (p : Nat) : Nat := shiftIn capitalRanges p

/-- Whether the next code point that case rules do not pass over is cased. -/
def reachesCased : List Nat → Bool
  | [] => false
  | p :: rest =>
    if inRanges caseIgnorableRanges p then reachesCased rest else inRanges casedRanges p

/-- The capital sigma, whose small form depends on its place in the word. -/
def capitalSigma : Nat := 0x3A3

/-- The dotted capital I, whose small form is an i with a combining dot. -/
def dottedCapitalI : Nat := 0x130

/-- Lower-cases code points; `before` holds the points already passed, nearest first. A capital
sigma is final when a cased point stands before it and none after it. -/
def lowerPoints (before : List Nat) : List Nat → List Nat
  | [] => []
  | p :: rest =>
    let small :=
      if p == capitalSigma then [if reachesCased before && !reachesCased rest then 0x3C2 else 0x3C3]
      else if p == dottedCapitalI then [0x69, 0x307]
      else [lowerPoint p]
    small ++ lowerPoints (p :: before) rest

/-- The lower-case form of a text. -/
def lower (t : Text) : Text := ofPoints (lowerPoints [] t.points)

end Text

end Gradual
