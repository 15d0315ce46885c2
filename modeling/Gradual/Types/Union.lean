import Gradual.Ranking
import Gradual.Table
import Gradual.Types.Format

/-!
# Unions

A union lists concrete types with weights. Its members are merged when they are equal, ordered by
weight, dropped when they weigh less than a twentieth, and cut to the five heaviest, so that
branching cannot make unions grow without bound.
-/

namespace Gradual

variable {ω : Type}

/-- The members of a union: types with their weights. -/
abbrev Members (ω : Type) := List (Concrete ω × ω)

namespace Members

variable [Weight ω]

/-! ## Normal form -/

/-- The most members a union keeps. -/
def limit : Nat := 5

/-- The least weight a member needs to be kept. -/
def minWeight : ω := Weight.ofRatio 1 20

/-- Adds a member to those collected: an equal type takes up its weight. -/
def collect (merged : Table Text (Concrete ω × ω)) (m : Concrete ω × ω) :
    Table Text (Concrete ω × ω) :=
  merged.insert m.1.key <|
    match merged.get? m.1.key with
    | some old => (old.1, old.2 + m.2)
    | none => m

/-- Equal types merged into the first of them, in the order of their first appearance. -/
def merge (ms : Members ω) : Members ω := (ms.foldl collect .empty).values

/-- Puts a member behind all that are not lighter. -/
def place (m : Concrete ω × ω) : Members ω → Members ω
  | [] => [m]
  | x :: xs => if x.2 < m.2 then m :: x :: xs else x :: place m xs

/-- Whether all weights are numbers, so that any two can be compared. -/
def comparable (ms : Members ω) : Bool := ms.all fun m => Weight.isNumber m.2

/-- The members ordered by weight, the heaviest first; equal weights keep their order. A weight that
is not a number is neither heavier nor lighter than another, which is no order, and then the places
are those of the ranking procedure. -/
def sort (ms : Members ω) : Members ω :=
  if comparable ms then ms.foldl (fun sorted m => place m sorted) []
  else Ranking.sort (fun a b => b.2 < a.2) ms

/-- Merged and ordered. -/
def normalize (ms : Members ω) : Members ω := sort (merge ms)

/-- The weight of all members. -/
def total (ms : Members ω) : ω := Weight.sum (ms.map Prod.snd)

/-- The members scaled to a total of one, unless they weigh nothing. -/
def rescale (ms : Members ω) : Members ω :=
  let t := total ms
  if Weight.ofNat 0 < t then ms.map fun m => (m.1, m.2 / t) else ms

/-- Whether a member is a given primitive type. -/
def isPrimitive (p : Primitive) (m : Concrete ω × ω) : Bool :=
  match m.1 with
  | .primitive q => q == p
  | _ => false

/-- Drops light members, scales the others, and keeps the heaviest. -/
def prune (ms : Members ω) : Members ω :=
  let kept := rescale (ms.filter fun m => minWeight ≤ m.2)
  if limit < kept.length then rescale (kept.take limit) else kept

/-- Members that are all numbers, or all strings, become one; others are pruned. -/
def simplify (ms : Members ω) : Members ω :=
  if ms.isEmpty then ms
  else if ms.all (isPrimitive .number) then [(.primitive .number, total ms)]
  else if ms.all (isPrimitive .string) then [(.primitive .string, total ms)]
  else prune ms

/-! ## Sets of types -/

/-- Pairs of equal members, with the product of their weights. -/
def intersect (left right : Members ω) : Members ω :=
  normalize <| left.flatMap fun a =>
    (right.filter fun b => a.1.same b.1).map fun b => (a.1, a.2 * b.2)

/-- The members of both at half their weight. -/
def unite (left right : Members ω) : Members ω :=
  normalize <| (left ++ right).map fun m => (m.1, m.2 * Weight.ofRatio 1 2)

/-- The members whose types satisfy a condition. -/
def restrict (ms : Members ω) (p : Concrete ω → Bool) : Members ω :=
  normalize (ms.filter fun m => p m.1)

/-- Whether a type is among the members. -/
def contains (ms : Members ω) (t : Concrete ω) : Bool := ms.any fun m => m.1.same t

/-- The weight of a type, zero when it is not a member. -/
def weightOf (ms : Members ω) (t : Concrete ω) : ω :=
  ((ms.find? fun m => m.1.same t).map Prod.snd).getD (Weight.ofNat 0)

/-- The first member's type. -/
def mostLikely? (ms : Members ω) : Option (Concrete ω) := ms.head?.map Prod.fst

/-- Whether a resolution fits a union: what is not concrete always does. -/
def accepts (ms : Members ω) (r : Resolution ω) : Bool :=
  match r.shape with
  | .concrete t => contains ms t
  | _ => true

end Members

namespace Resolution

variable [Weight ω]

/-! ## Unions of resolutions -/

/-- The confidence that no proper union exceeds. -/
def maxUnionConfidence : ω := Weight.ofRatio 9 10

/-- What a resolution brings into a union at a share: its type, or its members scaled; nothing if it
has neither. -/
def contribution (share : ω) (r : Resolution ω) : Members ω :=
  match r.shape with
  | .concrete t => [(t, share)]
  | .union members => members.map fun m => (m.1, m.2 * share)
  | _ => []

/-- The mean confidence of resolutions. -/
def meanConfidence (rs : List (Resolution ω)) : ω :=
  Weight.sum (rs.map fun r => r.certainty.confidence) / Weight.ofNat rs.length

/-- The resolution of simplified members at a confidence. -/
def ofMembers (confidence : ω) : Members ω → Resolution ω
  | [] => never
  | [m] =>
    { inferred confidence (.concrete m.1) with
      metadata := .ofNotes ["Union type simplified to concrete"] }
  | ms =>
    { inferred (Weight.atMost maxUnionConfidence confidence) (.union ms) with
      metadata := .ofNotes ["Union of " ++ Text.ofNat ms.length ++ " types"] }

/-- The union of resolutions with equal shares. A single resolution is its own union. -/
def union : List (Resolution ω) → Resolution ω
  | [] => never
  | [r] => r
  | rs =>
    let share : ω := Weight.ofNat 1 / Weight.ofNat rs.length
    ofMembers (meanConfidence rs)
      (Members.simplify (Members.normalize (rs.flatMap (contribution share))))

/-- The union of known types. -/
def ofConcretes (ts : List (Concrete ω)) : Resolution ω := union (ts.map known)

/-- The union of what a resolution says and one more; members of a union count by their weights as
confidences. -/
def addToUnion (r addition : Resolution ω) : Resolution ω :=
  match r.shape with
  | .union members => union (members.map (fun m => inferred m.2 (.concrete m.1)) ++ [addition])
  | _ => union [r, addition]

/-! ## Joining paths -/

/-- Two resolutions agree when they are one and the same, or name equal concrete types with equal
certainty. -/
def agrees (a b : Resolution ω) : Bool :=
  (a.origin != .fresh && a.origin == b.origin) ||
    match a.concrete?, b.concrete? with
    | some s, some t =>
      s.same t && a.certainty.sameKind b.certainty &&
        a.certainty.confidence == b.certainty.confidence
    | _, _ => false

/-- One resolution for a value that arrives on several paths: the first if all agree with it, else
their union. -/
def join : List (Resolution ω) → Resolution ω
  | [] => never
  | r :: rs => if rs.all r.agrees then r else union (r :: rs)

end Resolution

/-- The variables of a place with what is known of them. -/
abbrev Variables (ω : Type) := Table Text (Resolution ω)

namespace Variables

/-- The names on any of the paths, in the order of their first appearance. -/
def names (paths : List (Variables ω)) : List Text :=
  (paths.foldl
    (fun (t : Table Text Unit) vs => t.insertAll (vs.keys.map fun k => (k, ()))) .empty).keys

/-- The variables after several paths: each name joins its resolutions on the paths that define
it. -/
def join [Weight ω] (paths : List (Variables ω)) : Variables ω :=
  .ofList <| (names paths).map fun name =>
    (name, Resolution.join (paths.filterMap fun vs => vs.get? name))

end Variables

end Gradual
