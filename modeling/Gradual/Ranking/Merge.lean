import Gradual.Ranking.Search

/-!
# Merging runs

Two neighbouring runs are merged from the end at which the shorter one lies. Members are compared
one by one until one run has won often enough in a row; then whole stretches are taken, as long as
they are long. How often is enough is learnt during the merges.
-/

namespace Gradual.Ranking

variable {α : Type}

/-- The least stretch that makes it worthwhile to look for stretches. -/
def worthwhile : Nat := 7

/-- Two runs that are being merged from a side: what is merged so far, the last member first, and
what is left of the shorter and of the longer run, as it is taken from that side. -/
structure Merging (α : Type) where
  merged : List α
  short : List α
  long : List α

namespace Merging

/-- Whether the rest needs no comparison. The end of the shorter run is known to go last, so one
member of it needs none. -/
def settled (m : Merging α) : Bool := m.short.length ≤ 1 || m.long.isEmpty

/-- Takes members of the shorter run, unless the merge is over. -/
def takeShort (n : Nat) (m : Merging α) : Merging α :=
  if m.settled then m else ⟨(m.short.take n).reverse ++ m.merged, m.short.drop n, m.long⟩

/-- Takes members of the longer run, unless the merge is over. -/
def takeLong (n : Nat) (m : Merging α) : Merging α :=
  if m.settled then m else ⟨(m.long.take n).reverse ++ m.merged, m.short, m.long.drop n⟩

/-- All members, from the side of the merge. -/
def finish (m : Merging α) : List α := m.merged.reverse ++ m.long ++ m.short

/-- Whether the next member comes from the longer run: its head overtakes that of the shorter
one. -/
def longFirst (overtakes : α → α → Bool) (m : Merging α) : Bool :=
  m.short.head?.any fun s => m.long.head?.any fun l => overtakes l s

/-- The stretch of the shorter run that the head of the longer one does not overtake. -/
def shortStretch (side : Side) (overtakes : α → α → Bool) (m : Merging α) : Nat :=
  leading side (fun s => !m.long.head?.any fun l => overtakes l s) m.short

/-- The stretch of the longer run that overtakes the head of the shorter one. -/
def longStretch (side : Side) (overtakes : α → α → Bool) (m : Merging α) : Nat :=
  leading side (fun l => m.short.head?.any fun s => overtakes l s) m.long

/-- Takes a stretch of each run, and after each stretch the member that ends it. The run that stands
first in the list has its stretch first. Also tells whether a stretch was worthwhile. -/
def sweep (side : Side) (overtakes : α → α → Bool) (m : Merging α) : Merging α × Bool :=
  match side with
  | .front =>
    let s := m.shortStretch side overtakes
    let m := (m.takeShort s).takeLong 1
    let l := m.longStretch side overtakes
    ((m.takeLong l).takeShort 1, worthwhile ≤ s || worthwhile ≤ l)
  | .back =>
    let l := m.longStretch side overtakes
    let m := (m.takeLong l).takeShort 1
    let s := m.shortStretch side overtakes
    ((m.takeShort s).takeLong 1, worthwhile ≤ s || worthwhile ≤ l)

end Merging

/-- How a merge goes on: by single members, with the wins in a row of the shorter and the longer
run, or by stretches. -/
inductive Pace where
  | single (short long : Nat)
  | stretches
deriving DecidableEq, Repr

/-- Merges to the end; every round takes a member at least, so their number bounds the rounds. The
patience is the number of wins in a row after which stretches are taken: it falls while they are
worthwhile and rises when they no longer are. -/
def Merging.run (side : Side) (overtakes : α → α → Bool) :
    Nat → Pace → Nat → Merging α → Merging α × Nat
  | 0, _, patience, m => (m, patience)
  | rounds + 1, pace, patience, m =>
    if m.settled then (m, patience)
    else
      match pace with
      | .single short long =>
        if m.longFirst overtakes then
          run side overtakes rounds
            (if patience ≤ long + 1 then .stretches else .single 0 (long + 1)) patience
            (m.takeLong 1)
        else
          run side overtakes rounds
            (if patience ≤ short + 1 then .stretches else .single (short + 1) 0) patience
            (m.takeShort 1)
      | .stretches =>
        let (m, again) := m.sweep side overtakes
        if m.settled then (m, patience)
        else if again then run side overtakes rounds .stretches (max 1 (patience - 1)) m
        else run side overtakes rounds (.single 0 0) (patience + 1) m

/-- Merges a shorter and a longer run from a side, where the head of the longer one is known to go
first. Also gives the patience for the next merge. -/
def mergeFrom (side : Side) (overtakes : α → α → Bool) (patience : Nat) (short long : List α) :
    List α × Nat :=
  let m : Merging α := ⟨long.take 1, short, long.drop 1⟩
  let r := m.run side overtakes (short.length + long.length) (.single 0 0) patience
  (r.1.finish, r.2)

/-- Merges two neighbouring runs. The members of the first that stay in front, and those of the
second that stay behind, take no part. The rest is merged from the side of the shorter run. -/
def merge (before : α → α → Bool) (patience : Nat) (xs ys : List α) : List α × Nat :=
  let head := leading .front (fun x => !ys.head?.any fun y => before y x) xs
  let xs' := xs.drop head
  let tail := leading .back (fun y => !xs'.getLast?.any fun x => before y x) ys.reverse
  let ys' := ys.take (ys.length - tail)
  if xs'.isEmpty || ys'.isEmpty then (xs ++ ys, patience)
  else
    let r :=
      if xs'.length ≤ ys'.length then mergeFrom .front before patience xs' ys'
      else
        let r := mergeFrom .back (fun x y => before y x) patience ys'.reverse xs'.reverse
        (r.1.reverse, r.2)
    (xs.take head ++ r.1 ++ ys.drop (ys.length - tail), r.2)

end Gradual.Ranking
