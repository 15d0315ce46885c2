import Gradual.Ranking.Merge

/-!
# Ranking

A list is put in order by merging its runs. If `before` is a strict order of ranks, the result is
the list in that order, with members of one rank as they stood. If some members compare with
nothing, there is no such order; the result is then fixed by the runs that the list happens to have
and by the comparisons that insertions and merges make.
-/

namespace Gradual.Ranking

variable {α : Type} (before : α → α → Bool)

/-! ## Runs -/

/-- The members at the head of a list that each keep a relation to the one before, and the rest. -/
def chain (keep : α → α → Bool) (last : α) : List α → List α × List α
  | [] => ([], [])
  | x :: xs =>
    if keep x last then
      let r := chain keep x xs
      (x :: r.1, r.2)
    else ([], x :: xs)

/-- The run at the head of a list, in order, and the rest. A run in which every member goes before
the last one is turned around. -/
def headRun : List α → List α × List α
  | [] => ([], [])
  | x :: xs =>
    match chain before x xs with
    | ([], _) =>
      let rising := chain (fun y last => !before y last) x xs
      (x :: rising.1, rising.2)
    | (falling, rest) => ((x :: falling).reverse, rest)

/-- The least length of a run in a list: its size if that is below 64, else the first six binary
digits of the size, and one more if another digit is not zero. -/
def minRun (size : Nat) (more : Nat) : Nat :=
  if size < 64 then size + more else minRun (size / 2) (max more (size % 2))

/-- The first run of a list, made up to the least length by insertions, and the rest. -/
def nextRun (least : Nat) (xs : List α) : List α × List α :=
  let r := headRun before xs
  let missing := least - r.1.length
  ((r.2.take missing).foldl (fun run m => insertByHalving before m run) r.1, r.2.drop missing)

/-! ## Piles of runs -/

/-- Runs that wait to be merged, the last one first, and the patience of the next merge. -/
structure Pile (α : Type) where
  runs : List (List α)
  patience : Nat

namespace Pile

/-- Merges the last two runs, or the two before the last if the last is longer than the third from
the end. -/
def fuse (p : Pile α) : Pile α :=
  match p.runs with
  | z :: y :: x :: rest =>
    if x.length < z.length then
      let r := merge before p.patience x y
      ⟨z :: r.1 :: rest, r.2⟩
    else
      let r := merge before p.patience y z
      ⟨r.1 :: x :: rest, r.2⟩
  | [z, y] =>
    let r := merge before p.patience y z
    ⟨[r.1], r.2⟩
  | _ => p

/-- Whether the runs near the top are out of proportion: each is to be longer than the next, and
longer than the next two together. -/
def unbalanced (p : Pile α) : Bool :=
  match p.runs.map List.length with
  | z :: y :: x :: w :: _ => y ≤ z || x ≤ y + z || w ≤ x + y
  | [z, y, x] => y ≤ z || x ≤ y + z
  | [z, y] => y ≤ z
  | _ => false

/-- Merges while a condition holds; every merge leaves one run less. -/
def fuseWhile (p : Pile α → Bool) : Nat → Pile α → Pile α
  | 0, pile => pile
  | n + 1, pile => if p pile then fuseWhile p n (pile.fuse before) else pile

/-- Puts a run on the pile and restores the proportions. -/
def push (run : List α) (p : Pile α) : Pile α :=
  fuseWhile before unbalanced (p.runs.length + 1) ⟨run :: p.runs, p.patience⟩

/-- The members of all runs in order. -/
def toList (p : Pile α) : List α :=
  (fuseWhile before (fun q => 1 < q.runs.length) p.runs.length p).runs.flatten

end Pile

/-- Piles up the runs of a list; every run takes a member at least, so their number bounds the
rounds. -/
def pileUp (least : Nat) : Nat → List α → Pile α → Pile α
  | 0, _, p => p
  | _, [], p => p
  | rounds + 1, xs, p =>
    let r := nextRun before least xs
    pileUp least rounds r.2 (p.push before r.1)

/-- The list in order. -/
def sort (xs : List α) : List α :=
  (pileUp before (minRun xs.length 0) xs.length xs ⟨[], worthwhile⟩).toList before

end Gradual.Ranking
