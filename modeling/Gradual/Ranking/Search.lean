/-!
# Searching by few comparisons

Two searches that look at a few members of a list only: insertion by halving, and the length of a
stretch at the head by steps that double. On a list that is in order they agree with the plain
searches from the front. On any other list they are still defined, and their answers depend on which
members they look at.
-/

namespace Gradual.Ranking

variable {α : Type}

/-! ## Insertion -/

/-- Puts a member into a list: into the part before the middle member if it goes before that one,
else into the part after it. -/
def insertByHalving (before : α → α → Bool) (m : α) (xs : List α) : List α :=
  match _h : xs.drop (xs.length / 2) with
  | [] => [m]
  | x :: after =>
    if before m x then insertByHalving before m (xs.take (xs.length / 2)) ++ x :: after
    else xs.take (xs.length / 2) ++ x :: insertByHalving before m after
termination_by xs.length
decreasing_by
  all_goals
    have := congrArg List.length _h
    simp only [List.length_drop, List.length_cons, List.length_take] at *
    omega

/-! ## Stretches -/

/-- The end of a list from which its members are taken and counted. -/
inductive Side where
  | front
  | back
deriving DecidableEq, Repr

/-- The place in the middle between two bounds, counted from a side; of two such places, the one
nearer to the back. -/
def Side.middle (side : Side) (lo hi : Nat) : Nat :=
  match side with
  | .front => lo + (hi - lo) / 2
  | .back => hi - 1 - (hi - lo) / 2

theorem Side.middle_bounds (side : Side) {lo hi : Nat} (h : lo < hi) :
    lo ≤ side.middle lo hi ∧ side.middle lo hi < hi := by
  cases side <;> simp only [middle] <;> omega

/-- Doubles a step while the places it reaches hold: the last place that did, and a bound on the
places that do. -/
def stride (holds : Nat → Bool) (size last step : Nat) : Nat × Nat :=
  if step < size ∧ holds step then stride holds size step (2 * step + 1) else (last, min step size)
termination_by size - step

/-- The number of places that hold, if it lies between two bounds, by halving. -/
def halve (side : Side) (holds : Nat → Bool) (lo hi : Nat) : Nat :=
  if h : lo < hi then
    have := side.middle_bounds h
    let middle := side.middle lo hi
    if holds middle then halve side holds (middle + 1) hi else halve side holds lo middle
  else lo
termination_by hi - lo

/-- The number of members at the head of a list for which a condition holds, if it holds for no
later one. The members are given as they are taken from a side, so from the back they come in
reverse. -/
def leading (side : Side) (p : α → Bool) (xs : List α) : Nat :=
  let holds := fun i => xs[i]?.any p
  if holds 0 then
    let bounds := stride holds xs.length 0 1
    halve side holds (bounds.1 + 1) bounds.2
  else 0

end Gradual.Ranking
