import Gradual.Table
import Gradual.Text.Basic

/-!
# Topological order

Vertices are taken in the order in which their last predecessor was taken. A vertex on a cycle, or
behind one, is never taken, so the order is complete exactly when there is no cycle.
-/

namespace Gradual

namespace Order

/-- Takes one edge to each target off the counts of open edges; lists the targets that have none
left, in order. -/
def release : List Text → Table Text Nat → List Text × Table Text Nat
  | [], counts => ([], counts)
  | t :: rest, counts =>
    let n := counts.getD t 0
    let (freed, counts) := release rest (counts.insert t (n - 1))
    (if n == 1 then t :: freed else freed, counts)

/-- Takes vertices from a queue, at most the given number. -/
def take (targets : Text → List Text) :
    (bound : Nat) → (queue : List Text) → Table Text Nat → List Text
  | 0, _, _ => []
  | _ + 1, [], _ => []
  | n + 1, v :: queue, counts =>
    let (freed, counts) := release (targets v) counts
    v :: take targets n (queue ++ freed) counts

/-- The vertices that can be taken, given the number of edges into each vertex. -/
def taken (targets : Text → List Text) (counts : Table Text Nat) : List Text :=
  take targets counts.size ((counts.entries.filter fun e => e.2 == 0).map Prod.fst) counts

/-- An order of all vertices in which every edge goes forward, unless there is a cycle. -/
def sort? (targets : Text → List Text) (counts : Table Text Nat) : Option (List Text) :=
  let order := taken targets counts
  if order.length == counts.size then some order else none

end Order

end Gradual
