import Predictive.Marks

/-!
# Depth-first walks

A walk over a graph on numbers, given by the list of successors of each number. It visits every number that can
be reached from where it starts once, and notes each time it comes back to a visited one.
-/

namespace Predictive

/-- What a walk has seen: the visited numbers, and those it came back to, the latest first. -/
structure Walk where
  visited : Marks := {}
  repeats : List Nat := []
deriving DecidableEq, Inhabited

namespace Walk

/-- Walks on from `n`. The depth of a walk is bounded by the number of nodes, so that many steps of `fuel`
and one more suffice. -/
def visit (next : Nat → List Nat) : Nat → Walk → Nat → Walk
  | 0, w, _ => w
  | fuel + 1, w, n =>
    if w.visited.has n then { w with repeats := n :: w.repeats }
    else (next n).foldl (visit next fuel) { w with visited := w.visited.insert n }

/-- The walk from `n` over a graph with the nodes below `size`. -/
def run (next : Nat → List Nat) (size n : Nat) : Walk := visit next (size + 1) {} n

end Walk

end Predictive
