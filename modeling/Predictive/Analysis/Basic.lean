import Predictive.Analysis.Follow
import Predictive.Report

/-!
# The analysis of a grammar

FIRST and FOLLOW together, with notes on their sizes and on the FOLLOW cycles met.
-/

namespace Predictive

/-- FIRST and FOLLOW of one grammar. -/
structure Analysis where
  first : FirstSets
  follow : FollowSets
deriving DecidableEq, Inhabited

namespace Analysis

/-- The analysis of a grammar, or its left-recursive cycles. -/
def compute (g : Grammar) : Except (List Issue) Analysis := do
  let first ← FirstSets.compute g
  return ⟨first, FollowSets.compute g first⟩

/-- The notes on an analysis that was made. -/
def notes (g : Grammar) (a : Analysis) : List Note :=
  let edges := FollowEdges.ofGrammar g a.first
  [.debug ("first: " ++ toString a.first.sets.length ++ " sets, " ++
    toString (a.first.sets.filter (·.nullable)).length ++ " nullable")] ++
  (g.nonterminalIds.flatMap fun n => (edges.walk n).repeats.reverse.map fun m =>
    .trace ("follow: " ++ g.nonterminalName m ++ " already folded in")) ++
  [.debug ("follow: " ++ toString a.follow.sets.length ++ " sets, " ++
    toString a.follow.sets.flatten.length ++ " terminals total")]

/-- The analysis of a grammar with its notes. -/
def report (g : Grammar) : Report Analysis :=
  match compute g with
  | .ok a => ⟨a.notes g, .ok a⟩
  | .error issues => .of (.error (.grammar issues))

end Analysis

end Predictive
