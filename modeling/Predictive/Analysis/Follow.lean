import Predictive.Analysis.First
import Predictive.Walk

/-!
# FOLLOW sets

FOLLOW of a nonterminal `b` holds the terminals that can stand right after `b`. Every occurrence of `b` in a
right-hand side of `a` contributes FIRST of what comes after it; and where that can vanish, all of FOLLOW of `a`.
So FOLLOW of `b` is the union of the direct contributions to all nonterminals that a walk from `b` along the latter
edges visits. The start symbol is followed by the end marker.
-/

namespace Predictive

/-- An occurrence of a nonterminal in a right-hand side of `lhs`, with FIRST of what comes after it. -/
structure Occurrence where
  lhs : Nonterminal
  nonterminal : Nonterminal
  after : FirstSet
deriving DecidableEq, Inhabited

/-- The occurrences of nonterminals in a sequence of symbols, from the left. -/
def occurrences (first : FirstSets) (lhs : Nonterminal) : List Symbol → List Occurrence
  | [] => []
  | .terminal _ :: rest => occurrences first lhs rest
  | .nonterminal n :: rest => ⟨lhs, n, first.ofSequence rest⟩ :: occurrences first lhs rest

namespace Grammar

/-- All occurrences of nonterminals in right-hand sides. -/
def occurrences (g : Grammar) (first : FirstSets) : List Occurrence :=
  g.productions.flatMap fun p => Predictive.occurrences first p.lhs p.rhs

end Grammar

/-- The edges of the FOLLOW relation: the terminals that each nonterminal has directly after it, and the
nonterminals whose FOLLOW sets it takes over, in increasing order. -/
structure FollowEdges where
  direct : List (List Terminal)
  includes : Array (List Nonterminal)

namespace FollowEdges

/-- The edges of a grammar. -/
def ofGrammar (g : Grammar) (first : FirstSets) : FollowEdges :=
  let all := g.occurrences first
  { direct := g.nonterminalIds.map fun n =>
      (all.filter (·.nonterminal = n)).foldr (fun o l => union o.after.terminals l)
        (if n = g.start then [g.eof] else [])
    includes := (g.nonterminalIds.map fun n =>
      increasing ((all.filter fun o => o.nonterminal = n ∧ o.after.nullable ∧ o.lhs ≠ n).map
        Occurrence.lhs)).toArray }

/-- The walk along the edges from `n`. -/
def walk (e : FollowEdges) (n : Nonterminal) : Walk :=
  Walk.run (fun m => e.includes.getD m []) e.direct.length n

/-- FOLLOW of `n`. -/
def follow (e : FollowEdges) (n : Nonterminal) : List Terminal :=
  let visited := (e.walk n).visited
  e.direct.zipIdx.foldr (fun (terminals, m) l => if visited.has m then union terminals l else l) []

end FollowEdges

/-- The FOLLOW sets of all nonterminals, by number. -/
structure FollowSets where
  sets : List (List Terminal)
deriving DecidableEq, Inhabited

namespace FollowSets

/-- FOLLOW of a nonterminal. -/
def of (follow : FollowSets) (n : Nonterminal) : List Terminal := follow.sets.getD n []

/-- The FOLLOW sets of a grammar. -/
def compute (g : Grammar) (first : FirstSets) : FollowSets :=
  let edges := FollowEdges.ofGrammar g first
  ⟨g.nonterminalIds.map edges.follow⟩

end FollowSets

end Predictive
