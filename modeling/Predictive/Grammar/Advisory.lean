import Predictive.Distinct
import Predictive.Grammar.Basic
import Predictive.Note
import Predictive.Walk

/-!
# Advisories

Remarks on a grammar that do not reject it: nonterminals that the start symbol does not reach, and productions
that repeat an earlier alternative of the same nonterminal.
-/

namespace Predictive

/-- A remark on a grammar. -/
inductive Advisory where
  | unreachable (nonterminal : String)
  | duplicateProduction (production : String)
deriving DecidableEq, Inhabited

def Advisory.message : Advisory → String
  | unreachable n => n ++ " is unreachable from the start symbol"
  | duplicateProduction p => "duplicate production " ++ p

namespace Grammar

variable (g : Grammar)

/-- The nonterminals in the alternatives of `n`. -/
def successors (n : Nonterminal) : List Nonterminal :=
  (g.productionsOf n).flatMap fun (_, p) => p.rhs.filterMap fun
    | .nonterminal m => some m
    | .terminal _ => none

/-- The nonterminals that derivations from the start symbol reach. -/
def reached : Marks := (Walk.run g.successors g.nonterminals.length g.start).visited

/-- Whether each nonterminal is reached. -/
def reachable : List Bool :=
  let reached := g.reached
  g.nonterminalIds.map reached.has

/-- The productions of `n` whose right-hand side an earlier one of `n` has. -/
def duplicates (n : Nonterminal) : List Production :=
  let own := (g.productionsOf n).map Prod.snd
  own.zipIdx.filterMap fun (p, i) => if (own.take i).any (fun q => q.rhs == p.rhs) then some p else none

/-- All remarks: the unreachable nonterminals first, then the repeated productions. -/
def advisories : List Advisory :=
  let reached := g.reached
  (g.nonterminalIds.filter fun n => !reached.has n).map (fun n => .unreachable (g.nonterminalName n)) ++
  g.nonterminalIds.flatMap fun n => (g.duplicates n).map fun p => .duplicateProduction (g.showProduction p)

/-- The warnings that tell the remarks. -/
def advisoryNotes : List Note := g.advisories.map fun a => .warn ("grammar: " ++ a.message)

/-- The number of different right-hand sides, whichever nonterminal has them. -/
def distinctExpansions : Nat := (distinct (g.productions.map Production.rhs)).length

end Grammar

end Predictive
