import Predictive.Analysis.Basic
import Predictive.Distinct

/-!
# Prediction tables

The table of an LL(1) parser says, for a nonterminal on the stack and the next terminal of the input, which
production to expand. A production claims the terminals of its FIRST set, and those of FOLLOW of its left-hand
side if it can vanish. A terminal that a production claims only through FOLLOW makes the nonterminal vanish at once.

A grammar has a table if no key is claimed by two productions; otherwise every such key is a conflict.
-/

namespace Predictive

/-- What the parser does with a nonterminal. -/
inductive Prediction where
  /-- Replace it by the right-hand side of a production. -/
  | expand (id : ProductionId)
  /-- Drop it without reading input. -/
  | vanish
deriving DecidableEq, Inhabited

/-- A nonterminal on the stack and the next terminal. -/
abbrev Key := Nonterminal × Terminal

/-- The entries of a prediction table, in the order of their keys. -/
structure Table where
  entries : List (Key × Prediction)
deriving DecidableEq, Inhabited

/-- A production of the row of one nonterminal, with FIRST of its right-hand side. -/
structure Candidate where
  id : ProductionId
  production : Production
  first : FirstSet
deriving DecidableEq, Inhabited

namespace Candidate

/-- What the candidate predicts for a terminal, if it claims it. -/
def predicts (c : Candidate) (follow : List Terminal) (t : Terminal) : Option Prediction :=
  if t ∈ c.first.terminals then some (.expand c.id)
  else if c.first.nullable ∧ t ∈ follow then some .vanish
  else none

/-- The terminals that the candidate claims: those of FIRST, then those of FOLLOW if it can vanish. -/
def claims (c : Candidate) (follow : List Terminal) : List Terminal :=
  c.first.terminals ++ if c.first.nullable then follow else []

end Candidate

namespace Table

/-- The candidates for the row of a nonterminal. -/
def candidates (g : Grammar) (a : Analysis) (n : Nonterminal) : List Candidate :=
  (g.productionsOf n).map fun (id, p) => ⟨id, p, a.first.ofSequence p.rhs⟩

/-- The candidates of a row that claim a terminal, with their predictions. -/
def claimants (row : List Candidate) (follow : List Terminal) (t : Terminal) :
    List (Candidate × Prediction) :=
  row.filterMap fun c => (c.predicts follow t).map fun p => (c, p)

/-- The conflicts of the row of `n`, in the order in which their terminals are first claimed. -/
def rowConflicts (g : Grammar) (a : Analysis) (n : Nonterminal) : List Issue :=
  let row := candidates g a n
  let follow := a.follow.of n
  (distinct (row.flatMap (·.claims follow))).filterMap fun t =>
    let found := claimants row follow t
    if 1 < found.length then
      some (.conflict (g.nonterminalName n) (g.terminalName t)
        (found.map fun (c, _) => g.showProduction c.production))
    else none

/-- The entries of the row of `n`, in the order of the terminals. -/
def rowEntries (g : Grammar) (a : Analysis) (n : Nonterminal) : List (Key × Prediction) :=
  let row := candidates g a n
  let follow := a.follow.of n
  g.terminalIds.filterMap fun t =>
    (claimants row follow t).head?.map fun (_, p) => ((n, t), p)

/-- All conflicts of a grammar. -/
def conflicts (g : Grammar) (a : Analysis) : List Issue := g.nonterminalIds.flatMap (rowConflicts g a)

/-- The table of a grammar, or all its conflicts. -/
def build (g : Grammar) (a : Analysis) : Except (List Issue) Table :=
  let conflicts := conflicts g a
  if conflicts = [] then .ok ⟨g.nonterminalIds.flatMap (rowEntries g a)⟩ else .error conflicts

variable (table : Table)

/-- The keys of the table, in order. -/
def keys : List Key := table.entries.map Prod.fst

/-- The number of entries. -/
def size : Nat := table.entries.length

/-- The prediction for a nonterminal and a terminal. -/
def get? (n : Nonterminal) (t : Terminal) : Option Prediction := table.entries.lookup (n, t)

end Table

/-- The symbols that a prediction puts in place of the nonterminal. -/
def Prediction.payload (g : Grammar) : Prediction → List Symbol
  | .expand id => g.rhsOf id
  | .vanish => []

/-- The number of symbols that all payloads hold together. -/
def Table.symbolSlots (table : Table) (g : Grammar) : Nat :=
  (table.entries.flatMap fun (_, p) => p.payload g).length

end Predictive
