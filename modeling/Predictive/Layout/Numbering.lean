import Predictive.Grammar.Basic
import Predictive.Layout.Basic

/-!
# Numberings

A layout that fits a grammar gives every symbol of it a position. `Numbering.resolve` checks that a layout orders
exactly the symbols of a grammar and reads the positions off.
-/

namespace Predictive

/-- The positions of terminals and nonterminals, each by number in the grammar. -/
structure Numbering where
  terminal : List Nat
  nonterminal : List Nat
deriving DecidableEq, Inhabited

namespace Numbering

/-- The positions of the numbers below the length of a list in that list. -/
def positions (order : List Nat) : List Nat := (List.range order.length).map fun id => order.idxOf id

/-- The numbering of two orders. -/
def ofOrders (terminals : List Terminal) (nonterminals : List Nonterminal) : Numbering :=
  ⟨positions terminals, positions nonterminals⟩

def terminalAt (num : Numbering) (t : Terminal) : Nat := num.terminal.getD t 0

def nonterminalAt (num : Numbering) (n : Nonterminal) : Nat := num.nonterminal.getD n 0

/-- The numbers in the grammar of the names that a layout orders. Fails unless these are exactly the `expected`
names: `missing` ones in the order of the grammar, `extra` ones in the order of the layout. -/
def resolveNames (kind : SymbolKind) (expected persisted : List String) : Except Error (List Nat) :=
  let missing := expected.filter (· ∉ persisted)
  let extra := persisted.filter (· ∉ expected)
  if missing = [] ∧ extra = [] ∧ persisted.length = expected.length then
    .ok (persisted.map expected.idxOf)
  else .error (.symbolMismatch kind missing extra)

/-- The numbering that a layout gives to a grammar; terminals are checked first. -/
def resolve (g : Grammar) (l : Layout) : Except Error Numbering := do
  let terminals ← resolveNames .terminals g.terminals l.terminals
  let nonterminals ← resolveNames .nonterminals g.nonterminals l.nonterminals
  return ofOrders terminals nonterminals

end Numbering

end Predictive
