import Predictive.Layout.Placement
import Predictive.Search.Stamps

/-!
# Trials

A trial takes an order of the terminals and one of the nonterminals, and looks for the least modulus under which the
keys of a table have buckets of their own, with either symbol as the major one. It succeeds only with a modulus
below a given bound. Two keys with one raw hash can never be told apart, so that is an error.
-/

namespace Predictive

/-- An order of the terminals and one of the nonterminals, by number. -/
structure Orders where
  terminals : List Terminal
  nonterminals : List Nonterminal
deriving DecidableEq, Inhabited

/-- The orders of the grammar. -/
def Grammar.orders (g : Grammar) : Orders := ⟨g.terminalIds, g.nonterminalIds⟩

/-- What a search works on: a compiled table and the shift of the layouts. -/
structure Problem where
  grammar : Grammar
  table : Table
  fingerprint : Fingerprint
  shift : UInt32

namespace Problem

/-- The problem of a grammar and its table. -/
def of (g : Grammar) (table : Table) (shift : UInt32) : Problem := ⟨g, table, g.fingerprint, shift⟩

/-- No modulus below the number of keys can do. -/
def floor (p : Problem) : Nat := max p.table.size 1

end Problem

/-- A modulus that a trial found. -/
structure Hit where
  major : Major
  modulus : Nat
  /-- The largest raw hash. -/
  largest : Nat
deriving DecidableEq, Inhabited

namespace Hit

/-- The largest modulus to try: one above the largest raw hash makes all of them distinct, a modulus has 32 bits,
and it must be below the bound and below what was found before. -/
def ceiling (raws : List Nat) (bound : Option Nat) (found : Option Hit) : Nat :=
  let top := min (raws.foldl max 0 + 1) (UInt32.size - 1)
  let top := bound.elim top fun b => min top (b - 1)
  found.elim top fun h => min top (h.modulus - 1)

/-- Looks for a modulus with one symbol as the major one. -/
def tryMajor (floor : Nat) (bound : Option Nat) (found : Option Hit) (major : Major) (raws : List Nat)
    (s : Stamps) : Option Hit × Stamps :=
  let (m, s) := Stamps.leastModulus raws (ceiling raws bound found + 1 - floor) floor s
  match m with
  | some m => (some ⟨major, m, raws.foldl max 0⟩, s)
  | none => (found, s)

/-- The note on a modulus that was found. -/
def note (h : Hit) : Note :=
  .debug ("[" ++ h.major.tag ++ "] " ++ toString h.modulus ++ " (of " ++ toString h.largest ++ ")")

end Hit

namespace Problem

variable (p : Problem)

/-- The layout of a hit. -/
def layout (o : Orders) (h : Hit) : Layout where
  terminals := o.terminals.map p.grammar.terminalName
  nonterminals := o.nonterminals.map p.grammar.nonterminalName
  modulus := UInt32.ofNat h.modulus
  shift := p.shift
  major := h.major
  fingerprint := some p.fingerprint

/-- One trial: the best modulus below the bound, if there is one. The nonterminal is tried as the major symbol first,
and the terminal must then do better. -/
def trial (o : Orders) (bound : Option Nat) (s : Stamps) : Except Error (Option Hit × Stamps) := do
  let num := Numbering.ofOrders o.terminals o.nonterminals
  let byNonterminal ← rawHashes p.grammar p.table num .nonterminal p.shift.toNat
  let byTerminal ← rawHashes p.grammar p.table num .terminal p.shift.toNat
  let (found, s) := Hit.tryMajor p.floor bound none .nonterminal byNonterminal s
  return Hit.tryMajor p.floor bound found .terminal byTerminal s

end Problem

end Predictive
