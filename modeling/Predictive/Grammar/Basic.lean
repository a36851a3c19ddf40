/-!
# Context-free grammars

Terminals, nonterminals and productions are numbered from zero, and a grammar keeps the display name of each
number. The last terminal is the end marker `$`, which no production uses.

`Grammar.productionsOf` lists the alternatives of one nonterminal with their numbers, in order.
-/

namespace Predictive

/-- The display name of the end-of-input terminal. -/
def endMarker : String := "$"

/-- A terminal, by its position in `Grammar.terminals`. -/
abbrev Terminal := Nat

/-- A nonterminal, by its position in `Grammar.nonterminals`. -/
abbrev Nonterminal := Nat

/-- A production, by its position in `Grammar.productions`. -/
abbrev ProductionId := Nat

/-- A grammar symbol. -/
inductive Symbol where
  | terminal (t : Terminal)
  | nonterminal (n : Nonterminal)
deriving DecidableEq, Inhabited

/-- One alternative of `lhs`. An empty `rhs` derives the empty string. -/
structure Production where
  lhs : Nonterminal
  rhs : List Symbol
deriving DecidableEq, Inhabited

/-- A grammar over numbered symbols. The number of the end marker is not kept, and neither are the numbers of the
productions by left-hand side: `Grammar.eof` and `Grammar.productionsOf` find them. -/
structure Grammar where
  terminals : List String
  nonterminals : List String
  productions : List Production
  start : Nonterminal
deriving DecidableEq, Inhabited

namespace Grammar

variable (g : Grammar)

/-- The end marker is the last terminal. -/
def eof : Terminal := g.terminals.length - 1

/-- All terminals, in order. -/
def terminalIds : List Terminal := List.range g.terminals.length

/-- All nonterminals, in order. -/
def nonterminalIds : List Nonterminal := List.range g.nonterminals.length

/-- The alternatives of `n` with their numbers, in order. -/
def productionsOf (n : Nonterminal) : List (ProductionId × Production) :=
  g.productions.zipIdx.filterMap fun (p, i) => if p.lhs = n then some (i, p) else none

@[simp] theorem mem_productionsOf {n : Nonterminal} {id : ProductionId} {p : Production} :
    (id, p) ∈ g.productionsOf n ↔ g.productions[id]? = some p ∧ p.lhs = n := by
  simp only [productionsOf, List.mem_filterMap, Prod.exists, List.mk_mem_zipIdx_iff_getElem?]
  constructor
  · rintro ⟨q, i, hq, h⟩
    split at h
    · rename_i hn
      obtain ⟨rfl, rfl⟩ := Prod.mk.inj (Option.some.inj h)
      exact ⟨hq, hn⟩
    · simp at h
  · rintro ⟨hp, rfl⟩
    exact ⟨p, id, hp, by simp⟩

theorem exists_mem_productionsOf {n : Nonterminal} {p : Production} :
    (∃ id, (id, p) ∈ g.productionsOf n) ↔ p ∈ g.productions ∧ p.lhs = n := by
  rw [List.mem_iff_getElem?]
  simp

/-- The right-hand side of a production, by number. -/
def rhsOf (id : ProductionId) : List Symbol := (g.productions[id]?.map Production.rhs).getD []

/-! ### Names -/

def terminalName (t : Terminal) : String := g.terminals.getD t ""

def nonterminalName (n : Nonterminal) : String := g.nonterminals.getD n ""

def symbolName : Symbol → String
  | .terminal t => g.terminalName t
  | .nonterminal n => g.nonterminalName n

/-- The terminal of a name, if there is one. -/
def terminal? (name : String) : Option Terminal := g.terminals.idxOf? name

/-- The nonterminal of a name, if there is one. -/
def nonterminal? (name : String) : Option Nonterminal := g.nonterminals.idxOf? name

/-- The symbol of a name; a name that is both is read as the nonterminal. -/
def symbol? (name : String) : Option Symbol :=
  (g.nonterminal? name).map .nonterminal <|> (g.terminal? name).map .terminal

/-- The text `lhs -> a b c`, with `ε` for an empty right-hand side. -/
def showProduction (p : Production) : String :=
  let rhs := if p.rhs.isEmpty then "ε" else " ".intercalate (p.rhs.map g.symbolName)
  g.nonterminalName p.lhs ++ " -> " ++ rhs

/-- The name of a table key, as messages print it. -/
def keyName (n : Nonterminal) (t : Terminal) : String :=
  g.nonterminalName n ++ ", " ++ g.terminalName t

/-- What holds of every grammar that a draft yields: the end marker comes last among distinct terminals, no
name is both a terminal and a nonterminal, every number is in range, every nonterminal has an alternative,
and no right-hand side holds the end marker. -/
structure WellFormed : Prop where
  terminals_nodup : g.terminals.Nodup
  nonterminals_nodup : g.nonterminals.Nodup
  disjoint : ∀ name ∈ g.terminals, name ∉ g.nonterminals
  last_terminal : g.terminals.getLast? = some endMarker
  start_lt : g.start < g.nonterminals.length
  lhs_lt : ∀ p ∈ g.productions, p.lhs < g.nonterminals.length
  terminal_lt : ∀ p ∈ g.productions, ∀ t, .terminal t ∈ p.rhs → t < g.eof
  nonterminal_lt : ∀ p ∈ g.productions, ∀ n, .nonterminal n ∈ p.rhs → n < g.nonterminals.length
  productive : ∀ n < g.nonterminals.length, ∃ p ∈ g.productions, p.lhs = n

end Grammar

end Predictive
