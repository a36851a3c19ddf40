import Predictive.Distinct
import Predictive.Grammar.Basic
import Predictive.Issue

/-!
# Drafts

A draft is a grammar as it is authored: a start symbol, declared terminals and rules, all by name and in any
order. `Draft.build` numbers the names and yields a grammar, or all the issues that forbid it.

Nonterminals are the left-hand sides in order of first rule. Terminals are the declared names in order of first
declaration, with the end marker moved last. Productions are grouped by left-hand side.
-/

namespace Predictive

/-- A grammar by names, as authored. -/
structure Draft where
  start : String
  /-- Declared terminals; a name may be declared more than once. -/
  terminals : List String := []
  /-- Left-hand side and alternative of every rule. -/
  rules : List (String × List String) := []
deriving DecidableEq, Inhabited

/-- The names of terminals and nonterminals, in the order of their numbers. -/
structure Vocabulary where
  terminals : List String
  nonterminals : List String
deriving DecidableEq, Inhabited

namespace Vocabulary

variable (v : Vocabulary)

/-- The symbol that a name in an alternative stands for. The end marker stands for none. -/
def resolve (name : String) : Option Symbol :=
  if name = endMarker then none
  else (v.nonterminals.idxOf? name).map .nonterminal <|> (v.terminals.idxOf? name).map .terminal

/-- The issue of a name in an alternative of `lhs`, if it stands for no symbol. -/
def nameIssue (lhs name : String) : Option Issue :=
  if name = endMarker then some (.reserved endMarker)
  else if (v.resolve name).isNone then some (.unresolved lhs name)
  else none

end Vocabulary

namespace Draft

variable (d : Draft)

/-- The draft with more terminals declared. -/
def declare (names : List String) : Draft := { d with terminals := d.terminals ++ names }

/-- The draft with one more rule. -/
def addRule (lhs : String) (rhs : List String) : Draft := { d with rules := d.rules ++ [(lhs, rhs)] }

/-- The left-hand sides, in order of first rule. -/
def lefts : List String := distinct (d.rules.map Prod.fst)

/-- The declared terminals, in order of first declaration. -/
def declared : List String := distinct d.terminals

/-- The alternatives of a left-hand side, in order. -/
def alternatives (lhs : String) : List (List String) :=
  d.rules.filterMap fun (l, rhs) => if l = lhs then some rhs else none

theorem alternatives_addRule (lhs l : String) (rhs : List String) :
    (d.addRule lhs rhs).alternatives l = d.alternatives l ++ if lhs = l then [rhs] else [] := by
  by_cases h : lhs = l <;> simp [alternatives, addRule, h]

/-- The names of a draft in the order of their numbers: the terminals are the declared ones, and the end marker
last. -/
def vocabulary : Vocabulary where
  terminals := d.declared.filter (· ≠ endMarker) ++ [endMarker]
  nonterminals := d.lefts

/-- Everything that forbids a grammar, each issue once, in order. -/
def issues : List Issue :=
  let v := d.vocabulary
  distinct <|
    (if d.start ∈ v.nonterminals then [] else [.undefinedStart d.start]) ++
    (d.declared.filter (· ∈ v.nonterminals)).map .terminalHasRules ++
    (if endMarker ∈ v.nonterminals then [.reserved endMarker] else []) ++
    v.nonterminals.flatMap fun lhs => (d.alternatives lhs).flatten.filterMap (v.nameIssue lhs)

/-- The productions, grouped by left-hand side. -/
def productions : List Production :=
  let v := d.vocabulary
  v.nonterminals.zipIdx.flatMap fun (lhs, n) =>
    (d.alternatives lhs).map fun alternative => ⟨n, alternative.filterMap v.resolve⟩

/-- Numbers the productions of one left-hand side after those of another, from `first` on. -/
def numbered : (first : ProductionId) → List (List (List String)) → List (List ProductionId)
  | _, [] => []
  | first, alternatives :: more =>
    List.range' first alternatives.length :: numbered (first + alternatives.length) more

/-- The numbers of the productions, listed by left-hand side while they are made. -/
def listed : List (List ProductionId) := numbered 0 (d.vocabulary.nonterminals.map d.alternatives)

/-- The grammar of a draft without issues. -/
def grammar : Grammar where
  terminals := d.vocabulary.terminals
  nonterminals := d.vocabulary.nonterminals
  productions := d.productions
  start := d.vocabulary.nonterminals.idxOf d.start

/-- The grammar of a draft, or all its issues. -/
def build : Except (List Issue) Grammar :=
  if d.issues = [] then .ok d.grammar else .error d.issues

end Draft

end Predictive
