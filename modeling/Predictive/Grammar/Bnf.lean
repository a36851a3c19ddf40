import Predictive.Grammar.Draft

/-!
# Grammars in BNF

Rules in Backus–Naur form name every symbol on the spot: quoted literals are terminals, a bracketed name with
rules is a nonterminal, and a bracketed name without rules is a terminal that stands for a class of tokens.
An empty literal stands for the empty string and leaves no symbol.

`Bnf.toDraft` infers the terminals and turns the rules into a draft.
-/

namespace Predictive

namespace Bnf

/-- One item of an alternative. -/
inductive Term where
  | literal (text : String)
  | name (text : String)
deriving DecidableEq, Inhabited

/-- A rule: the name that it defines and its alternatives. -/
structure Rule where
  lhs : String
  alternatives : List (List Term)
deriving DecidableEq, Inhabited

/-- Reads the rules of a text, in order, if it is well formed. -/
abbrev Reader := String → Option (List Rule)

/-- The display name of a bracketed name keeps its brackets. -/
def bracketed (name : String) : String := "<" ++ name ++ ">"

def Term.display : Term → String
  | .literal text => text
  | .name text => bracketed text

/-- The symbol that a term contributes to its alternative; an empty literal contributes none. -/
def Term.symbol? : Term → Option String
  | .literal text => if text = "" then none else some text
  | .name text => some (bracketed text)

/-- The display names of the defined nonterminals, in order of first rule. -/
def definedNames (rules : List Rule) : List String := distinct (rules.map fun r => bracketed r.lhs)

/-- The terminals that the alternatives use: literals, and bracketed names without rules. -/
def inferredTerminals (rules : List Rule) : List String :=
  distinct <| rules.flatMap fun r => r.alternatives.flatten.filterMap fun
    | .literal text => if text = "" then none else some text
    | .name text => if bracketed text ∈ definedNames rules then none else some (bracketed text)

/-- The draft of a list of rules. The first left-hand side is the start symbol unless one is given. -/
def toDraft (rules : List Rule) (start : Option String) : Draft where
  start := start.getD ((definedNames rules).headD "")
  terminals := inferredTerminals rules
  rules := rules.flatMap fun r => r.alternatives.map fun a => (bracketed r.lhs, a.filterMap Term.symbol?)

end Bnf

end Predictive
