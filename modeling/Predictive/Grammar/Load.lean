import Predictive.Grammar.BnfText
import Predictive.Grammar.Builtin
import Predictive.Report

/-!
# Loading grammars

From a draft, from BNF text, or the built-in one, with a note on what was found. How the rules are read from a text is up
to the reader; `Bnf.read?` is one.
-/

namespace Predictive.Grammar

/-- The note on a grammar that was built. -/
def builtNote (g : Grammar) : Note :=
  .debug ("grammar: " ++ toString g.terminals.length ++ " terminals, " ++
    toString g.nonterminals.length ++ " nonterminals, " ++ toString g.productions.length ++
    " productions, start " ++ g.nonterminalName g.start)

/-- The grammar of a draft. -/
def ofDraft (d : Draft) : Report Grammar :=
  match d.build with
  | .error issues => .of (.error (.grammar issues))
  | .ok g => ⟨[g.builtNote], .ok g⟩

/-- The note on rules that were read. -/
def rulesNote (rules : List Bnf.Rule) : Note :=
  .debug ("bnf: " ++ toString (Bnf.definedNames rules).length ++ " rules, " ++
    toString (Bnf.inferredTerminals rules).length ++ " inferred terminals")

/-- The grammar of a BNF text. -/
def ofBnf (read : Bnf.Reader) (text : String) (start : Option String) : Report Grammar :=
  match read text with
  | none => .of (.error .bnf)
  | some rules => do
    Report.tell [rulesNote rules]
    ofDraft (Bnf.toDraft rules start)

/-- The built-in grammar. -/
def builtin (read : Bnf.Reader) : Report Grammar := ofBnf read builtinGrammarText none

end Predictive.Grammar
