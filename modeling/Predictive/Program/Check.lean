import Predictive.Program.Task
import Predictive.Settings
import Predictive.Table.Compile

/-!
# Checking a grammar

This program loads a grammar and compiles it, and writes the numbers that size a search.
-/

namespace Predictive.Program

/-- The lightest notes that the program shows. -/
def checkShown : Level := .warn

/-- Lines of the error output. -/
def remarks (texts : List String) : Task Unit := Task.write (texts.map .errLine)

/-- The sizes of a grammar. -/
def grammarSizes (g : Grammar) : List String :=
  [toString g.productions.length ++ " expansion rules (" ++ toString g.distinctExpansions ++ " unique)",
   "terms: " ++ toString g.terminals.length,
   "nonterms: " ++ toString g.nonterminals.length,
   "fingerprint: " ++ g.fingerprint.text]

/-- The sizes of a table. -/
def tableSizes (c : Compiled) : List String :=
  ["table keys: " ++ toString c.table.size,
   "symbol slots: " ++ toString (c.table.symbolSlots c.grammar)]

/-- Loads and compiles the grammar. -/
def checkTask (read : Bnf.Reader) (settings : Settings) : Task Unit := do
  let g ← Task.attempt checkShown "grammar error" (settings.loadGrammar read (← Task.tree))
  remarks (grammarSizes g)
  let r := Compiled.report g
  Task.tell checkShown r.notes
  match r.outcome with
  | .ok c => remarks (tableSizes c)
  | .error e => Task.fail ⟨e.message, none⟩

/-- Runs the program. -/
def check (read : Bnf.Reader) (env : Environment) (tree : FileTree) : Outcome :=
  Outcome.ofTask Failure.short (checkTask read (Settings.ofEnvironment env) tree)

end Predictive.Program
