import Predictive.Grammar.Advisory
import Predictive.Grammar.Digest
import Predictive.Table.Basic

/-!
# Compiled grammars

A grammar with its analysis and its prediction table.
-/

namespace Predictive

/-- A grammar, its FIRST and FOLLOW sets, and its table. -/
structure Compiled where
  grammar : Grammar
  analysis : Analysis
  table : Table
deriving DecidableEq, Inhabited

namespace Compiled

/-- Compiles a grammar: fails on left recursion, then on conflicts. -/
def compile (g : Grammar) : Except (List Issue) Compiled := do
  let analysis ← Analysis.compute g
  let table ← Table.build g analysis
  return ⟨g, analysis, table⟩

/-- The note on a table that was built. -/
def tableNote (c : Compiled) : Note :=
  .debug ("table: " ++ toString c.table.size ++ " keys, " ++ toString (c.table.symbolSlots c.grammar) ++
    " symbol slots")

/-- Compiles a grammar and tells about it: remarks on the grammar, the sizes of the sets and of the table. -/
def report (g : Grammar) : Report Compiled := do
  Report.tell g.advisoryNotes
  let analysis ← Analysis.report g
  match Table.build g analysis with
  | .error issues => Report.of (.error (.grammar issues))
  | .ok table =>
    let c : Compiled := ⟨g, analysis, table⟩
    Report.tell [c.tableNote, .debug ("compiled grammar " ++ g.fingerprint.text)]
    return c

end Compiled

end Predictive
