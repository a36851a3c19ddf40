import Predictive.Files.LayoutFile
import Predictive.Packed.CText
import Predictive.Program.Task
import Predictive.Settings
import Predictive.Table.Compile

/-!
# Emitting tables

This program lays the table of a grammar out under the layout that was saved for it, and writes the C source and the
C header of the packed table. The source is written before the header.
-/

namespace Predictive.Program

/-- The name of the program, in what it writes. -/
def emitName : String := "emit_tables"

/-- The lightest notes that the program shows. -/
def emitShown : Level := .info

/-- Writes a file and makes the directories above it. -/
def writeFile (path text : String) : Task Unit := do
  Task.change ("failed to create " ++ (Path.parent path).getD "") (·.makeParents path)
  Task.change ("failed to write " ++ path) fun tree => tree.write path (Text.utf8 text)

/-- A line of the output. -/
def emitLine (text : String) : Task Unit := Task.print ("[" ++ emitName ++ "] " ++ text)

/-- Packs the table and writes the two files. -/
def emitTask (read : Bnf.Reader) (settings : Settings) (sourcePath headerPath : String) : Task Unit := do
  let g ← Task.attempt emitShown "failed to load grammar" (settings.loadGrammar read (← Task.tree))
  let c ← Task.attempt emitShown "grammar is not LL(1)" (Compiled.report g)
  let l ← Task.attempt emitShown ("unusable hash config " ++ settings.layoutPath)
    (Layout.loadChecked (← Task.tree) settings.layoutPath c.grammar)
  let t ← Task.attempt emitShown "table does not fit the hash config" (PackedTable.report c.grammar c.table l)
  match Path.fileName headerPath with
  | none => Task.fail ⟨"header path has no file name", none⟩
  | some header =>
    let artifacts := CText.render t emitName header
    emitLine (toString t.modulus.toNat ++ " buckets (" ++ toString t.validBuckets ++ " valid), " ++
      toString t.pool.length ++ " pool slots, " ++ toString t.symbols.terminals.length ++ " terminals, " ++
      toString t.symbols.nonterminals.length ++ " nonterminals")
    writeFile sourcePath artifacts.source
    writeFile headerPath artifacts.header
    emitLine ("wrote " ++ sourcePath)
    emitLine ("wrote " ++ headerPath)

/-- Runs the program with its arguments. -/
def emit (read : Bnf.Reader) (arguments : List String) (env : Environment) (tree : FileTree) : Outcome :=
  match arguments with
  | [sourcePath, headerPath] =>
    Outcome.ofTask (fun f => "error: " ++ f.short)
      (emitTask read (Settings.ofEnvironment env) sourcePath headerPath tree)
  | _ => ⟨1, [.errLine ("usage: " ++ emitName ++ " <source-file> <header-file>")], tree⟩

end Predictive.Program
