import Predictive.Program.Check
import Predictive.Program.Emit
import Predictive.Program.Search

/-!
# The command line

The first argument names the program: `check`, `emit_tables` or `search_hash`. The files that a program may read are
taken in before it runs, and those that it has changed are written when it has ended.
-/

namespace Predictive.CommandLine

/-- The variables that the settings are read from. -/
def variableNames : List String :=
  ["LLPACK_GRAMMAR", "LLPACK_HASH_CONFIG", "LLPACK_SHIFT", "LLPACK_SEED", "LLPACK_WORKERS", "LLPACK_MAX_TRIALS",
   "LLPACK_PROGRESS_EVERY"]

def environment : IO Environment :=
  variableNames.filterMapM fun name => do return (← IO.getEnv name).map (name, ·)

/-- The paths that a program may read or write. -/
def relevantPaths (settings : Settings) (arguments : List String) : List String :=
  settings.grammar.toList ++ [settings.layoutPath, Layout.temporaryPath settings.layoutPath] ++ arguments

/-- The contents of the file at a path, `none` where there is nothing, and a failure where there is a directory. -/
def contents? (path : String) : IO (Except Unit (Option (List UInt8))) := do
  try
    return .ok (some (← IO.FS.readBinFile path).toList)
  catch
    | .noFileOrDirectory .. => return .ok none
    | _ => return .error ()

/-- Takes in what is at a path. -/
def takeIn (tree : FileTree) (path : String) : IO FileTree := do
  if (tree.read path).isOk then return tree
  match ← contents? path with
  | .ok none => return tree
  | .ok (some bytes) =>
    let tree := (tree.makeParents path).2
    return (tree.write path bytes).2
  | .error () => return (tree.makeDirectories path).2

/-- Writes the files at the given paths that a program has changed. -/
def writeBack (paths : List String) (before after : FileTree) : IO Unit := do
  for path in distinct paths do
    if let .ok bytes := after.read path then
      if (before.read path).toOption ≠ some bytes then
        if let some above := Path.parent path then
          unless above = "" do IO.FS.createDirAll above
        IO.FS.writeBinFile path ⟨bytes.toArray⟩

def printOutput : Output → IO Unit
  | .out text => IO.print text
  | .err text => IO.eprint text

/-- Runs a program on the files at the given paths. -/
def execute (paths : List String) (program : FileTree → Outcome) : IO UInt32 := do
  let home := Path.names (← IO.currentDir).toString
  let tree ← (distinct (paths.flatMap fun path => (Path.ancestors path).reverse)).foldlM takeIn { home }
  let outcome := program tree
  outcome.written.forM printOutput
  writeBack paths tree outcome.tree
  return UInt32.ofNat outcome.code

end Predictive.CommandLine

open Predictive CommandLine in
def main (arguments : List String) : IO UInt32 := do
  let env ← environment
  let settings := Settings.ofEnvironment env
  let paths := relevantPaths settings
  match arguments with
  | ["check"] => execute (paths []) (Program.check Bnf.read? env)
  | "emit_tables" :: files => execute (paths files) (Program.emit Bnf.read? files env)
  | ["search_hash"] =>
    let drawn ← IO.rand 0 (UInt64.size - 1)
    execute (paths []) (Program.search Bnf.read? .standard env drawn)
  | _ =>
    IO.eprintln "usage: (check | emit_tables <source-file> <header-file> | search_hash)"
    return 1
