import Predictive.Files.LayoutFile
import Predictive.Program.Task
import Predictive.Settings
import Predictive.Table.Compile

/-!
# Searching for a layout

This program searches for a layout of the table of a grammar and saves every improvement. It goes on from the layout
that is saved already, if that has the wanted shift and fits the grammar.
-/

namespace Predictive.Program

/-- The name of the program, in what it writes. -/
def searchName : String := "search_hash"

/-- The lightest notes that the program shows. -/
def searchShown : Level := .info

/-- A line of the output. -/
def searchLine (text : String) : Output := .outLine ("[" ++ searchName ++ "] " ++ text)

/-- The notes that are shown. -/
def searchNotes (notes : List Note) : List Output := notes.filterMap (·.output? searchShown)

/-- Where the search starts, and what to say about it. -/
def startingState (settings : Settings) (c : Compiled) (tree : FileTree) : List Output × SearchState :=
  match Layout.load tree settings.layoutPath with
  | .error (.missingLayout _) => ([], {})
  | .error e => (searchNotes [.warn ("ignoring existing hash config: " ++ e.message)], {})
  | .ok l =>
    if l.shift.toNat ≠ settings.shift then
      (searchNotes [.warn ("existing config uses shift " ++ toString l.shift.toNat ++
        ", searching from scratch with shift " ++ toString settings.shift)], {})
    else
      match SearchState.resumeChecked c.grammar c.table l with
      | .ok s =>
        (searchNotes l.fingerprintNotes ++
          [searchLine ("resuming from modulus " ++ toString (s.bestModulus.getD 0) ++ " (" ++
            settings.layoutPath ++ ")")], s)
      | .error e =>
        (searchNotes (l.fingerprintNotes ++
          [.warn ("existing hash config does not fit the grammar, ignoring it: " ++ e.message)]), {})

/-- What to say at the end of a search. -/
def finalLine (s : SearchState) (writes : Nat) (path : String) : Output :=
  match s.best with
  | some l =>
    searchLine ("done after " ++ toString s.trials ++ " trials: modulus " ++ toString l.modulus.toNat ++ " [" ++
      l.major.tag ++ "], " ++ toString writes ++ " write(s) to " ++ path)
  | none => searchLine ("done after " ++ toString s.trials ++ " trials, nothing found")

/-- The search itself; every improvement is saved at the layout path. -/
def runSearch (r : Shuffler) (settings : Settings) (c : Compiled) (seed : Nat) (start : SearchState) : Task Unit := fun tree =>
  let options := settings.searchOptions seed
  let problem := Problem.of c.grammar c.table options.shift
  let e := Search.search r problem options (Layout.saveTo settings.layoutPath) start { tree }
  let written := searchNotes e.notes
  match e.outcome with
  | .ok s => ⟨written ++ [finalLine s e.sink.writes settings.layoutPath], e.sink.tree, .ok ()⟩
  | .error cause => ⟨written, e.sink.tree, .error ⟨"hash search aborted", some cause⟩⟩

/-- Compiles the grammar and searches. `drawn` is the seed where the settings have none. -/
def searchTask (read : Bnf.Reader) (r : Shuffler) (settings : Settings) (drawn : Nat) : Task Unit := do
  let g ← Task.attempt searchShown "failed to load grammar" (settings.loadGrammar read (← Task.tree))
  let c ← Task.attempt searchShown "grammar is not LL(1)" (Compiled.report g)
  let seed := settings.seed.getD drawn
  Task.write [searchLine (toString c.table.size ++ " table keys, shift " ++ toString settings.shift ++ ", seed " ++
    toString seed ++ ", " ++ toString settings.workers ++ " worker(s)")]
  let (written, start) := startingState settings c (← Task.tree)
  Task.write written
  runSearch r settings c seed start

/-- Runs the program. -/
def search (read : Bnf.Reader) (r : Shuffler) (env : Environment) (drawn : Nat) (tree : FileTree) : Outcome :=
  Outcome.ofTask (fun f => "Error: " ++ f.long) (searchTask read r (Settings.ofEnvironment env) drawn tree)

end Predictive.Program
