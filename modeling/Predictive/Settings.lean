import Predictive.Files.Tree
import Predictive.Grammar.Load
import Predictive.Search.Run
import Predictive.Text.Blank

/-!
# Settings

The programs take their settings from the environment. A value that cannot be read counts as absent.
-/

namespace Predictive

/-- The variables that are set, with their values. -/
abbrev Environment := List (String × String)

/-- The settings of a run. -/
structure Settings where
  /-- The BNF file to load in place of the built-in grammar. -/
  grammar : Option String := none
  layoutPath : String := "tables/parser_hash.json"
  shift : Nat := defaultShift
  /-- The seed of the search; without one, a seed is drawn for the run. -/
  seed : Option Nat := none
  workers : Nat := 1
  maxTrials : Option Nat := none
  progressEvery : Nat := 10000
deriving DecidableEq, Inhabited

namespace Settings

/-- The number in a variable: decimal digits below `2 ^ 64`, with blanks around them and perhaps a plus sign. -/
def number? (env : Environment) (name : String) : Option Nat := do
  match Numeral.read 10 (Text.trimmed (← env.lookup name)) with
  | .ok n => some n
  | .error _ => none

/-- The path in a variable; an empty one counts as absent. -/
def path? (env : Environment) (name : String) : Option String := (env.lookup name).filter (· ≠ "")

/-- The settings of an environment. A shift is used only below 32, and there is at least one worker. -/
def ofEnvironment (env : Environment) : Settings :=
  let default : Settings := {}
  { grammar := path? env "LLPACK_GRAMMAR"
    layoutPath := (path? env "LLPACK_HASH_CONFIG").getD default.layoutPath
    shift := ((number? env "LLPACK_SHIFT").filter (· < 32)).getD default.shift
    seed := number? env "LLPACK_SEED"
    workers := ((number? env "LLPACK_WORKERS").map (max · 1)).getD default.workers
    maxTrials := number? env "LLPACK_MAX_TRIALS"
    progressEvery := (number? env "LLPACK_PROGRESS_EVERY").getD default.progressEvery }

variable (s : Settings)

/-- Loads the grammar that the settings name. -/
def loadGrammar (read : Bnf.Reader) (tree : FileTree) : Report Grammar :=
  match s.grammar with
  | none => Grammar.builtin read
  | some path =>
    match tree.readText path with
    | .ok text => Grammar.ofBnf read text none
    | .error e => .of (.error (.file e))

/-- The options of a search with a seed. -/
def searchOptions (seed : Nat) : SearchOptions where
  shift := UInt32.ofNat s.shift
  seed := UInt64.ofNat seed
  workers := s.workers
  maxTrials := s.maxTrials
  progressEvery := s.progressEvery

end Settings

end Predictive
