import Predictive.Files.Tree
import Predictive.Report
import Predictive.Text.Blank
import Predictive.Text.Plain

/-!
# Tasks

A program is a task over a file tree: it writes text, changes the tree, and ends in success or in a failure that
says what was being done and why it did not work.
-/

namespace Predictive

/-- Text that a program writes to its output or to its error output. -/
inductive Output where
  | out (text : String)
  | err (text : String)
deriving DecidableEq, Inhabited

namespace Output

/-- A line of the output. -/
def outLine (text : String) : Output := .out (text ++ "\n")

/-- A line of the error output. -/
def errLine (text : String) : Output := .err (text ++ "\n")

end Output

/-- A note as it is shown: its lines after the first are indented, and it has no terminal control. -/
def Note.shownText (n : Note) : String := Text.plain (n.level.name ++ " " ++ Text.hanging n.text ++ "\n")

/-- A note as output, if it is heavy enough to be shown. -/
def Note.output? (n : Note) (shown : Level) : Option Output :=
  if n.level.within shown then some (.err n.shownText) else none

/-- What was being done when a task failed, and the cause if there is one. -/
structure Failure where
  context : String
  cause : Option Error := none

namespace Failure

/-- The failure on one line. -/
def short (f : Failure) : String :=
  match f.cause with
  | some e => f.context ++ ": " ++ e.message
  | none => f.context

/-- The failure with its cause in a paragraph of its own. -/
def long (f : Failure) : String :=
  match f.cause with
  | some e => f.context ++ "\n\nCaused by:\n    " ++ Text.hanging e.message
  | none => f.context

end Failure

/-- What a task leaves: what it wrote, the tree, and its result or failure. -/
structure TaskEnd (α : Type) where
  written : List Output
  tree : FileTree
  outcome : Except Failure α

/-- A part of a program. -/
def Task (α : Type) := FileTree → TaskEnd α

namespace Task

variable {α β : Type}

/-- Goes on with the result of a task. -/
def andThen (t : Task α) (f : α → Task β) : Task β := fun tree =>
  let e := t tree
  match e.outcome with
  | .ok a =>
    let e' := f a e.tree
    { e' with written := e.written ++ e'.written }
  | .error failure => ⟨e.written, e.tree, .error failure⟩

instance : Monad Task where
  pure a := fun tree => ⟨[], tree, .ok a⟩
  bind := andThen

/-- The tree as it is. -/
def tree : Task FileTree := fun tree => ⟨[], tree, .ok tree⟩

/-- Writes text. -/
def write (written : List Output) : Task Unit := fun tree => ⟨written, tree, .ok ()⟩

/-- Writes a line to the output. -/
def print (text : String) : Task Unit := write [.outLine text]

/-- Shows notes that are heavy enough. -/
def tell (shown : Level) (notes : List Note) : Task Unit := write (notes.filterMap (·.output? shown))

/-- Fails. -/
def fail (f : Failure) : Task α := fun tree => ⟨[], tree, .error f⟩

/-- Takes the result of a report, shows its notes, and fails in a context where it failed. -/
def attempt (shown : Level) (context : String) (r : Report α) : Task α := do
  tell shown r.notes
  match r.outcome with
  | .ok a => return a
  | .error e => fail ⟨context, some e⟩

/-- Changes the tree, or fails in a context. -/
def change (context : String) (f : FileTree → Except FileError Unit × FileTree) : Task Unit := fun tree =>
  match f tree with
  | (.ok (), tree) => ⟨[], tree, .ok ()⟩
  | (.error e, tree) => ⟨[], tree, .error ⟨context, some (.file e)⟩⟩

end Task

/-- How a program ended: its exit code, what it wrote and the tree it left. -/
structure Outcome where
  code : Nat
  written : List Output
  tree : FileTree

namespace Outcome

/-- The text of the output. -/
def stdout (o : Outcome) : String :=
  String.join (o.written.map fun
    | .out text => text
    | .err _ => "")

/-- The text of the error output. -/
def stderr (o : Outcome) : String :=
  String.join (o.written.map fun
    | .err text => text
    | .out _ => "")

/-- Ends a program: a failure is written to the error output as `render` says. -/
def ofTask {α : Type} (render : Failure → String) (e : TaskEnd α) : Outcome :=
  match e.outcome with
  | .ok _ => ⟨0, e.written, e.tree⟩
  | .error f => ⟨1, e.written ++ [.errLine (render f)], e.tree⟩

end Outcome

end Predictive
