import Predictive.Files.Tree
import Predictive.Layout.Placement
import Predictive.Layout.Reader
import Predictive.Layout.Writer
import Predictive.Report
import Predictive.Search.Run

/-!
# Layout files

A layout is saved through a temporary file beside its target that is then renamed, so that an interrupted save never
leaves half a layout at the target.
-/

namespace Predictive.Layout

/-- The path of the temporary file of a target. -/
def temporaryPath (path : String) : String := Path.withExtension path "json.tmp"

/-- The bytes of a layout file. -/
def fileBytes (l : Layout) : List UInt8 := Text.utf8 (l.toJson ++ "\n")

/-- Saves a layout: makes the directories above the target, writes the temporary file and renames it. Yields the tree
as it is after success, or as it was left by the step that failed. -/
def save (l : Layout) (tree : FileTree) (path : String) : Except FileError Unit × FileTree :=
  match tree.makeParents path with
  | (.error e, tree) => (.error e, tree)
  | (.ok (), tree) =>
    match tree.write (temporaryPath path) l.fileBytes with
    | (.error e, tree) => (.error e, tree)
    | (.ok (), tree) => tree.outcome (tree.rename (temporaryPath path) path)

/-- Loads the layout at a path. -/
def load (tree : FileTree) (path : String) : Except Error Layout :=
  match tree.read path with
  | .ok bytes => ofJson bytes
  | .error .notFound => .error (.missingLayout path)
  | .error e => .error (.file e)

/-- Loads the layout at a path and checks that it was made for a grammar. -/
def loadChecked (tree : FileTree) (path : String) (g : Grammar) : Report Layout := do
  let l ← Report.of (load tree path)
  Report.tell l.fingerprintNotes
  Report.of (l.checkFingerprint g)
  return l

/-- The state of a sink that saves layouts: the tree and the number of layouts saved. -/
structure FileSink where
  tree : FileTree
  writes : Nat := 0

/-- A sink that saves every layout at one path. -/
def saveTo (path : String) : Sink FileSink := fun s l =>
  match l.save s.tree path with
  | (.ok (), tree) => (.ok (), ⟨tree, s.writes + 1⟩)
  | (.error e, tree) => (.error (.file e), { s with tree })

end Predictive.Layout
