import Predictive.Error
import Predictive.Files.Path
import Predictive.Text.Utf8

/-!
# File trees

Files, directories and symbolic links by their locations, a location being the names on the way from the root without
any link. A file is known by a number, so that one file can have several names. A path is followed name by name, from
the root or from the working directory: every name but the last must be that of a directory or of a link to one, `.`
stays and `..` goes up. What an operation does with the last name is up to the operation. Operations that change more
than one thing yield the tree also where they fail.
-/

namespace Predictive

/-- The number of a file or of a symbolic link. Names that stand for files with one number are names of one file. -/
abbrev FileId := Nat

/-- What a name stands for: a directory, a file, or a symbolic link with the path in it. -/
inductive Node where
  | directory
  | file (id : FileId)
  | link (id : FileId) (path : String)
deriving DecidableEq, Inhabited

/-- The names on the way from the root. -/
abbrev Location := List String

/-- A change that the system is asked for. -/
inductive Change where
  | create (path : String)
  | makeDirectory (path : String)
  | rename (source target : String)
deriving DecidableEq, Inhabited

/-- Nodes by their locations and the contents of files by their numbers; the first entry of a list counts. The working
directory `home` and the directories above it are always there. -/
structure FileTree where
  home : Location := []
  nodes : List (Location × Node) := []
  contents : List (FileId × List UInt8) := []
  /-- Changes that are refused although the tree has room for them, for want of a permission or whatever the reason. -/
  refused : List (Change × FileError) := []
  /-- The most bytes that can be written to a file, if the device can be full. -/
  room : Option Nat := none
deriving DecidableEq, Inhabited

/-- Where a path leads: to a name in a directory, perhaps with a slash after it, or to a directory by `.`, by `..` or
as the root. -/
inductive Target where
  | entry (directory : Location) (name : String) (slash : Bool)
  | directory (loc : Location)
deriving DecidableEq, Inhabited

/-- Whether a link at the end of a path is followed, by whether there is a slash after it. -/
abbrev LastLink := Bool → Bool

namespace LastLink

/-- A name is replaced or made, so what it stands for does not matter. -/
def kept : LastLink := fun _ => false

/-- What is there is read. -/
def followed : LastLink := fun _ => true

/-- A file is opened and made if it is not there, which a slash forbids. -/
def opened : LastLink := fun slash => !slash

end LastLink

namespace FileTree

variable (tree : FileTree)

/-- The node at a location. -/
def node? (loc : Location) : Option Node :=
  if loc.isPrefixOf tree.home then some .directory else tree.nodes.lookup loc

/-- The tree without a node. -/
def erase (loc : Location) : FileTree := { tree with nodes := tree.nodes.filter fun e => e.1 != loc }

/-- The tree with a node put at a location. -/
def put (loc : Location) (node : Node) : FileTree :=
  { tree with nodes := (loc, node) :: (tree.erase loc).nodes }

/-- The contents of a file. -/
def bytes (id : FileId) : List UInt8 := (tree.contents.lookup id).getD []

/-- The tree with other contents of a file. -/
def setBytes (id : FileId) (bytes : List UInt8) : FileTree := { tree with contents := (id, bytes) :: tree.contents }

/-- A number above those of all files. -/
def newId : FileId :=
  tree.nodes.foldr (fun e least =>
    match e.2 with
    | .file id => max least (id + 1)
    | _ => least) 0

theorem lookup_filter_ne {α β : Type} [BEq α] [LawfulBEq α] (l : List (α × β)) {a b : α} (h : a ≠ b) :
    (l.filter fun e => e.1 != b).lookup a = l.lookup a := by
  induction l with
  | nil => rfl
  | cons e l ih =>
    obtain ⟨x, y⟩ := e
    by_cases hx : x = b
    · subst hx
      have hax : (a == x) = false := by simpa using h
      simp [List.lookup_cons, hax, ih]
    · have hxb : (x != b) = true := by simpa using hx
      simp [List.lookup_cons, hxb, ih]

/-- A node that was put is there, and all others stay. -/
theorem node?_put (loc loc' : Location) (node : Node) (h : loc.isPrefixOf tree.home = false) :
    (tree.put loc node).node? loc' = if loc' = loc then some node else tree.node? loc' := by
  by_cases hl : loc' = loc
  · subst hl; simp [node?, put, h]
  · have hb : (loc' == loc) = false := by simpa using hl
    simp [node?, put, erase, hl, List.lookup_cons, hb, lookup_filter_ne _ hl]

/-- Erasing a node leaves all others. -/
theorem node?_erase_of_ne {loc loc' : Location} (h : loc' ≠ loc) :
    (tree.erase loc).node? loc' = tree.node? loc' := by
  simp [node?, erase, lookup_filter_ne _ h]

@[simp] theorem node?_setBytes (id : FileId) (bytes : List UInt8) (loc : Location) :
    (tree.setBytes id bytes).node? loc = tree.node? loc := rfl

theorem bytes_setBytes (id id' : FileId) (bytes : List UInt8) :
    (tree.setBytes id bytes).bytes id' = if id' = id then bytes else tree.bytes id' := by
  by_cases h : id' = id
  · simp [FileTree.bytes, setBytes, h]
  · have hb : (id' == id) = false := by simpa using h
    simp [FileTree.bytes, setBytes, h, List.lookup_cons, hb]

/-- No name stands for a file with a new number. -/
theorem lt_newId {loc : Location} {id : FileId} (h : tree.node? loc = some (.file id)) : id < tree.newId := by
  have hlookup : tree.nodes.lookup loc = some (.file id) := by
    unfold node? at h
    split at h
    · simp at h
    · exact h
  unfold newId
  generalize tree.nodes = nodes at hlookup
  induction nodes with
  | nil => simp at hlookup
  | cons e nodes ih =>
    obtain ⟨loc', node⟩ := e
    rw [List.foldr_cons]
    rw [List.lookup_cons] at hlookup
    split at hlookup
    · obtain rfl := Option.some.inj hlookup
      exact Nat.lt_of_lt_of_le (Nat.lt_succ_self id) (Nat.le_max_right _ _)
    · have hrest := ih hlookup
      cases node with
      | directory => exact hrest
      | file id' => exact Nat.lt_of_lt_of_le hrest (Nat.le_max_left _ _)
      | link id' path => exact hrest

/-- The outcome of a change that leaves the tree as it was where it fails. -/
def outcome : Except FileError FileTree → Except FileError Unit × FileTree
  | .ok changed => (.ok (), changed)
  | .error e => (.error e, tree)

/-- The tree after a change, unless the change is refused. -/
def permit (change : Change) (changed : FileTree) : Except FileError FileTree :=
  match tree.refused.lookup change with
  | some e => .error e
  | none => .ok changed

/-! ### Following a path -/

/-- The most bytes that a name has. -/
def longestName : Nat := 255

/-- The most bytes that a path has. -/
def longestPath : Nat := 4095

/-- The most links that are followed on the way of one path. -/
def mostLinks : Nat := 40

/-- The node of a name in a directory. -/
def find (here : Location) (name : String) : Except FileError (Option Node) :=
  if longestName < name.utf8ByteSize then .error .nameTooLong else .ok (tree.node? (here ++ [name]))

/-- Follows names from a directory. From a link, `jump` goes on with the directory that it stands in, the path in it and
the names that are left. -/
def walk (follows : LastLink) (jump : Location → String → List String → Except FileError Target) (slash : Bool) :
    Location → List String → Except FileError Target
  | here, [] => .ok (.directory here)
  | here, name :: rest =>
    if name = "." then walk follows jump slash here rest
    else if name = ".." then walk follows jump slash here.dropLast rest
    else if rest = [] ∧ follows slash = false then .ok (.entry here name slash)
    else
      match tree.find here name with
      | .error e => .error e
      | .ok (some (.link _ path)) => jump here path rest
      | .ok (some .directory) =>
        if rest = [] then .ok (.entry here name slash) else walk follows jump slash (here ++ [name]) rest
      | .ok (some (.file _)) => if rest = [] then .ok (.entry here name slash) else .error .notADirectory
      | .ok none => if rest = [] then .ok (.entry here name slash) else .error .notFound

/-- The directory in which a path starts that is read in a directory. -/
def start (here : Location) (path : String) : Location := if Path.isAbsolute path then [] else here

/-- Follows names from a directory, and no more than so many links. The names in a link take its place. -/
def resolve (follows : LastLink) : (links : Nat) → (slash : Bool) → Location → List String → Except FileError Target
  | 0, slash => tree.walk follows (fun _ _ _ => .error .tooManyLinks) slash
  | links + 1, slash => tree.walk follows (fun here path rest =>
      if path = "" then .error .notFound
      else resolve follows links (slash || (rest.isEmpty && Path.endsInSlash path)) (start here path)
        (Path.names path ++ rest)) slash

/-- Follows a path up to its last name, which need not exist. -/
def target (follows : LastLink) (path : String) : Except FileError Target :=
  if path.toList.contains '\x00' then .error .nulInPath
  else if longestPath < path.utf8ByteSize then .error .nameTooLong
  else if path = "" then .error .notFound
  else tree.resolve follows mostLinks (Path.endsInSlash path) (start tree.home path) (Path.names path)

/-- Whether there is a directory at a path. -/
def isDirectory (path : String) : Bool :=
  match tree.target .followed path with
  | .ok (.directory _) => true
  | .ok (.entry here name _) => (tree.find here name).toOption = some (some .directory)
  | .error _ => false

/-! ### Reading and writing -/

/-- The contents of the file at a path. -/
def read (path : String) : Except FileError (List UInt8) := do
  match ← tree.target .followed path with
  | .directory _ => .error .isADirectory
  | .entry here name slash =>
    match ← tree.find here name with
    | none => .error .notFound
    | some .directory => .error .isADirectory
    | some (.link _ _) => .error .tooManyLinks
    | some (.file id) => if slash then .error .notADirectory else .ok (tree.bytes id)

/-- The text of the file at a path. -/
def readText (path : String) : Except FileError String := do
  match Text.ofUtf8? (← tree.read path) with
  | some s => .ok s
  | none => .error .notText

/-- Opens the file at a path and empties it, or makes it if there is none. -/
def create (path : String) : Except FileError (FileId × FileTree) := do
  match ← tree.target .opened path with
  | .directory _ => .error .isADirectory
  | .entry here name slash =>
    if slash then .error .isADirectory
    else
      match ← tree.find here name with
      | some .directory => .error .isADirectory
      | some (.link _ _) => .error .tooManyLinks
      | some (.file id) => return (id, ← tree.permit (.create path) (tree.setBytes id []))
      | none =>
        let id := tree.newId
        return (id, ← tree.permit (.create path) ((tree.put (here ++ [name]) (.file id)).setBytes id []))

/-- Writes bytes to a file that was emptied, as far as there is room. -/
def fill (id : FileId) (bytes : List UInt8) : Except FileError Unit × FileTree :=
  match tree.room with
  | none => (.ok (), tree.setBytes id bytes)
  | some room =>
    if bytes.length ≤ room then (.ok (), tree.setBytes id bytes)
    else (.error .storageFull, tree.setBytes id (bytes.take room))

/-- Creates or replaces the file at a path. -/
def write (path : String) (bytes : List UInt8) : Except FileError Unit × FileTree :=
  match tree.create path with
  | .error e => (.error e, tree)
  | .ok (id, tree) => tree.fill id bytes

/-- Moves a file or a link, replacing what is at the target unless that is a directory. Between two names of one thing
nothing is moved. -/
def rename (source target : String) : Except FileError FileTree := do
  match ← tree.target .kept source, ← tree.target .kept target with
  | .entry here name slash, .entry here' name' slash' =>
    match ← tree.find here name with
    | none => .error .notFound
    | some .directory => .error .isADirectory
    | some node =>
      let old ← tree.find here' name'
      if slash ∨ slash' then .error .notADirectory
      else if old = some .directory then .error .isADirectory
      else if old = some node then .ok tree
      else tree.permit (.rename source target) ((tree.erase (here ++ [name])).put (here' ++ [name']) node)
  | _, _ => .error .busy

/-! ### Making directories -/

/-- Makes the directory at a path, where there is nothing yet. -/
def makeDirectory (path : String) : Except FileError FileTree := do
  match ← tree.target .kept path with
  | .directory _ => .error .alreadyExists
  | .entry here name _ =>
    match ← tree.find here name with
    | some _ => .error .alreadyExists
    | none => tree.permit (.makeDirectory path) (tree.put (here ++ [name]) .directory)

/-- Makes the directory at a path, unless it is there. -/
def ensureDirectory (path : String) : Except FileError FileTree :=
  match tree.makeDirectory path with
  | .ok tree => .ok tree
  | .error e => if tree.isDirectory path then .ok tree else .error e

/-- Makes the directory at the first path. The paths after it are those above it, and are made if they are missing. -/
def makeAlong : FileTree → List String → Except FileError Unit × FileTree
  | tree, [] => (.ok (), tree)
  | tree, path :: above =>
    match tree.ensureDirectory path with
    | .ok tree => (.ok (), tree)
    | .error .notFound =>
      match makeAlong tree above with
      | (.error e, tree) => (.error e, tree)
      | (.ok (), tree) => tree.outcome (tree.ensureDirectory path)
    | .error e => (.error e, tree)

/-- Makes the directory at a path and those above it. -/
def makeDirectories (path : String) : Except FileError Unit × FileTree :=
  tree.makeAlong ((Path.ancestors path).takeWhile fun p => (Path.parent p).isSome)

/-- Makes the directories above a path. -/
def makeParents (path : String) : Except FileError Unit × FileTree :=
  match Path.parent path with
  | some above => if above = "" then (.ok (), tree) else tree.makeDirectories above
  | none => (.ok (), tree)

/-! ### The files below the working directory -/

/-- The files below the working directory with their paths from there, in the order of the paths. -/
def files : List (String × List UInt8) :=
  let all := tree.nodes.filterMap fun (loc, node) =>
    match node with
    | .file id => (tree.home.isPrefixOf? loc).map fun names => ("/".intercalate names, tree.bytes id)
    | _ => none
  all.mergeSort fun a b => decide (a.1 ≤ b.1)

/-- Writes a file, after making the directories above it as far as that works. -/
def add (path text : String) : Except FileError Unit × FileTree :=
  (tree.makeParents path).2.write path (Text.utf8 text)

end FileTree

end Predictive
