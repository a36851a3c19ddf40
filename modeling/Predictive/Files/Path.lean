/-!
# Paths

A path is a text of names separated by slashes. Its last component is found after the slashes and the `.` at its end
are dropped; it is the file name, unless it is `.` or `..`. The path above another is shorter (`length_parent_lt`), so
there are finitely many above it.
-/

namespace Predictive.Path

/-- Cuts a text at its slashes. -/
def splitSlash : List Char → List (List Char)
  | [] => [[]]
  | c :: rest =>
    if c = '/' then [] :: splitSlash rest
    else
      match splitSlash rest with
      | first :: more => (c :: first) :: more
      | [] => [[c]]

/-- The names in a path, `.` and `..` among them. -/
def names (path : String) : List String := ((splitSlash path.toList).map String.ofList).filter (· ≠ "")

/-- Whether a path starts at the root. -/
def isAbsolute (path : String) : Bool := path.toList.head? = some '/'

/-- Whether a path ends in a slash, so that it can only name a directory. -/
def endsInSlash (path : String) : Bool := path.toList.getLast? = some '/'

/-- Drops slashes and `.` components from the end; the text is given in reverse. -/
def dropTail : List Char → List Char
  | '/' :: rest => dropTail rest
  | '.' :: '/' :: rest => dropTail rest
  | cs => cs

/-- The last component and the text before it, both in reverse. -/
def splitLast (path : String) : List Char × List Char :=
  let cs := dropTail path.toList.reverse
  (cs.takeWhile (· ≠ '/'), cs.dropWhile (· ≠ '/'))

/-- The last component, if it names a file. -/
def fileName (path : String) : Option String :=
  let name := String.ofList (splitLast path).1.reverse
  if name = "" ∨ name = "." ∨ name = ".." then none else some name

/-- The path without its last component; `none` if there is none. -/
def parent (path : String) : Option String :=
  let (last, before) := splitLast path
  if last = [] then none
  else
    let trimmed := dropTail before
    some (if trimmed = [] ∧ before ≠ [] then "/" else String.ofList trimmed.reverse)

theorem length_dropTail_le (cs : List Char) : (dropTail cs).length ≤ cs.length := by
  fun_induction dropTail cs with
  | case1 rest ih => simp only [List.length_cons]; omega
  | case2 rest ih => simp only [List.length_cons]; omega
  | case3 => exact Nat.le_refl _

theorem length_parent_lt {path above : String} (h : parent path = some above) : above.length < path.length := by
  have hcs := length_dropTail_le path.toList.reverse
  generalize hd : dropTail path.toList.reverse = cs at hcs
  simp only [parent, splitLast, hd] at h
  have hsplit := congrArg List.length (List.takeWhile_append_dropWhile (p := fun c : Char => decide (c ≠ '/')) (l := cs))
  have htrim := length_dropTail_le (cs.dropWhile fun c => decide (c ≠ '/'))
  rw [List.length_append] at hsplit
  rw [List.length_reverse, String.length_toList] at hcs
  split at h
  · cases h
  · rename_i hlast
    have hpos := List.length_pos_iff.mpr hlast
    rw [Option.some.injEq] at h
    subst h
    split
    · rename_i hroot
      have hbefore := List.length_pos_iff.mpr hroot.2
      have : "/".length = 1 := rfl
      omega
    · rw [String.length_ofList, List.length_reverse]
      omega

/-- A path and those above it, from the longest to the shortest. -/
def ancestors (path : String) : List String :=
  match _h : parent path with
  | some above => path :: ancestors above
  | none => [path]
termination_by path.length
decreasing_by exact length_parent_lt (by assumption)

/-- The part of a file name before its last dot, unless that is nothing; all in reverse. -/
def stem (last : List Char) : List Char :=
  match last.dropWhile (· ≠ '.') with
  | '.' :: c :: rest => c :: rest
  | _ => last

/-- The path with another extension. A path that names no file stays. A name with the stem `.` loses its old extension
only, if nothing follows it: what is left, `..`, names no file either. -/
def withExtension (path extension : String) : String :=
  let (last, before) := splitLast path
  match fileName path with
  | none => path
  | some _ =>
    let head := String.ofList (stem last ++ before).reverse ++ "."
    if stem last = ['.'] ∧ path.toList.reverse = last ++ before then head else head ++ extension

end Predictive.Path
