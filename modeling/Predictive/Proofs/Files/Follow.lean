import Predictive.Files.Tree
import Predictive.Proofs.Outcome

/-!
# Following a path

What following a path comes to is a relation between names and the place they lead to, with a rule for each kind of name
(`FileTree.Follows`, `FileTree.resolve_eq_ok`). It only looks at directories and links, so a path that can be followed in
a tree leads to the same place in every tree that has all of these (`FileTree.Follows.extend`).

A name that is replaced or made is the last name of its path, whatever links are on the way (`FileTree.name_of_target`).
Another name in its stead leads to the same directory (`FileTree.Follows.sibling`). What is opened is at that name too,
unless a link is there (`FileTree.Follows.kept`).
-/

namespace Predictive.FileTree

variable {tree tree' : FileTree}

theorem find_eq_ok {here : Location} {name : String} {node : Option Node} :
    tree.find here name = .ok node ↔ ¬ longestName < name.utf8ByteSize ∧ tree.node? (here ++ [name]) = node := by
  unfold find
  split
  · rename_i hlong
    simp [hlong]
  · rename_i hshort
    simp [hshort]

/-! ### Following names -/

/-- Names lead from a directory to a place, over a number of links at most. -/
inductive Follows (tree : FileTree) (follows : LastLink) :
    (links : Nat) → (slash : Bool) → Location → List String → Target → Prop
  | done (links : Nat) (slash : Bool) (here : Location) : Follows tree follows links slash here [] (.directory here)
  | stay {links : Nat} {slash : Bool} {here : Location} {rest : List String} {place : Target}
    (h : Follows tree follows links slash here rest place) : Follows tree follows links slash here ("." :: rest) place
  | up {links : Nat} {slash : Bool} {here : Location} {rest : List String} {place : Target}
    (h : Follows tree follows links slash here.dropLast rest place) :
    Follows tree follows links slash here (".." :: rest) place
  /-- The last name is where the path leads, if no link is there that is followed. -/
  | last {links : Nat} {slash : Bool} {here : Location} {name : String} (hdot : name ≠ ".") (hdots : name ≠ "..")
    (hnode : follows slash = true → ¬ longestName < name.utf8ByteSize ∧
      ∀ id path, tree.node? (here ++ [name]) ≠ some (.link id path)) :
    Follows tree follows links slash here [name] (.entry here name slash)
  | enter {links : Nat} {slash : Bool} {here : Location} {name : String} {rest : List String} {place : Target}
    (hdot : name ≠ ".") (hdots : name ≠ "..") (hrest : rest ≠ []) (hlength : ¬ longestName < name.utf8ByteSize)
    (hnode : tree.node? (here ++ [name]) = some .directory)
    (h : Follows tree follows links slash (here ++ [name]) rest place) :
    Follows tree follows links slash here (name :: rest) place
  | jump {links : Nat} {slash : Bool} {here : Location} {name : String} {rest : List String} {place : Target}
    {id : FileId} {path : String} (hdot : name ≠ ".") (hdots : name ≠ "..") (hrest : rest ≠ [] ∨ follows slash = true)
    (hlength : ¬ longestName < name.utf8ByteSize) (hnode : tree.node? (here ++ [name]) = some (.link id path))
    (hpath : path ≠ "")
    (h : Follows tree follows links (slash || (rest.isEmpty && Path.endsInSlash path)) (start here path)
      (Path.names path ++ rest) place) :
    Follows tree follows (links + 1) slash here (name :: rest) place

section Walk

variable {follows : LastLink} {slash : Bool} {jump : Location → String → List String → Except FileError Target}

private theorem walk_last {here : Location} {name : String} (hdot : name ≠ ".") (hdots : name ≠ "..")
    (hnode : follows slash = true → ¬ longestName < name.utf8ByteSize ∧
      ∀ id path, tree.node? (here ++ [name]) ≠ some (.link id path)) :
    tree.walk follows jump slash here [name] = .ok (.entry here name slash) := by
  rw [walk, if_neg hdot, if_neg hdots]
  by_cases hfollows : follows slash = true
  · obtain ⟨hlength, hlink⟩ := hnode hfollows
    rw [if_neg (by simp [hfollows]), find_eq_ok.mpr ⟨hlength, rfl⟩]
    rcases hn : tree.node? (here ++ [name]) with _ | _ | _ | ⟨id, path⟩
    · rfl
    · rfl
    · rfl
    · exact absurd hn (hlink id path)
  · rw [if_pos ⟨rfl, by simpa using hfollows⟩]

private theorem walk_enter {here : Location} {name : String} {rest : List String} (hdot : name ≠ ".")
    (hdots : name ≠ "..") (hrest : rest ≠ []) (hlength : ¬ longestName < name.utf8ByteSize)
    (hnode : tree.node? (here ++ [name]) = some .directory) :
    tree.walk follows jump slash here (name :: rest) = tree.walk follows jump slash (here ++ [name]) rest := by
  rw [walk, if_neg hdot, if_neg hdots, if_neg (by simp [hrest]), find_eq_ok.mpr ⟨hlength, hnode⟩]
  simp only
  rw [if_neg hrest]

private theorem walk_jump {here : Location} {name path : String} {rest : List String} {id : FileId}
    (hdot : name ≠ ".") (hdots : name ≠ "..") (hrest : rest ≠ [] ∨ follows slash = true)
    (hlength : ¬ longestName < name.utf8ByteSize) (hnode : tree.node? (here ++ [name]) = some (.link id path)) :
    tree.walk follows jump slash here (name :: rest) = jump here path rest := by
  have hgoes : ¬ (rest = [] ∧ follows slash = false) := by
    rintro ⟨hnil, hkept⟩
    rcases hrest with hne | hfollows
    · exact hne hnil
    · simp [hkept] at hfollows
  rw [walk, if_neg hdot, if_neg hdots, if_neg hgoes, find_eq_ok.mpr ⟨hlength, hnode⟩]

/-- A walk follows names if what it does at a link does. -/
private theorem follows_of_walk {links : Nat}
    (hjump : ∀ {here : Location} {name path : String} {rest : List String} {id : FileId} {place : Target},
      name ≠ "." → name ≠ ".." → (rest ≠ [] ∨ follows slash = true) → ¬ longestName < name.utf8ByteSize →
      tree.node? (here ++ [name]) = some (.link id path) → jump here path rest = .ok place →
      Follows tree follows links slash here (name :: rest) place)
    {here : Location} {names : List String} {place : Target}
    (h : tree.walk follows jump slash here names = .ok place) : Follows tree follows links slash here names place := by
  induction names generalizing here with
  | nil =>
    obtain rfl := Except.ok.inj h
    exact .done links slash here
  | cons name rest ih =>
    by_cases hdot : name = "."
    · subst hdot
      exact .stay (ih (by simpa [walk] using h))
    by_cases hdots : name = ".."
    · subst hdots
      exact .up (ih (by simpa [walk] using h))
    rw [walk, if_neg hdot, if_neg hdots] at h
    by_cases hlast : rest = [] ∧ follows slash = false
    · rw [if_pos hlast] at h
      obtain ⟨rfl, hkept⟩ := hlast
      obtain rfl := Except.ok.inj h
      exact .last hdot hdots (by simp [hkept])
    rw [if_neg hlast] at h
    cases hfind : tree.find here name with
    | error e => simp [hfind] at h
    | ok node =>
      obtain ⟨hlength, hnode⟩ := find_eq_ok.mp hfind
      rw [hfind] at h
      have hends : rest = [] → (∀ id path, node ≠ some (.link id path)) →
          Follows tree follows links slash here (name :: rest) (.entry here name slash) := by
        rintro rfl hno
        exact .last hdot hdots fun _ => ⟨hlength, hnode ▸ hno⟩
      rcases node with _ | _ | _ | ⟨id, path⟩
      · by_cases hrest : rest = []
        · obtain rfl : .entry here name slash = place := by simpa [hrest] using h
          exact hends hrest (by simp)
        · simp [hrest] at h
      · by_cases hrest : rest = []
        · obtain rfl : .entry here name slash = place := by simpa [hrest] using h
          exact hends hrest (by simp)
        · exact .enter hdot hdots hrest hlength hnode (ih (by simpa [hrest] using h))
      · by_cases hrest : rest = []
        · obtain rfl : .entry here name slash = place := by simpa [hrest] using h
          exact hends hrest (by simp)
        · simp [hrest] at h
      · have hgoes : rest ≠ [] ∨ follows slash = true := by
          by_cases hrest : rest = []
          · exact Or.inr (by simpa [hrest] using hlast)
          · exact Or.inl hrest
        exact hjump hdot hdots hgoes hlength hnode h

end Walk

theorem resolve_eq_ok {follows : LastLink} {links : Nat} {slash : Bool} {here : Location} {names : List String}
    {place : Target} : tree.resolve follows links slash here names = .ok place ↔
      Follows tree follows links slash here names place := by
  constructor
  · intro h
    induction links generalizing slash here names place with
    | zero =>
      rw [resolve] at h
      refine follows_of_walk ?_ h
      simp
    | succ links ih =>
      rw [resolve] at h
      refine follows_of_walk ?_ h
      intro here name path rest id place hdot hdots hrest hlength hnode hgo
      by_cases hpath : path = ""
      · simp [hpath] at hgo
      · rw [if_neg hpath] at hgo
        exact .jump hdot hdots hrest hlength hnode hpath (ih hgo)
  · intro h
    induction h with
    | done links slash here => cases links <;> rfl
    | @stay links slash here rest place _ ih => cases links <;> simpa only [resolve, walk, if_true] using ih
    | @up links slash here rest place _ ih =>
      have hdots : ".." ≠ "." := by decide
      cases links <;> simpa only [resolve, walk, if_neg hdots, if_true] using ih
    | @last links slash here name hdot hdots hnode => cases links <;> exact walk_last hdot hdots hnode
    | @enter links slash here name rest place hdot hdots hrest hlength hnode _ ih =>
      cases links <;> rw [resolve, walk_enter hdot hdots hrest hlength hnode] <;> exact ih
    | jump hdot hdots hrest hlength hnode hpath _ ih =>
      rw [resolve, walk_jump hdot hdots hrest hlength hnode, if_neg hpath]
      exact ih

/-! ### Larger trees -/

/-- All directories and links of a tree are in another, and paths start at the same place. -/
structure Extends (tree tree' : FileTree) : Prop where
  home : tree'.home = tree.home
  directory : ∀ loc, tree.node? loc = some .directory → tree'.node? loc = some .directory
  link : ∀ loc id path, tree.node? loc = some (.link id path) → tree'.node? loc = some (.link id path)

theorem Extends.refl (tree : FileTree) : tree.Extends tree := ⟨rfl, fun _ h => h, fun _ _ _ h => h⟩

namespace Follows

variable {follows follows' : LastLink} {links : Nat} {slash slash' : Bool} {here here' : Location}
  {names : List String} {name : String} {place : Target}

/-- Names lead to the same place in a larger tree, and with more links followed, if no link is there that is followed
then. -/
theorem transfer (h : tree.Follows follows links slash here names place) (hextends : tree.Extends tree')
    (hmode : ∀ slash, follows slash = true → follows' slash = true)
    (hend : ∀ here name slash, place = .entry here name slash → follows' slash = true →
      ¬ longestName < name.utf8ByteSize ∧ ∀ id path, tree'.node? (here ++ [name]) ≠ some (.link id path)) :
    tree'.Follows follows' links slash here names place := by
  induction h with
  | done links slash here => exact .done links slash here
  | stay _ ih => exact .stay (ih hend)
  | up _ ih => exact .up (ih hend)
  | last hdot hdots _ => exact .last hdot hdots (hend _ _ _ rfl)
  | enter hdot hdots hrest hlength hnode _ ih =>
    exact .enter hdot hdots hrest hlength (hextends.directory _ hnode) (ih hend)
  | jump hdot hdots hrest hlength hnode hpath _ ih =>
    exact .jump hdot hdots (hrest.imp_right (hmode _)) hlength (hextends.link _ _ _ hnode) hpath (ih hend)

/-! ### The last name -/

/-- A name that is replaced or made is the last one. -/
theorem getLast? (h : tree.Follows .kept links slash here names (.entry here' name slash')) :
    names.getLast? = some name ∧ name ≠ "." ∧ name ≠ ".." := by
  generalize hplace : Target.entry here' name slash' = place at h
  induction h with
  | done => simp at hplace
  | stay _ ih =>
    obtain ⟨hlast, hname⟩ := ih hplace
    exact ⟨by simp [List.getLast?_cons, hlast], hname⟩
  | up _ ih =>
    obtain ⟨hlast, hname⟩ := ih hplace
    exact ⟨by simp [List.getLast?_cons, hlast], hname⟩
  | last hdot hdots _ =>
    obtain ⟨-, rfl, -⟩ := Target.entry.inj hplace
    exact ⟨rfl, hdot, hdots⟩
  | enter _ _ _ _ _ _ ih =>
    obtain ⟨hlast, hname⟩ := ih hplace
    exact ⟨by simp [List.getLast?_cons, hlast], hname⟩
  | @jump _ _ _ _ rest _ _ _ _ _ hrest _ _ _ _ ih =>
    obtain ⟨hlast, hname⟩ := ih hplace
    -- names are left after the link, so the last of them is the last of all
    obtain ⟨end', hend⟩ : ∃ end', rest.getLast? = some end' := by
      rcases hrest with hne | hkept
      · exact ⟨_, List.getLast?_eq_some_getLast hne⟩
      · simp [LastLink.kept] at hkept
    rw [List.getLast?_append, hend, Option.some_or] at hlast
    exact ⟨by simp [List.getLast?_cons, hend, Option.some.inj hlast], hname⟩

/-- Another last name leads to the same directory. -/
theorem sibling {above : List String} (h : tree.Follows .kept links slash here (above ++ [name]) (.entry here' name slash'))
    {other : String} (hdot : other ≠ ".") (hdots : other ≠ "..") (slash₁ : Bool) :
    tree.Follows .kept links slash₁ here (above ++ [other]) (.entry here' other slash₁) := by
  generalize hplace : Target.entry here' name slash' = place at h
  generalize hnames : above ++ [name] = names at h
  induction h generalizing above with
  | done => simp at hnames
  | stay h ih =>
    rcases above with _ | ⟨first, above⟩
    · obtain ⟨rfl, rfl⟩ : name = "." ∧ [] = _ := by simpa using hnames
      cases h
      simp at hplace
    · obtain ⟨rfl, hrest⟩ : first = "." ∧ above ++ [name] = _ := by simpa using hnames
      exact .stay (ih hplace hrest)
  | up h ih =>
    rcases above with _ | ⟨first, above⟩
    · obtain ⟨rfl, rfl⟩ : name = ".." ∧ [] = _ := by simpa using hnames
      cases h
      simp at hplace
    · obtain ⟨rfl, hrest⟩ : first = ".." ∧ above ++ [name] = _ := by simpa using hnames
      exact .up (ih hplace hrest)
  | last _ _ _ =>
    rcases above with _ | ⟨first, above⟩
    · obtain ⟨rfl, -, -⟩ := Target.entry.inj hplace
      exact .last hdot hdots (by simp [LastLink.kept])
    · simp at hnames
  | enter hdot' hdots' hrest hlength hnode _ ih =>
    rcases above with _ | ⟨first, above⟩
    · simp [eq_comm, hrest] at hnames
    · obtain ⟨rfl, hrest'⟩ : first = _ ∧ above ++ [name] = _ := by simpa using hnames
      exact .enter hdot' hdots' (by simp) hlength hnode (ih hplace hrest')
  | @jump links slash here first' rest place id path hdot' hdots' hrest hlength hnode hpath _ ih =>
    have hrest : rest ≠ [] := hrest.resolve_right (by simp [LastLink.kept])
    rcases above with _ | ⟨first, above⟩
    · simp [eq_comm, hrest] at hnames
    · obtain ⟨rfl, rfl⟩ : first = first' ∧ above ++ [name] = rest := by simpa using hnames
      rw [List.cons_append]
      refine .jump hdot' hdots' (Or.inl (by simp)) hlength hnode hpath ?_
      have hrest' : tree.Follows .kept links slash₁ (start here path) (Path.names path ++ above ++ [other])
          (.entry here' other slash₁) := ih hplace (List.append_assoc _ _ _)
      have hmore : (above ++ [other]).isEmpty = false := by simp
      rwa [hmore, Bool.false_and, Bool.or_false, ← List.append_assoc]

/-- Where a path is opened is at its last name, unless a link is there. -/
theorem kept (h : tree.Follows follows links slash here names (.entry here' name slash')) :
    ∃ directory last, tree.Follows .kept links slash here names (.entry directory last slash) ∧
      ((here' = directory ∧ name = last ∧ slash' = slash) ∨
        ∃ id path, tree.node? (directory ++ [last]) = some (.link id path)) := by
  generalize hplace : Target.entry here' name slash' = place at h
  induction h with
  | done => simp at hplace
  | stay _ ih =>
    obtain ⟨directory, last, hkept, hat⟩ := ih hplace
    exact ⟨directory, last, .stay hkept, hat⟩
  | up _ ih =>
    obtain ⟨directory, last, hkept, hat⟩ := ih hplace
    exact ⟨directory, last, .up hkept, hat⟩
  | @last links slash here name' hdot hdots hnode =>
    obtain ⟨rfl, rfl, rfl⟩ := Target.entry.inj hplace
    exact ⟨here', name, .last hdot hdots (by simp [LastLink.kept]), Or.inl ⟨rfl, rfl, rfl⟩⟩
  | enter hdot hdots hrest hlength hnode _ ih =>
    obtain ⟨directory, last, hkept, hat⟩ := ih hplace
    exact ⟨directory, last, .enter hdot hdots hrest hlength hnode hkept, hat⟩
  | @jump links slash here name' rest place id path hdot hdots hrest hlength hnode hpath _ ih =>
    rcases rest with _ | ⟨next, rest⟩
    · exact ⟨here, name', .last hdot hdots (by simp [LastLink.kept]), Or.inr ⟨id, path, hnode⟩⟩
    · obtain ⟨directory, last, hkept, hat⟩ := ih hplace
      refine ⟨directory, last, .jump hdot hdots (Or.inl (by simp)) hlength hnode hpath ?_, ?_⟩
      · simpa using hkept
      · simpa using hat

end Follows

/-! ### Paths -/

section Paths

variable {follows follows' : LastLink} {path name : String} {here : Location} {slash : Bool} {place : Target}

theorem target_eq_ok : tree.target follows path = .ok place ↔
    ('\x00' ∉ path.toList ∧ ¬ longestPath < path.utf8ByteSize ∧ path ≠ "") ∧
      tree.Follows follows mostLinks (Path.endsInSlash path) (start tree.home path) (Path.names path) place := by
  rw [← resolve_eq_ok, target]
  simp only [List.contains_iff_mem]
  by_cases hnul : '\x00' ∈ path.toList
  · simp [hnul]
  by_cases hlong : longestPath < path.utf8ByteSize
  · simp [hnul, hlong]
  by_cases hempty : path = ""
  · simp [hempty]
  rw [if_neg hnul, if_neg hlong, if_neg hempty]
  simp [hnul, hlong, hempty]

/-- The name that is replaced or made at a path is its last one. -/
theorem name_of_target (h : tree.target .kept path = .ok (.entry here name slash)) :
    (Path.names path).getLast? = some name ∧ name ≠ "." ∧ name ≠ ".." :=
  (target_eq_ok.mp h).2.getLast?

theorem Extends.target (h : tree.Extends tree') (hmode : ∀ slash, follows slash = true → follows' slash = true)
    (hend : ∀ here name slash, place = .entry here name slash → follows' slash = true →
      ¬ longestName < name.utf8ByteSize ∧ ∀ id path, tree'.node? (here ++ [name]) ≠ some (.link id path))
    (htarget : tree.target follows path = .ok place) : tree'.target follows' path = .ok place := by
  obtain ⟨htext, hfollows⟩ := target_eq_ok.mp htarget
  refine target_eq_ok.mpr ⟨htext, ?_⟩
  rw [h.home]
  exact hfollows.transfer h hmode hend

/-- A path leads to a name at a location, whether there is something or not. A link there is not followed. -/
def LeadsTo (tree : FileTree) (path : String) (loc : Location) : Prop :=
  ∃ here name slash, tree.target .kept path = .ok (.entry here name slash) ∧ loc = here ++ [name]

/-- A path leads to a file, perhaps over a link at its end. -/
def FileAt (tree : FileTree) (path : String) (id : FileId) : Prop :=
  ∃ here name, tree.target .followed path = .ok (.entry here name false) ∧ tree.find here name = .ok (some (.file id))

/-- A path leads to a location where a file can be made, perhaps over a link at its end. -/
def MakesAt (tree : FileTree) (path : String) (loc : Location) : Prop :=
  ∃ here name, tree.target .opened path = .ok (.entry here name false) ∧ loc = here ++ [name] ∧ tree.node? loc = none

theorem leadsTo_iff_of_target {loc : Location} (h : tree.target .kept path = .ok (.entry here name slash)) :
    tree.LeadsTo path loc ↔ loc = here ++ [name] := by
  constructor
  · rintro ⟨here', name', slash', htarget, rfl⟩
    obtain ⟨rfl, rfl, -⟩ := Target.entry.inj (Except.ok.inj (h.symm.trans htarget))
    rfl
  · rintro rfl
    exact ⟨here, name, slash, h, rfl⟩

theorem makesAt_iff_of_target {loc : Location} (h : tree.target .opened path = .ok (.entry here name false)) :
    tree.MakesAt path loc ↔ loc = here ++ [name] ∧ tree.node? loc = none := by
  constructor
  · rintro ⟨here', name', htarget, hnode⟩
    obtain ⟨rfl, rfl, -⟩ := Target.entry.inj (Except.ok.inj (h.symm.trans htarget))
    exact hnode
  · exact fun hnode => ⟨here, name, h, hnode⟩

theorem LeadsTo.unique {loc loc' : Location} (h : tree.LeadsTo path loc) (h' : tree.LeadsTo path loc') : loc = loc' := by
  obtain ⟨here, name, slash, htarget, rfl⟩ := h
  exact ((leadsTo_iff_of_target htarget).mp h').symm

theorem Extends.target_kept (h : tree.Extends tree') (htarget : tree.target .kept path = .ok place) :
    tree'.target .kept path = .ok place :=
  h.target (fun _ hkept => hkept) (by simp [LastLink.kept]) htarget

theorem Extends.leadsTo (h : tree.Extends tree') {loc : Location} (hleads : tree.LeadsTo path loc) :
    tree'.LeadsTo path loc := by
  obtain ⟨here, name, slash, htarget, rfl⟩ := hleads
  exact ⟨here, name, slash, h.target_kept htarget, rfl⟩

/-- A file that a path leads to in one way is found in the other tree where all directories and links are kept. -/
theorem Extends.fileAt (h : tree.Extends tree') (hmode : ∀ slash, follows slash = true → LastLink.followed slash = true)
    {id : FileId} (htarget : tree.target follows path = .ok (.entry here name false))
    (hfind : tree'.find here name = .ok (some (.file id))) : tree'.FileAt path id := by
  obtain ⟨hlength, hnode⟩ := find_eq_ok.mp hfind
  refine ⟨here, name, h.target hmode ?_ htarget, hfind⟩
  intro here' name' slash' hplace _
  obtain ⟨rfl, rfl, -⟩ := Target.entry.inj hplace
  exact ⟨hlength, by simp [hnode]⟩

theorem read_eq_ok {bytes : List UInt8} : tree.read path = .ok bytes ↔ ∃ id, tree.FileAt path id ∧ tree.bytes id = bytes := by
  unfold read FileAt
  rw [bind_eq_ok]
  constructor
  · rintro ⟨place, htarget, h⟩
    cases place with
    | directory loc => simp at h
    | entry here name slash =>
      obtain ⟨node, hfind, h⟩ := bind_eq_ok.mp h
      rcases node with _ | _ | id | _
      · simp at h
      · simp at h
      · cases slash with
        | true => simp at h
        | false => exact ⟨id, ⟨here, name, htarget, hfind⟩, by simpa using h⟩
      · simp at h
  · rintro ⟨id, ⟨here, name, htarget, hfind⟩, rfl⟩
    exact ⟨_, htarget, by simp [hfind, bind, Except.bind]⟩

/-- What a path leads to is at its last name, unless a link is there. -/
theorem leadsTo_of_target (h : tree.target follows path = .ok (.entry here name slash)) :
    ∃ loc, tree.LeadsTo path loc ∧ (here ++ [name] = loc ∨ ∃ id path, tree.node? loc = some (.link id path)) := by
  obtain ⟨htext, hfollows⟩ := target_eq_ok.mp h
  obtain ⟨directory, last, hkept, hat⟩ := hfollows.kept
  refine ⟨directory ++ [last], ⟨directory, last, _, target_eq_ok.mpr ⟨htext, hkept⟩, rfl⟩, hat.imp_left ?_⟩
  rintro ⟨rfl, rfl, -⟩
  rfl

theorem LeadsTo.getLast? {loc : Location} (h : tree.LeadsTo path loc) : loc.getLast? = (Path.names path).getLast? := by
  obtain ⟨here, name, slash, htarget, rfl⟩ := h
  rw [(name_of_target htarget).1, List.getLast?_concat]

end Paths

end Predictive.FileTree
