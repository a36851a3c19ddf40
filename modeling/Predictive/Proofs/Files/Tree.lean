import Predictive.Proofs.Files.Follow

/-!
# What operations on a file tree change

Writing changes one file, and makes one name at most (`FileTree.Wrote`, `FileTree.write_cases`), also where it ends
halfway. Renaming moves one name over another (`FileTree.rename_eq_ok`). Making directories changes nothing else, even
where it stops on the way (`FileTree.grown_makeParents`). None of them removes a directory, and only a renaming removes
anything at all, so what is in a tree can be followed and read as before in any tree that it is a part of
(`FileTree.Within`).
-/

namespace Predictive.FileTree

variable {tree tree' : FileTree}

/-! ### Nodes -/

/-- A directory that is always there is one. -/
private theorem isPrefixOf_home {loc : Location} (h : tree.node? loc ≠ some .directory) :
    loc.isPrefixOf tree.home = false := by
  rw [Bool.eq_false_iff]
  intro hprefix
  exact h (by simp [node?, hprefix])

theorem node?_put_of_ne_directory {loc : Location} (h : tree.node? loc ≠ some .directory) (node : Node)
    (loc' : Location) : (tree.put loc node).node? loc' = if loc' = loc then some node else tree.node? loc' :=
  node?_put _ _ _ _ (isPrefixOf_home h)

/-- What is erased and no directory is gone. -/
theorem node?_erase {loc : Location} (h : tree.node? loc ≠ some .directory) (loc' : Location) :
    (tree.erase loc).node? loc' = if loc' = loc then none else tree.node? loc' := by
  split
  · rename_i heq
    subst heq
    have hlookup : (tree.nodes.filter fun e => e.1 != loc').lookup loc' = none := by
      rw [List.lookup_eq_none_iff]
      intro e he
      have hne : e.1 ≠ loc' := by simpa using (List.mem_filter.mp he).2
      simpa using hne.symm
    simpa [node?, erase, isPrefixOf_home h] using hlookup
  · rename_i hne
    exact node?_erase_of_ne tree hne

/-- All directories and links stay where neither is replaced. -/
theorem Extends.of_node? (hhome : tree'.home = tree.home)
    (h : ∀ loc, tree'.node? loc = tree.node? loc ∨ tree.node? loc = none ∨ ∃ id, tree.node? loc = some (.file id)) :
    tree.Extends tree' := by
  refine ⟨hhome, ?_, ?_⟩
  · intro loc hloc
    rcases h loc with hsame | hnone | ⟨id, hfile⟩
    · exact hsame.trans hloc
    · simp [hloc] at hnone
    · simp [hloc] at hfile
  · intro loc _ _ hloc
    rcases h loc with hsame | hnone | ⟨id, hfile⟩
    · exact hsame.trans hloc
    · simp [hloc] at hnone
    · simp [hloc] at hfile

/-- A tree is a part of another: all of its names are there and stand for the same. -/
structure Within (tree tree' : FileTree) : Prop where
  home : tree'.home = tree.home
  node? : ∀ loc node, tree.node? loc = some node → tree'.node? loc = some node

namespace Within

theorem refl (tree : FileTree) : tree.Within tree := ⟨rfl, fun _ _ h => h⟩

theorem trans {tree'' : FileTree} (h : tree.Within tree') (h' : tree'.Within tree'') : tree.Within tree'' :=
  ⟨h'.home.trans h.home, fun loc node hloc => h'.node? loc node (h.node? loc node hloc)⟩

theorem toExtends (h : tree.Within tree') : tree.Extends tree' where
  home := h.home
  directory loc hloc := h.node? loc _ hloc
  link loc _ _ hloc := h.node? loc _ hloc

/-- A path leads to the same file in a tree that the tree is a part of. -/
theorem fileAt (h : tree.Within tree') {path : String} {id : FileId} (hfile : tree.FileAt path id) :
    tree'.FileAt path id := by
  obtain ⟨here, name, htarget, hfind⟩ := hfile
  obtain ⟨hlength, hnode⟩ := find_eq_ok.mp hfind
  exact h.toExtends.fileAt (fun _ hfollowed => hfollowed) htarget
    (find_eq_ok.mpr ⟨hlength, h.node? _ _ hnode⟩)

end Within

/-- A change that is permitted is made. -/
private theorem permit_eq_ok {change : Change} {changed : FileTree} (h : tree.permit change changed = .ok tree') :
    tree' = changed := by
  unfold permit at h
  split at h
  · simp at h
  · exact (Except.ok.inj h).symm

/-! ### Writing -/

/-- A file was opened at a path, or made where there was nothing, and then it has other bytes. -/
structure Wrote (path : String) (id : FileId) (bytes : List UInt8) (tree tree' : FileTree) : Prop where
  home : tree'.home = tree.home
  node? : ∀ loc, tree'.node? loc = tree.node? loc ∨
    (tree.MakesAt path loc ∧ tree'.node? loc = some (.file id) ∧ ∀ loc', tree.node? loc' ≠ some (.file id))
  file : tree.FileAt path id ∨ ∀ loc, tree.node? loc ≠ some (.file id)
  opened : ∃ here name, tree.target .opened path = .ok (.entry here name false) ∧
    tree'.node? (here ++ [name]) = some (.file id)
  bytes : ∀ id', tree'.bytes id' = if id' = id then bytes else tree.bytes id'

private theorem create_eq_ok {path : String} {id : FileId} (h : tree.create path = .ok (id, tree')) :
    Wrote path id [] tree tree' := by
  obtain ⟨place, htarget, h⟩ := bind_eq_ok.mp h
  cases place with
  | directory loc => simp at h
  | entry here name slash =>
    cases slash with
    | true => simp at h
    | false =>
      obtain ⟨node, hfind, h⟩ := bind_eq_ok.mp h
      obtain ⟨-, hnode⟩ := find_eq_ok.mp hfind
      rcases node with _ | _ | id' | _
      · obtain ⟨made, hmade, h⟩ := bind_eq_ok.mp h
        obtain ⟨rfl, rfl⟩ := Prod.mk.inj (Except.ok.inj h)
        obtain rfl := permit_eq_ok hmade
        have hfree : tree.node? (here ++ [name]) ≠ some .directory := by simp [hnode]
        have hput := node?_put_of_ne_directory hfree (.file tree.newId)
        have hnew : ∀ loc, tree.node? loc ≠ some (.file tree.newId) :=
          fun loc hloc => Nat.lt_irrefl _ (lt_newId tree hloc)
        refine ⟨rfl, ?_, Or.inr hnew, ⟨here, name, htarget, ?_⟩, fun id => bytes_setBytes _ _ id _⟩
        · intro loc
          rw [node?_setBytes, hput]
          split
          · rename_i heq
            exact Or.inr ⟨⟨here, name, htarget, heq, heq ▸ hnode⟩, rfl, hnew⟩
          · exact Or.inl rfl
        · rw [node?_setBytes, hput, if_pos rfl]
      · simp at h
      · obtain ⟨made, hmade, h⟩ := bind_eq_ok.mp h
        obtain ⟨rfl, rfl⟩ := Prod.mk.inj (Except.ok.inj h)
        obtain rfl := permit_eq_ok hmade
        have hfile := (Extends.refl tree).fileAt (by simp [LastLink.followed]) htarget hfind
        exact ⟨rfl, fun _ => Or.inl rfl, Or.inl hfile, ⟨here, name, htarget, hnode⟩,
          fun id => bytes_setBytes _ _ id _⟩
      · simp at h

private theorem Wrote.setBytes {path : String} {id : FileId} {bytes : List UInt8} (h : Wrote path id bytes tree tree')
    (bytes' : List UInt8) : Wrote path id bytes' tree (tree'.setBytes id bytes') := by
  refine ⟨h.home, h.node?, h.file, h.opened, ?_⟩
  intro id'
  rw [bytes_setBytes, h.bytes]
  split <;> rfl

private theorem fill_cases (tree : FileTree) (id : FileId) (bytes : List UInt8) : ∃ result written,
    tree.fill id bytes = (result, tree.setBytes id written) ∧ (result = .ok () → written = bytes) := by
  unfold fill
  rcases tree.room with _ | room
  · exact ⟨_, bytes, rfl, fun _ => rfl⟩
  · simp only
    split
    · exact ⟨_, bytes, rfl, fun _ => rfl⟩
    · exact ⟨_, bytes.take room, rfl, nofun⟩

/-- Writing changes nothing where the file cannot be opened. Otherwise it writes all of the bytes, or fails with some of
them written. -/
theorem write_cases (tree : FileTree) (path : String) (bytes : List UInt8) :
    (∃ e, tree.write path bytes = (.error e, tree)) ∨ ∃ id written result tree',
      tree.write path bytes = (result, tree') ∧ Wrote path id written tree tree' ∧ (result = .ok () → written = bytes) := by
  unfold write
  cases hcreate : tree.create path with
  | error e => exact Or.inl ⟨e, rfl⟩
  | ok opened =>
    obtain ⟨id, made⟩ := opened
    obtain ⟨result, written, hfill, hall⟩ := made.fill_cases id bytes
    exact Or.inr ⟨id, written, result, _, hfill, (create_eq_ok hcreate).setBytes written, hall⟩

namespace Wrote

variable {path : String} {id : FileId} {bytes : List UInt8}

theorem within (h : Wrote path id bytes tree tree') : tree.Within tree' := by
  refine ⟨h.home, ?_⟩
  intro loc node hnode
  rcases h.node? loc with hsame | ⟨⟨_, _, _, _, hnone⟩, -⟩
  · exact hsame.trans hnode
  · simp [hnode] at hnone

/-- Nothing but a file is new, so the other way round no directory or link is missing. -/
theorem extends_symm (h : Wrote path id bytes tree tree') : tree'.Extends tree := by
  refine .of_node? h.home.symm fun loc => ?_
  rcases h.node? loc with hsame | ⟨-, hfile, -⟩
  · exact Or.inl hsame.symm
  · exact Or.inr (Or.inr ⟨id, hfile⟩)

theorem bytes_of_ne (h : Wrote path id bytes tree tree') {id' : FileId} (hne : id' ≠ id) :
    tree'.bytes id' = tree.bytes id' := by
  rw [h.bytes, if_neg hne]

/-- Where no link is at the end of the path, the file that was written is there, and no other name is new. -/
theorem node?_of_leadsTo (h : Wrote path id bytes tree tree') {loc : Location} (hleads : tree.LeadsTo path loc)
    (hlink : ∀ id text, tree.node? loc ≠ some (.link id text)) :
    tree'.node? loc = some (.file id) ∧ ∀ loc', loc' ≠ loc → tree'.node? loc' = tree.node? loc' := by
  obtain ⟨here, name, hopened, hfile⟩ := h.opened
  have hat : here ++ [name] = loc := by
    obtain ⟨loc', hleads', hsame | ⟨id', text, hnode⟩⟩ := leadsTo_of_target hopened
    · exact hsame.trans (hleads'.unique hleads)
    · exact absurd (hleads'.unique hleads ▸ hnode) (hlink id' text)
  refine ⟨hat ▸ hfile, ?_⟩
  intro loc' hne
  rcases h.node? loc' with hsame | ⟨hmade, -⟩
  · exact hsame
  · obtain ⟨heq, -⟩ := (makesAt_iff_of_target hopened).mp hmade
    exact absurd (heq.trans hat) hne

end Wrote

/-! ### Renaming -/

theorem rename_eq_ok {source path : String} (h : tree.rename source path = .ok tree') :
    ∃ here name here' name' node, tree.target .kept source = .ok (.entry here name false) ∧
      tree.target .kept path = .ok (.entry here' name' false) ∧ tree.node? (here ++ [name]) = some node ∧
      node ≠ .directory ∧ tree.node? (here' ++ [name']) ≠ some .directory ∧ ¬ longestName < name'.utf8ByteSize ∧
      ((tree.node? (here' ++ [name']) = some node ∧ tree' = tree) ∨ tree'.home = tree.home ∧
        tree'.contents = tree.contents ∧ ∀ loc, tree'.node? loc = if loc = here' ++ [name'] then some node
          else if loc = here ++ [name] then none else tree.node? loc) := by
  obtain ⟨place, htarget, h⟩ := bind_eq_ok.mp h
  obtain ⟨place', htarget', h⟩ := bind_eq_ok.mp h
  cases place with
  | directory loc => simp at h
  | entry here name slash =>
    cases place' with
    | directory loc => simp at h
    | entry here' name' slash' =>
      obtain ⟨node, hfind, h⟩ := bind_eq_ok.mp h
      obtain ⟨-, hnode⟩ := find_eq_ok.mp hfind
      -- a file and a link are moved alike
      obtain ⟨moved, rfl, hmoved, hgo⟩ : ∃ moved, node = some moved ∧ moved ≠ .directory ∧
          (do
            let old ← tree.find here' name'
            if slash ∨ slash' then .error .notADirectory
            else if old = some .directory then .error .isADirectory
            else if old = some moved then .ok tree
            else tree.permit (.rename source path) ((tree.erase (here ++ [name])).put (here' ++ [name']) moved)) =
            (.ok tree' : Except FileError FileTree) := by
        rcases node with _ | _ | id | ⟨id, text⟩
        · simp at h
        · simp at h
        · exact ⟨_, rfl, by simp, h⟩
        · exact ⟨_, rfl, by simp, h⟩
      obtain ⟨old, hfind', hput⟩ := bind_eq_ok.mp hgo
      obtain ⟨hlength, rfl⟩ := find_eq_ok.mp hfind'
      by_cases hslash : slash = true ∨ slash' = true
      · simp [hslash] at hput
      by_cases hdirectory : tree.node? (here' ++ [name']) = some .directory
      · simp [hslash, hdirectory] at hput
      rw [if_neg hslash, if_neg hdirectory] at hput
      obtain ⟨rfl, rfl⟩ : slash = false ∧ slash' = false := by simpa [not_or] using hslash
      refine ⟨here, name, here', name', moved, htarget, htarget', hnode, hmoved, hdirectory, hlength, ?_⟩
      by_cases hsame : tree.node? (here' ++ [name']) = some moved
      · rw [if_pos hsame] at hput
        exact Or.inl ⟨hsame, (Except.ok.inj hput).symm⟩
      · rw [if_neg hsame] at hput
        obtain rfl := permit_eq_ok hput
        refine Or.inr ⟨rfl, rfl, ?_⟩
        have hmovable : tree.node? (here ++ [name]) ≠ some .directory := by simpa [hnode] using hmoved
        have herase := node?_erase hmovable
        have hfree : (tree.erase (here ++ [name])).node? (here' ++ [name']) ≠ some .directory := by
          rw [herase]
          split
          · simp
          · exact hdirectory
        intro loc
        rw [node?_put_of_ne_directory hfree, herase]

/-! ### Making directories -/

theorem makeDirectory_eq_ok {path : String} (h : tree.makeDirectory path = .ok tree') :
    ∃ loc, tree.LeadsTo path loc ∧ tree.node? loc = none ∧ tree' = tree.put loc .directory := by
  obtain ⟨place, htarget, h⟩ := bind_eq_ok.mp h
  cases place with
  | directory loc => simp at h
  | entry here name slash =>
    obtain ⟨node, hfind, h⟩ := bind_eq_ok.mp h
    obtain ⟨-, hnode⟩ := find_eq_ok.mp hfind
    cases node with
    | some node => simp at h
    | none => exact ⟨here ++ [name], ⟨here, name, slash, htarget, rfl⟩, hnode, permit_eq_ok h⟩

/-- A tree that was changed by nothing but new directories, each at the end of one of the paths. -/
structure Grown (paths : List String) (tree tree' : FileTree) : Prop where
  home : tree'.home = tree.home
  contents : tree'.contents = tree.contents
  node? : ∀ loc, tree'.node? loc = tree.node? loc ∨ (tree.node? loc = none ∧ tree'.node? loc = some .directory ∧
    ∃ path ∈ paths, tree'.LeadsTo path loc)

namespace Grown

variable {paths : List String}

theorem refl (tree : FileTree) : tree.Grown paths tree := ⟨rfl, rfl, fun _ => Or.inl rfl⟩

theorem within (h : tree.Grown paths tree') : tree.Within tree' := by
  refine ⟨h.home, ?_⟩
  intro loc node hnode
  rcases h.node? loc with hsame | ⟨hnone, -⟩
  · exact hsame.trans hnode
  · simp [hnode] at hnone

theorem bytes (h : tree.Grown paths tree') (id : FileId) : tree'.bytes id = tree.bytes id := by
  rw [FileTree.bytes, h.contents]
  rfl

/-- What is new is no file and no link. -/
theorem node?_of_ne_directory (h : tree.Grown paths tree') {loc : Location} {node : Node}
    (hnode : tree'.node? loc = some node) (hne : node ≠ .directory) : tree.node? loc = some node := by
  rcases h.node? loc with hsame | ⟨-, hnew, -⟩
  · exact hsame.symm.trans hnode
  · exact absurd (Option.some.inj (hnode.symm.trans hnew)) hne

theorem trans {tree'' : FileTree} (h : tree.Grown paths tree') (h' : tree'.Grown paths tree'') :
    tree.Grown paths tree'' := by
  refine ⟨h'.home.trans h.home, h'.contents.trans h.contents, ?_⟩
  intro loc
  rcases h.node? loc with hsame | ⟨hnone, hnew, path, hpath, hleads⟩
  · rw [← hsame]
    exact h'.node? loc
  · exact Or.inr ⟨hnone, h'.within.node? loc _ hnew, path, hpath, h'.within.toExtends.leadsTo hleads⟩

theorem mono {paths' : List String} (h : tree.Grown paths tree') (hsub : paths ⊆ paths') : tree.Grown paths' tree' := by
  refine ⟨h.home, h.contents, fun loc => (h.node? loc).imp_right ?_⟩
  rintro ⟨hnone, hnew, path, hpath, hleads⟩
  exact ⟨hnone, hnew, path, hsub hpath, hleads⟩

end Grown

private theorem grown_ensureDirectory {path : String} (h : tree.ensureDirectory path = .ok tree') :
    tree.Grown [path] tree' := by
  unfold ensureDirectory at h
  split at h
  · rename_i made hmade
    obtain rfl := Except.ok.inj h
    obtain ⟨loc, hleads, hnone, rfl⟩ := makeDirectory_eq_ok hmade
    have hfree : tree.node? loc ≠ some .directory := by simp [hnone]
    have hput := node?_put_of_ne_directory hfree .directory
    have hextends : tree.Extends (tree.put loc .directory) := by
      refine .of_node? rfl fun loc' => ?_
      rw [hput]
      split
      · rename_i heq
        exact Or.inr (Or.inl (heq ▸ hnone))
      · exact Or.inl rfl
    refine ⟨rfl, rfl, ?_⟩
    intro loc'
    rw [hput]
    split
    · rename_i heq
      exact Or.inr ⟨heq ▸ hnone, rfl, path, List.mem_cons_self, heq ▸ hextends.leadsTo hleads⟩
    · exact Or.inl rfl
  · split at h
    · obtain rfl := Except.ok.inj h
      exact Grown.refl tree
    · simp at h

private theorem grown_outcome {paths : List String} {made : Except FileError FileTree}
    (h : ∀ tree', made = .ok tree' → tree.Grown paths tree') : tree.Grown paths (tree.outcome made).2 := by
  cases made with
  | error e => exact Grown.refl tree
  | ok tree' => exact h tree' rfl

private theorem grown_makeAlong (paths : List String) (tree : FileTree) :
    tree.Grown paths (tree.makeAlong paths).2 := by
  induction paths generalizing tree with
  | nil => exact Grown.refl tree
  | cons path above ih =>
    have hfirst : [path] ⊆ path :: above := by simp
    unfold makeAlong
    split
    · rename_i made hmade
      exact (grown_ensureDirectory hmade).mono hfirst
    · -- the directories above are made first
      have habove := (ih tree).mono (List.subset_cons_self path above)
      rcases hmade : tree.makeAlong above with ⟨_ | _, made⟩
      · simpa [hmade] using habove
      · rw [hmade] at habove
        exact habove.trans (grown_outcome fun _ hok => (grown_ensureDirectory hok).mono hfirst)
    · exact Grown.refl tree

/-- Making the directories above a path changes nothing but that, however far it gets. -/
theorem grown_makeParents (tree : FileTree) (path : String) :
    tree.Grown (Path.ancestors path).tail (tree.makeParents path).2 := by
  unfold makeParents
  split
  · rename_i above hparent
    have htail : (Path.ancestors path).tail = Path.ancestors above := by
      rw [Path.ancestors]
      split
      · rename_i above' hparent'
        rw [List.tail_cons, Option.some.inj (hparent.symm.trans hparent')]
      · rename_i hnone
        simp [hparent] at hnone
    split
    · exact Grown.refl tree
    · rw [htail]
      exact (grown_makeAlong _ tree).mono (List.takeWhile_prefix _).subset
  · exact Grown.refl tree

end Predictive.FileTree
