import Predictive.Proofs.Files.Path
import Predictive.Proofs.Files.Tree
import Predictive.Proofs.Layout.Reading
import Predictive.Proofs.Search.Sequential

/-!
# Saving layouts

A layout is saved in three steps, and each of them can fail. Before the last one, the renaming, directories are new and
the temporary file was written, perhaps not to its end (`Layout.save_eq_error`). If the temporary path is neither a link
nor another name of what is at the target (`Layout.Apart`), then after a save that succeeds the target is the file that
was written, and there is no temporary file (`Layout.Apart.saved`).

Where nothing is a link that is called as one of the two files (`Layout.Unlinked`), this goes for every save. One that
fails leaves the file at the target as it was (`Layout.save_cases`). A row of saves that ends at the first failure
therefore changes nothing there, or leaves one of the layouts that were saved (`Layout.feed_saveTo`).
-/

namespace Predictive

variable {tree tree' : FileTree} {path : String}

namespace FileTree

/-- The contents of the file at a location. -/
def contents? (tree : FileTree) (loc : Location) : Option (List UInt8) :=
  match tree.node? loc with
  | some (.file id) => some (tree.bytes id)
  | _ => none

/-- The file at a path is what it was: the path leads where it led, and to the same contents. -/
structure SameFile (path : String) (tree tree' : FileTree) : Prop where
  leadsTo : ∀ loc, tree.LeadsTo path loc → tree'.LeadsTo path loc
  contents? : ∀ loc, tree'.LeadsTo path loc → tree'.contents? loc = tree.contents? loc
  read : ∀ bytes, tree.read path = .ok bytes → tree'.read path = .ok bytes

theorem SameFile.refl (path : String) (tree : FileTree) : SameFile path tree tree :=
  ⟨fun _ h => h, fun _ _ => rfl, fun _ h => h⟩

theorem Grown.read {paths : List String} (h : tree.Grown paths tree') {path : String} {bytes : List UInt8}
    (hread : tree.read path = .ok bytes) : tree'.read path = .ok bytes := by
  obtain ⟨id, hfile, rfl⟩ := read_eq_ok.mp hread
  exact read_eq_ok.mpr ⟨id, h.within.fileAt hfile, h.bytes id⟩

/-- New directories are no files. -/
theorem Grown.contents? {paths : List String} (h : tree.Grown paths tree') (loc : Location) :
    tree'.contents? loc = tree.contents? loc := by
  unfold FileTree.contents?
  rcases h.node? loc with hsame | ⟨hnone, hnew, -⟩
  · rw [hsame]
    split
    · rw [h.bytes]
    · rfl
  · rw [hnone, hnew]

/-- After new directories the file at a path is still the same if it is from there on. -/
theorem Grown.trans_sameFile {paths : List String} {tree'' : FileTree} (h : tree.Grown paths tree')
    (h' : SameFile path tree' tree'') : SameFile path tree tree'' where
  leadsTo loc hleads := h'.leadsTo loc (h.within.toExtends.leadsTo hleads)
  contents? loc hleads := (h'.contents? loc hleads).trans (h.contents? loc)
  read bytes hread := h'.read bytes (h.read hread)

end FileTree

namespace Layout

open FileTree

variable {l : Layout}

/-! ### The temporary path -/

/-- The temporary path leads to another name in the directory of the target. -/
theorem leadsTo_temporaryPath {loc loc' : Location} (h : tree.LeadsTo path loc)
    (h' : tree'.LeadsTo (temporaryPath path) loc') : ∃ here name temporary, loc = here ++ [name] ∧
      tree.LeadsTo (temporaryPath path) (here ++ [temporary]) ∧ temporary ≠ name := by
  obtain ⟨here, name, slash, htarget, rfl⟩ := h
  obtain ⟨there, other, slash', htarget', -⟩ := h'
  obtain ⟨hlast, hdot, hdots⟩ := name_of_target htarget
  obtain ⟨hlast', hdot', hdots'⟩ := name_of_target htarget'
  obtain ⟨habsolute, above, temporary, hnames, hnames', hne⟩ := names_temporaryPath hlast hdot hdots
  obtain ⟨-, hfollows⟩ := target_eq_ok.mp htarget
  obtain ⟨htext, -⟩ := target_eq_ok.mp htarget'
  obtain rfl : other = temporary := by simpa [hnames', eq_comm] using hlast'
  have hstart : start tree.home (temporaryPath path) = start tree.home path := by rw [start, start, habsolute]
  rw [hnames] at hfollows
  have hsibling := hfollows.sibling hdot' hdots' (Path.endsInSlash (temporaryPath path))
  rw [← hnames', ← hstart] at hsibling
  exact ⟨here, name, other, rfl, ⟨here, other, _, target_eq_ok.mpr ⟨htext, hsibling⟩, rfl⟩, hne⟩

/-- So it does not end in the name of the target, nor lead there. -/
theorem temporaryName_ne {loc loc' : Location} (h : tree.LeadsTo path loc) (h' : tree.LeadsTo (temporaryPath path) loc') :
    loc'.getLast? ≠ loc.getLast? := by
  obtain ⟨here, name, temporary, rfl, hleads, hne⟩ := leadsTo_temporaryPath h h'
  obtain rfl := h'.unique hleads
  simpa using hne

theorem temporary_ne {loc loc' : Location} (h : tree.LeadsTo path loc) (h' : tree.LeadsTo (temporaryPath path) loc') :
    loc' ≠ loc :=
  fun heq => temporaryName_ne h h' (congrArg List.getLast? heq)

/-! ### The steps of a save -/

theorem save_eq_ok (h : l.save tree path = (.ok (), tree')) : ∃ id written,
    Wrote (temporaryPath path) id l.fileBytes (tree.makeParents path).2 written ∧
      written.rename (temporaryPath path) path = .ok tree' := by
  unfold save at h
  rcases hparents : tree.makeParents path with ⟨_ | _, made⟩ <;> rw [hparents] at h
  · simp at h
  simp only at h
  rcases made.write_cases (temporaryPath path) l.fileBytes with
    ⟨e, hwrite⟩ | ⟨id, bytes, result, written, hwrite, hwrote, hall⟩ <;> rw [hwrite] at h
  · simp at h
  · rcases result with e | _
    · simp at h
    · obtain rfl := hall rfl
      simp only at h
      cases hrename : written.rename (temporaryPath path) path with
      | error e => simp [hrename, outcome] at h
      | ok renamed =>
        obtain rfl : renamed = tree' := by simpa [hrename, outcome] using h
        exact ⟨id, written, hwrote, hrename⟩

theorem save_eq_error {e : FileError} (h : l.save tree path = (.error e, tree')) :
    tree' = (tree.makeParents path).2 ∨ ∃ id bytes, Wrote (temporaryPath path) id bytes (tree.makeParents path).2 tree' := by
  unfold save at h
  rcases hparents : tree.makeParents path with ⟨_ | _, made⟩ <;> rw [hparents] at h
  · exact Or.inl (Prod.mk.inj h).2.symm
  simp only at h
  rcases made.write_cases (temporaryPath path) l.fileBytes with
    ⟨e, hwrite⟩ | ⟨id, bytes, result, written, hwrite, hwrote, hall⟩ <;> rw [hwrite] at h
  · exact Or.inl (Prod.mk.inj h).2.symm
  · rcases result with e | _
    · obtain rfl := (Prod.mk.inj h).2
      exact Or.inr ⟨id, bytes, hwrote⟩
    · simp only at h
      cases hrename : written.rename (temporaryPath path) path with
      | error e =>
        obtain rfl : written = tree' := by simpa [hrename, outcome] using (Prod.mk.inj (hrename ▸ h)).2
        exact Or.inr ⟨id, bytes, hwrote⟩
      | ok renamed => simp [hrename, outcome] at h

/-! ### Renaming the temporary file -/

/-- The temporary path is no link, and no other name of the file that is called as the target. -/
structure Apart (path : String) (tree : FileTree) : Prop where
  link : ∀ loc, tree.LeadsTo (temporaryPath path) loc → ∀ id text, tree.node? loc ≠ some (.link id text)
  file : ∀ loc loc' id, tree.LeadsTo (temporaryPath path) loc → tree.LeadsTo path loc' →
    tree.node? loc = some (.file id) → tree.node? loc' ≠ some (.file id)

/-- The last step moves the name of the file that was written, and nothing else is new. -/
private theorem Apart.moved {made written : FileTree} (h : Apart path made) {id : FileId} {bytes : List UInt8}
    (hwrote : Wrote (temporaryPath path) id bytes made written)
    (hrename : written.rename (temporaryPath path) path = .ok tree') : ∃ loc here' name',
      made.LeadsTo (temporaryPath path) loc ∧ made.target .kept path = .ok (.entry here' name' false) ∧
      (made.node? loc = none ∨ made.node? loc = some (.file id)) ∧ made.node? (here' ++ [name']) ≠ some .directory ∧
      ¬ longestName < name'.utf8ByteSize ∧ tree'.home = made.home ∧ tree'.bytes id = bytes ∧
      ∀ other, tree'.node? other = if other = here' ++ [name'] then some (.file id)
        else if other = loc then none else made.node? other := by
  obtain ⟨here, name, here', name', node, hsource, htarget, hnode, -, hfree, hlength, hcases⟩ := rename_eq_ok hrename
  replace hsource := hwrote.extends_symm.target_kept hsource
  replace htarget := hwrote.extends_symm.target_kept htarget
  have hleads : made.LeadsTo (temporaryPath path) (here ++ [name]) := ⟨here, name, false, hsource, rfl⟩
  have hleads' : made.LeadsTo path (here' ++ [name']) := ⟨here', name', false, htarget, rfl⟩
  have hne := temporary_ne hleads' hleads
  -- what was written is at the temporary path itself
  obtain ⟨hfile, hkept⟩ := hwrote.node?_of_leadsTo hleads (h.link _ hleads)
  obtain rfl : .file id = node := Option.some.inj (hfile.symm.trans hnode)
  have hbefore : made.node? (here ++ [name]) = none ∨ made.node? (here ++ [name]) = some (.file id) := by
    rcases hwrote.node? (here ++ [name]) with hold | ⟨⟨_, _, _, _, hnone⟩, -⟩
    · exact Or.inr (hold.symm.trans hfile)
    · exact Or.inl hnone
  rw [hkept _ hne.symm] at hfree hcases
  rcases hcases with ⟨hsame, -⟩ | ⟨hhome, hcontents, hmoved⟩
  · -- two names of one file are not apart
    rcases hwrote.node? (here ++ [name]) with hold | ⟨-, -, hnew⟩
    · exact absurd hsame (h.file _ _ id hleads hleads' (hold.symm.trans hfile))
    · exact absurd hsame (hnew _)
  have hbytes : tree'.bytes id = bytes := by
    have hwritten := hwrote.bytes id
    rw [if_pos rfl] at hwritten
    rw [FileTree.bytes, hcontents]
    exact hwritten
  refine ⟨here ++ [name], here', name', hleads, htarget, hbefore, hfree, hlength, hhome.trans hwrote.home, hbytes, ?_⟩
  intro other
  rw [hmoved]
  split
  · rfl
  split
  · rfl
  · rename_i hother
    exact hkept other hother

/-- After the last step the target is the file that was written, and there is no temporary file. The paths still lead
there if the target does without what was replaced. -/
theorem Apart.saved {made written : FileTree} (h : Apart path made) {id : FileId} {bytes : List UInt8}
    (hwrote : Wrote (temporaryPath path) id bytes made written)
    (hrename : written.rename (temporaryPath path) path = .ok tree') :
    ∃ loc loc', made.LeadsTo (temporaryPath path) loc ∧ made.LeadsTo path loc' ∧ made.node? loc' ≠ some .directory ∧
      tree'.node? loc = none ∧ tree'.node? loc' = some (.file id) ∧ tree'.bytes id = bytes ∧
      ((made.erase loc').LeadsTo path loc' → tree'.LeadsTo (temporaryPath path) loc ∧ tree'.FileAt path id) := by
  obtain ⟨loc, here', name', hleads, htarget, hbefore, hfree, hlength, hhome, hbytes, hmoved⟩ := h.moved hwrote hrename
  have hleads' : made.LeadsTo path (here' ++ [name']) := ⟨here', name', false, htarget, rfl⟩
  have hgone : tree'.node? loc = none := by rw [hmoved, if_neg (temporary_ne hleads' hleads), if_pos rfl]
  have hsaved : tree'.node? (here' ++ [name']) = some (.file id) := by rw [hmoved, if_pos rfl]
  refine ⟨loc, here' ++ [name'], hleads, hleads', hfree, hgone, hsaved, hbytes, ?_⟩
  intro hwithout
  have hextends : (made.erase (here' ++ [name'])).Extends tree' := by
    refine .of_node? hhome fun other => ?_
    rw [node?_erase hfree, hmoved]
    split
    · exact Or.inr (Or.inl rfl)
    split
    · rename_i heq
      exact Or.inr (heq ▸ hbefore.imp_right fun hfile => ⟨id, hfile⟩)
    · exact Or.inl rfl
  have hpart : (made.erase (here' ++ [name'])).Extends made := by
    refine .of_node? rfl fun other => ?_
    rw [node?_erase hfree]
    split
    · exact Or.inr (Or.inl rfl)
    · exact Or.inl rfl
  constructor
  · obtain ⟨above, last, temporary, -, htemporary, -⟩ := leadsTo_temporaryPath hwithout hleads
    have hat : loc = above ++ [temporary] := hleads.unique (hpart.leadsTo htemporary)
    exact hat ▸ hextends.leadsTo htemporary
  · obtain ⟨above, last, slash, hpath, -⟩ := hwithout
    obtain ⟨rfl, rfl, rfl⟩ := Target.entry.inj (Except.ok.inj (htarget.symm.trans (hpart.target_kept hpath)))
    exact hextends.fileAt (by simp [LastLink.kept]) hpath (find_eq_ok.mpr ⟨hlength, hsaved⟩)

/-! ### Files that are no links -/

/-- Nothing is a link that is called as the file at a path or as its temporary file, and no file that is called as the
temporary one has another name. -/
structure Unlinked (path : String) (tree : FileTree) : Prop where
  link : ∀ loc, loc.getLast? = (Path.names path).getLast? ∨ loc.getLast? = (Path.names (temporaryPath path)).getLast? →
    ∀ id text, tree.node? loc ≠ some (.link id text)
  file : ∀ loc loc' id, loc.getLast? = (Path.names (temporaryPath path)).getLast? →
    tree.node? loc = some (.file id) → tree.node? loc' = some (.file id) → loc' = loc

namespace Unlinked

theorem apart (h : Unlinked path tree) : Apart path tree where
  link loc hleads := h.link loc (Or.inr hleads.getLast?)
  file loc loc' id hleads hleads' hnode hnode' :=
    temporary_ne hleads' hleads (h.file loc loc' id hleads.getLast? hnode hnode').symm

/-- The way to the target does not go over its own name. -/
theorem leadsTo_erase (h : Unlinked path tree) {loc : Location} (hleads : tree.LeadsTo path loc)
    (hfree : tree.node? loc ≠ some .directory) : (tree.erase loc).LeadsTo path loc := by
  have hextends : tree.Extends (tree.erase loc) := by
    refine .of_node? rfl fun loc' => ?_
    rw [node?_erase hfree]
    by_cases heq : loc' = loc
    · rcases hnode : tree.node? loc with _ | _ | id | ⟨id, text⟩
      · exact Or.inr (Or.inl (heq ▸ hnode))
      · exact absurd hnode hfree
      · exact Or.inr (Or.inr ⟨id, heq ▸ hnode⟩)
      · exact absurd hnode (h.link loc (Or.inl hleads.getLast?) id text)
    · rw [if_neg heq]
      exact Or.inl rfl
  exact hextends.leadsTo hleads

theorem of_grown {paths : List String} (h : Unlinked path tree) (hgrown : tree.Grown paths tree') :
    Unlinked path tree' where
  link loc hname id text hlink := h.link loc hname id text (hgrown.node?_of_ne_directory hlink (by simp))
  file loc loc' id hname hnode hnode' := h.file loc loc' id hname
    (hgrown.node?_of_ne_directory hnode (by simp)) (hgrown.node?_of_ne_directory hnode' (by simp))

/-- The temporary file has one name after it was written, too. -/
theorem of_wrote {id : FileId} {bytes : List UInt8} (h : Unlinked path tree)
    (hwrote : Wrote (temporaryPath path) id bytes tree tree') : Unlinked path tree' := by
  obtain ⟨here, name, hopened, -⟩ := hwrote.opened
  obtain ⟨temporary, hleads, -⟩ := leadsTo_of_target hopened
  obtain ⟨hfile, hkept⟩ := hwrote.node?_of_leadsTo hleads (h.apart.link temporary hleads)
  have hnode : ∀ loc node, tree'.node? loc = some node → tree.node? loc = some node ∨
      (loc = temporary ∧ node = .file id ∧ ∀ loc', tree.node? loc' ≠ some (.file id)) := by
    intro loc node hnode
    rcases hwrote.node? loc with hsame | ⟨-, hnew, hfresh⟩
    · exact Or.inl (hsame.symm.trans hnode)
    · by_cases hloc : loc = temporary
      · exact Or.inr ⟨hloc, Option.some.inj (hnode.symm.trans hnew), hfresh⟩
      · exact Or.inl ((hkept loc hloc).symm.trans hnode)
  constructor
  · intro loc hname id' text hlink
    rcases hnode loc _ hlink with hold | ⟨-, hother, -⟩
    · exact h.link loc hname id' text hold
    · cases hother
  · intro loc loc' id' hname hloc hloc'
    rcases hnode loc _ hloc with hold | ⟨rfl, hid, hfresh⟩ <;> rcases hnode loc' _ hloc' with hold' | ⟨rfl, hid', hfresh'⟩
    · exact h.file loc loc' id' hname hold hold'
    · exact absurd (hid' ▸ hold) (hfresh' loc)
    · exact absurd (hid ▸ hold') (hfresh loc')
    · rfl

/-- The target may have other names after the renaming, but the temporary file is gone. -/
theorem of_rename (h : Unlinked path tree) (hrename : tree.rename (temporaryPath path) path = .ok tree') :
    Unlinked path tree' := by
  obtain ⟨here, name, here', name', node, hsource, htarget, hnode, -, -, -, hcases⟩ := rename_eq_ok hrename
  have hleads : tree.LeadsTo (temporaryPath path) (here ++ [name]) := ⟨here, name, false, hsource, rfl⟩
  have hleads' : tree.LeadsTo path (here' ++ [name']) := ⟨here', name', false, htarget, rfl⟩
  rcases hcases with ⟨-, rfl⟩ | ⟨-, -, hmoved⟩
  · exact h
  constructor
  · intro loc hname id text hlink
    rw [hmoved] at hlink
    split at hlink
    · exact h.link _ (Or.inr hleads.getLast?) id text (hnode.trans hlink)
    split at hlink
    · cases hlink
    · exact h.link loc hname id text hlink
  · intro loc loc' id hname hloc hloc'
    have hnot : loc ≠ here' ++ [name'] := by
      rintro rfl
      exact temporaryName_ne hleads' hleads (hleads.getLast?.trans hname.symm)
    rw [hmoved, if_neg hnot] at hloc
    split at hloc
    · cases hloc
    rename_i hother
    rw [hmoved] at hloc'
    split at hloc'
    · obtain rfl := Option.some.inj hloc'
      exact absurd (h.file loc _ id hname hloc hnode).symm hother
    split at hloc'
    · cases hloc'
    · exact h.file loc loc' id hname hloc hloc'

end Unlinked

/-- A temporary file that was written is not the file at the target. -/
private theorem sameFile_of_wrote (h : Unlinked path tree) {id : FileId} {bytes : List UInt8}
    (hwrote : Wrote (temporaryPath path) id bytes tree tree') : SameFile path tree tree' := by
  obtain ⟨there, other, hopened, -⟩ := hwrote.opened
  obtain ⟨temporary, hleads, -⟩ := leadsTo_of_target hopened
  obtain ⟨hfile, hkept⟩ := hwrote.node?_of_leadsTo hleads (h.apart.link temporary hleads)
  have hwithin := hwrote.within
  -- where the target is, another file is called otherwise
  have hat : ∀ loc, tree'.LeadsTo path loc → tree'.node? loc = tree.node? loc ∧
      ∀ id', tree'.node? loc = some (.file id') → tree'.bytes id' = tree.bytes id' := by
    intro loc hloc
    have hne := temporary_ne hloc (hwithin.toExtends.leadsTo hleads)
    refine ⟨hkept loc hne.symm, fun id' hnode => hwrote.bytes_of_ne ?_⟩
    rintro rfl
    exact hne ((h.of_wrote hwrote).file temporary loc id' hleads.getLast? hfile hnode).symm
  refine ⟨fun loc => hwithin.toExtends.leadsTo, ?_, ?_⟩
  · intro loc hloc
    obtain ⟨hnode, hbytes⟩ := hat loc hloc
    unfold FileTree.contents?
    rw [← hnode]
    split
    · rename_i id' hid
      rw [hbytes id' hid]
    · rfl
  · intro bytes' hread
    obtain ⟨id', ⟨here, name, htarget, hfind⟩, rfl⟩ := read_eq_ok.mp hread
    obtain ⟨loc, hloc, hsame | ⟨id'', text, hlink⟩⟩ := leadsTo_of_target htarget
    · obtain ⟨-, hnode⟩ := find_eq_ok.mp hfind
      obtain ⟨-, hbytes⟩ := hat loc (hwithin.toExtends.leadsTo hloc)
      exact read_eq_ok.mpr ⟨id', hwithin.fileAt ⟨here, name, htarget, hfind⟩,
        hbytes id' (hwithin.node? _ _ (hsame ▸ hnode))⟩
    · exact absurd hlink (h.link loc (Or.inl hloc.getLast?) id'' text)

/-- A save succeeds and the layout is at the target, or it fails and the target is as it was. In both cases no link was
made. -/
theorem save_cases (l : Layout) (h : Unlinked path tree) :
    (∃ tree', l.save tree path = (.ok (), tree') ∧ Unlinked path tree' ∧ tree'.read path = .ok l.fileBytes) ∨
      ∃ e tree', l.save tree path = (.error e, tree') ∧ Unlinked path tree' ∧ SameFile path tree tree' := by
  have hgrown := grown_makeParents tree path
  have hmade := h.of_grown hgrown
  rcases hsave : l.save tree path with ⟨e | _, tree'⟩
  · refine Or.inr ⟨e, tree', rfl, ?_⟩
    rcases save_eq_error hsave with rfl | ⟨id, bytes, hwrote⟩
    · exact ⟨hmade, hgrown.trans_sameFile (SameFile.refl path _)⟩
    · exact ⟨hmade.of_wrote hwrote, hgrown.trans_sameFile (sameFile_of_wrote hmade hwrote)⟩
  · refine Or.inl ⟨tree', rfl, ?_⟩
    obtain ⟨id, written, hwrote, hrename⟩ := save_eq_ok hsave
    have hwritten := hmade.of_wrote hwrote
    refine ⟨hwritten.of_rename hrename, ?_⟩
    obtain ⟨loc, loc', -, hleads', hfree, -, -, hbytes, hpaths⟩ := hmade.apart.saved hwrote hrename
    obtain ⟨-, hfile⟩ := hpaths (hmade.leadsTo_erase hleads' hfree)
    exact read_eq_ok.mpr ⟨id, hfile, hbytes⟩

theorem load_eq_ok : load tree path = .ok l ↔ ∃ bytes, tree.read path = .ok bytes ∧ ofJson bytes = .ok l := by
  unfold load
  rcases tree.read path with e | bytes
  · cases e <;> simp
  · simp

theorem load_of_sameFile (h : SameFile path tree tree') (hload : load tree path = .ok l) : load tree' path = .ok l := by
  obtain ⟨bytes, hread, hbytes⟩ := load_eq_ok.mp hload
  exact load_eq_ok.mpr ⟨bytes, h.read bytes hread, hbytes⟩

/-- Saving layouts one after the other until one fails leaves the file as it was, or with one of them. -/
theorem feed_saveTo (path : String) (ls : List Layout) (sink : FileSink) (h : Unlinked path sink.tree) :
    Unlinked path ((saveTo path).feed ls sink).2.tree ∧ (SameFile path sink.tree ((saveTo path).feed ls sink).2.tree ∨
      ∃ l ∈ ls, ((saveTo path).feed ls sink).2.tree.read path = .ok l.fileBytes) := by
  induction ls generalizing sink with
  | nil => exact ⟨h, Or.inl (SameFile.refl path sink.tree)⟩
  | cons l ls ih =>
    rcases save_cases l h with ⟨tree', hsave, hunlinked, hread⟩ | ⟨e, tree', hsave, hunlinked, hsame⟩
    · rw [Sink.feed, saveTo, hsave]
      obtain ⟨hunlinked', hcases⟩ := ih ⟨tree', sink.writes + 1⟩ hunlinked
      refine ⟨hunlinked', Or.inr ?_⟩
      -- what is saved here stays, unless a later layout takes its place
      rcases hcases with hsame | ⟨l', hmem, hread'⟩
      · exact ⟨l, List.mem_cons_self, hsame.read _ hread⟩
      · exact ⟨l', List.mem_cons_of_mem l hmem, hread'⟩
    · rw [Sink.feed, saveTo, hsave]
      exact ⟨hunlinked, Or.inl hsame⟩

end Layout

end Predictive
