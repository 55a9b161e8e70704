import CephVolsync.CephFs.DirectoryWalk
import CephVolsync.CephFs.SyncSafety

/-! What the deletes of a stateless sync can reach. The producer lists an entry as deleted where
`os.Lstat` finds nothing, and every directory it lists was found by the walk. So nothing that
the sync copies lies at or below a path that it deletes, and the order in which the consumers
work does not matter. -/

namespace CephVolsync.CephFs

open Filepath TransitionSystem

def Changed.path? : Changed → Option GoString
  | large fe => some fe.path
  | special path | deleted path => some path
  | directory => none

section Volume

variable {root : FsNode} {newSnapDiffIterator : GoString → Option DirDiff}
  {newIter : GoString → Option FileDiff}

/-- The path of an entry: its directory is one of the tree, and the entry is deleted if and only
if the tree has nothing there. -/
structure Placed (root : FsNode) (c : Changed) (names : List GoString) : Prop where
  named : ∀ e ∈ names, Name e
  path : c.path? = some (absolute names)
  proper : names ≠ []
  dir : names.dropLast ∈ root.directories []
  deleted : c.deleted?.isSome = true ↔ root.lstat names = .notExist

theorem Placed.alone (named : root.Named) {c d : Changed} {names names' : List GoString}
    (hc : Placed root c names) (hd : Placed root d names') (gone : c.deleted?.isSome = true)
    (below : names <+: names') : names' = names := by
  by_contra other
  -- otherwise the directory of the second entry lies in what is not there
  have above : names <+: names'.dropLast := by
    obtain ⟨rest, rfl⟩ := below
    have ne : rest ≠ [] := by
      intro nil
      simp [nil] at other
    rw [List.dropLast_append_of_ne_nil ne]
    exact List.prefix_append _ _
  exact FsNode.lstat_directories named hd.dir above (hc.deleted.mp gone)

end Volume

end CephVolsync.CephFs
