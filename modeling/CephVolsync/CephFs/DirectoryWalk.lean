import CephVolsync.CephFs.StatelessSync
import CephVolsync.Library.FilepathRel

/-! `walkAndStreamDirectories` (`internal/worker/cephfs/source.go`) over the tree of files that
stands at `/data`: `filepath.WalkDir` goes through it, and each directory is streamed under
its path in the volume. -/

namespace CephVolsync.CephFs

open Filepath

mutual

/-- A node of the mounted tree, with the size that `os.Lstat` finds. `ReadDir` fails on a
directory that is not readable. -/
inductive FsNode where
  | file (size : ℤ)
  | dir (size : ℤ) (readable : Bool) (entries : FsEntries)
  deriving Repr

/-- The entries of a directory in the order in which `ReadDir` returns them. -/
inductive FsEntries where
  | nil
  | cons (name : GoString) (node : FsNode) (rest : FsEntries)
  deriving Repr

end

/-- What the callback sends for a directory; none when `filepath.Rel` fails. -/
def streamedPath (path : GoString) : Option GoString :=
  (rel dataMountPath path).map fun relPath =>
    if relPath = [dot] then [separator] else separator :: relPath

mutual

/-- The directories that `WalkDir` streams from here, and whether it ends with an error. The
callback sees a directory before its entries, and once more with the error of `ReadDir`. -/
def FsNode.walkDir (path : GoString) : FsNode → List GoString × Bool
  | .file _ => ([], false)
  | .dir _ readable entries =>
    match streamedPath path with
    | none => ([], true)
    | some relPath =>
      if readable then
        let walked := entries.walkDir path
        (relPath :: walked.1, walked.2)
      else ([relPath], true)

def FsEntries.walkDir (path : GoString) : FsEntries → List GoString × Bool
  | .nil => ([], false)
  | .cons name node rest =>
    let walked := node.walkDir (join [path, name])
    if walked.2 then walked
    else
      let others := rest.walkDir path
      (walked.1 ++ others.1, others.2)

end

/-- None stands for an error of `os.Lstat` on the root. -/
def walkAndStreamDirectories : Option FsNode → List GoString × Bool
  | none => ([], true)
  | some root => root.walkDir dataMountPath

def FsEntries.find? (name : GoString) : FsEntries → Option FsNode
  | .nil => none
  | .cons n node rest => if n = name then some node else rest.find? name

def FsEntries.names : FsEntries → List GoString
  | .nil => []
  | .cons name _ rest => name :: rest.names

def FsNode.lstat : FsNode → List GoString → Stat
  | .file size, [] | .dir size _ _, [] => .info size
  | .file _, _ :: _ => .failed
  | .dir _ _ entries, name :: rest =>
    match entries.find? name with
    | none => .notExist
    | some node => node.lstat rest

section Tree

mutual

/-- The directories of the tree, each by the names that lead to it, in the order of the walk. -/
def FsNode.directories (names : List GoString) : FsNode → List (List GoString)
  | .file _ => []
  | .dir _ _ entries => names :: entries.directories names

def FsEntries.directories (names : List GoString) : FsEntries → List (List GoString)
  | .nil => []
  | .cons name node rest => node.directories (names ++ [name]) ++ rest.directories names

end

mutual

def FsNode.readable : FsNode → Bool
  | .file _ => true
  | .dir _ readable entries => readable && entries.readable

def FsEntries.readable : FsEntries → Bool
  | .nil => true
  | .cons _ node rest => node.readable && rest.readable

end

mutual

/-- The entries of a directory have names, and no two have the same. -/
def FsNode.Named : FsNode → Prop
  | .file _ => True
  | .dir _ _ entries => entries.Named

def FsEntries.Named : FsEntries → Prop
  | .nil => True
  | .cons name node rest => Name name ∧ name ∉ rest.names ∧ node.Named ∧ rest.Named

end

mutual

theorem FsNode.directories_below {names : List GoString} {node : FsNode} {dir : List GoString}
    (h : dir ∈ node.directories names) : names <+: dir := by
  cases node with
  | file size => cases h
  | dir size readable entries =>
    rcases List.mem_cons.mp h with rfl | inside
    · exact List.prefix_rfl
    · obtain ⟨name, -, below⟩ := FsEntries.directories_below inside
      exact (List.prefix_append names [name]).trans below

theorem FsEntries.directories_below {names : List GoString} {entries : FsEntries}
    {dir : List GoString} (h : dir ∈ entries.directories names) :
    ∃ name ∈ entries.names, names ++ [name] <+: dir := by
  cases entries with
  | nil => cases h
  | cons name node rest =>
    rcases List.mem_append.mp h with first | later
    · exact ⟨name, List.mem_cons_self, FsNode.directories_below first⟩
    · obtain ⟨other, among, below⟩ := FsEntries.directories_below later
      exact ⟨other, List.mem_cons_of_mem _ among, below⟩

end

theorem eq_of_common_path {names path : List GoString} {first second : GoString}
    (h : names ++ [first] <+: path) (h' : names ++ [second] <+: path) : first = second := by
  have same := List.prefix_of_prefix_length_le h h' (by simp)
  have eq := same.eq_of_length (by simp)
  simpa using eq

mutual

theorem FsNode.directories_ordered (names : List GoString) {node : FsNode} (h : node.Named) :
    (node.directories names).Pairwise fun dir later => ¬later <+: dir := by
  cases node with
  | file size => exact .nil
  | dir size readable entries =>
    refine List.pairwise_cons.mpr ⟨?_, FsEntries.directories_ordered names h⟩
    intro later inside above
    obtain ⟨name, -, below⟩ := FsEntries.directories_below inside
    have := (below.trans above).length_le
    simp at this

theorem FsEntries.directories_ordered (names : List GoString) {entries : FsEntries}
    (h : entries.Named) : (entries.directories names).Pairwise fun dir later => ¬later <+: dir := by
  cases entries with
  | nil => exact .nil
  | cons name node rest =>
    obtain ⟨-, fresh, inner, others⟩ := h
    refine List.pairwise_append.mpr ⟨FsNode.directories_ordered _ inner,
      FsEntries.directories_ordered _ others, ?_⟩
    intro dir first later second above
    obtain ⟨other, among, below⟩ := FsEntries.directories_below second
    have same := eq_of_common_path (FsNode.directories_below first) (below.trans above)
    exact fresh (same ▸ among)

end

theorem concat_names {names : List GoString} {name : GoString} (h : ∀ e ∈ names, Name e)
    (here : Name name) : ∀ e ∈ names ++ [name], Name e := by
  intro e he
  rcases List.mem_append.mp he with he | he
  · exact h e he
  · exact List.mem_singleton.mp he ▸ here

mutual

theorem FsNode.directories_names {names : List GoString} {node : FsNode} (h : node.Named)
    (start : ∀ e ∈ names, Name e) {dir : List GoString} (hd : dir ∈ node.directories names) :
    ∀ e ∈ dir, Name e := by
  cases node with
  | file size => cases hd
  | dir size readable entries =>
    rcases List.mem_cons.mp hd with rfl | inside
    · exact start
    · exact FsEntries.directories_names h start inside

theorem FsEntries.directories_names {names : List GoString} {entries : FsEntries}
    (h : entries.Named) (start : ∀ e ∈ names, Name e) {dir : List GoString}
    (hd : dir ∈ entries.directories names) : ∀ e ∈ dir, Name e := by
  cases entries with
  | nil => cases hd
  | cons name node rest =>
    obtain ⟨here, -, inner, others⟩ := h
    rcases List.mem_append.mp hd with first | later
    · exact FsNode.directories_names inner (concat_names start here) first
    · exact FsEntries.directories_names others start later

end

end Tree

section Walk

/-- A walk streams the directories from the first on, and all of them when it has no error. -/
structure Walks (walked : List GoString × Bool) (dirs : List GoString) (readable : Bool) :
    Prop where
  err : walked.2 = !readable
  front : walked.1 <+: dirs
  whole : readable = true → walked.1 = dirs

theorem dataMountPath_eq : dataMountPath = absolute [goString "data"] := by decide +kernel

theorem data_name : ∀ e ∈ [goString "data"], Name e := by
  intro e he
  rw [List.mem_singleton.mp he]
  exact ⟨by decide +kernel, by decide +kernel, by decide +kernel, by decide +kernel⟩

theorem mounted_names {names : List GoString} (h : ∀ e ∈ names, Name e) :
    ∀ e ∈ goString "data" :: names, Name e := by
  intro e he
  rcases List.mem_cons.mp he with rfl | he
  · exact data_name _ List.mem_cons_self
  · exact h e he

theorem streamedPath_eq {names : List GoString} (h : ∀ e ∈ names, Name e) :
    streamedPath (absolute (goString "data" :: names)) = some (absolute names) := by
  have relative := rel_absolute data_name h
  rw [List.singleton_append] at relative
  rw [streamedPath, dataMountPath_eq, relative, Option.map_some]
  by_cases root : names = []
  · rw [if_pos root, if_pos rfl, root]
    rfl
  · have inside : [separator].intercalate names ≠ [dot] := by
      intro same
      have elems := elements_eq_self h
      rw [same] at elems
      exact root (elems.symm.trans (by decide))
    rw [if_neg root, if_neg inside]
    rfl

mutual

theorem FsNode.walkDir_walks {names : List GoString} {node : FsNode} (h : node.Named)
    (start : ∀ e ∈ names, Name e) :
    Walks (node.walkDir (absolute (goString "data" :: names)))
      ((node.directories names).map absolute) node.readable := by
  cases node with
  | file size => exact ⟨rfl, List.prefix_rfl, fun _ => rfl⟩
  | dir size readable entries =>
    have inner : Walks (entries.walkDir _) _ _ := FsEntries.walkDir_walks h start
    rw [FsNode.walkDir, streamedPath_eq start, FsNode.directories, List.map_cons, FsNode.readable]
    cases readable with
    | false => exact ⟨rfl, List.prefix_append [absolute names] _, by simp⟩
    | true =>
      refine ⟨inner.err, ?_, fun fine => ?_⟩
      · exact List.cons_prefix_cons.mpr ⟨rfl, inner.front⟩
      · simp only [if_true, inner.whole fine]

theorem FsEntries.walkDir_walks {names : List GoString} {entries : FsEntries} (h : entries.Named)
    (start : ∀ e ∈ names, Name e) :
    Walks (entries.walkDir (absolute (goString "data" :: names)))
      ((entries.directories names).map absolute) entries.readable := by
  cases entries with
  | nil => exact ⟨rfl, List.prefix_rfl, fun _ => rfl⟩
  | cons name node rest =>
    obtain ⟨here, -, inner, others⟩ := h
    have first := FsNode.walkDir_walks inner (concat_names start here)
    have later := FsEntries.walkDir_walks others start
    rw [FsEntries.walkDir, join_name (mounted_names start) here, List.cons_append,
      FsEntries.directories, List.map_append, FsEntries.readable]
    cases fine : node.readable with
    | false =>
      -- the error ends the walk, the other entries are not seen
      rw [fine] at first
      have failed : (node.walkDir (absolute (goString "data" :: (names ++ [name])))).2 = true :=
        first.err
      rw [if_pos failed]
      exact ⟨first.err, first.front.trans (List.prefix_append _ _), by simp⟩
    | true =>
      rw [fine] at first
      rw [if_neg (by simp [first.err]), first.whole rfl]
      exact ⟨by simpa using later.err, List.prefix_append_right_inj _ |>.mpr later.front,
        fun all => by simp only [later.whole (by simpa using all)]⟩

end

theorem walk_walks {root : FsNode} (named : root.Named) :
    Walks (walkAndStreamDirectories (some root)) ((root.directories []).map absolute)
      root.readable := by
  have empty : ∀ e ∈ ([] : List GoString), Name e := by simp
  have walks := FsNode.walkDir_walks named empty
  rwa [← dataMountPath_eq] at walks

/-- The walk of the volume streams every directory once, under its path in the volume, and none
before one that it lies in. An unreadable directory ends it with an error, and what was streamed
up to there is the front of the whole. -/
theorem walk_streams_directories (root : FsNode) (named : root.Named) :
    (walkAndStreamDirectories (some root)).2 = !root.readable ∧
    (walkAndStreamDirectories (some root)).1 <+: (root.directories []).map absolute ∧
    (root.readable = true →
      (walkAndStreamDirectories (some root)).1 = (root.directories []).map absolute) ∧
    (walkAndStreamDirectories (some root)).1.Pairwise fun dir later => ¬Below later dir := by
  have walks := walk_walks named
  refine ⟨walks.err, walks.front, walks.whole, List.Pairwise.sublist walks.front.sublist ?_⟩
  refine List.pairwise_map.mpr ((FsNode.directories_ordered [] named).imp_of_mem ?_)
  intro dir later among among' ordered below
  have names := FsNode.directories_names named (by simp) among
  have names' := FsNode.directories_names named (by simp) among'
  exact ordered ((below_absolute_iff names' names).mp below)

def smallTree : FsNode :=
  .dir 0 true (.cons (goString "a") (.file 7) (.cons (goString "d") (.dir 0 true .nil) .nil))

theorem smallTree_named : smallTree.Named := by
  have a : Name (goString "a") :=
    ⟨by decide +kernel, by decide +kernel, by decide +kernel, by decide +kernel⟩
  have d : Name (goString "d") :=
    ⟨by decide +kernel, by decide +kernel, by decide +kernel, by decide +kernel⟩
  have fresh : goString "a" ∉ [goString "d"] := by decide +kernel
  exact ⟨a, fresh, trivial, d, by simp [FsEntries.names], trivial, trivial⟩

theorem walk_streams_directories_small :
    (walkAndStreamDirectories (some smallTree)).1 = [goString "/", goString "/d"] := by
  obtain ⟨-, -, all, -⟩ := walk_streams_directories smallTree smallTree_named
  rw [all rfl]
  decide +kernel

end Walk

section Lookup

mutual

theorem FsNode.lstat_directories {names : List GoString} {node : FsNode} (h : node.Named)
    {dir path : List GoString} (hd : dir ∈ node.directories names) (above : names ++ path <+: dir) :
    node.lstat path ≠ .notExist := by
  cases node with
  | file size => cases hd
  | dir size readable entries =>
    cases path with
    | nil => simp [FsNode.lstat]
    | cons name rest =>
      rcases List.mem_cons.mp hd with rfl | inside
      · have := above.length_le
        simp at this
      · obtain ⟨node, found, exists_⟩ := FsEntries.lstat_directories h inside above
        rw [FsNode.lstat, found]
        exact exists_

theorem FsEntries.lstat_directories {names : List GoString} {entries : FsEntries}
    (h : entries.Named) {dir path : List GoString} {name : GoString}
    (hd : dir ∈ entries.directories names) (above : names ++ name :: path <+: dir) :
    ∃ node, entries.find? name = some node ∧ node.lstat path ≠ .notExist := by
  cases entries with
  | nil => cases hd
  | cons first node rest =>
    obtain ⟨-, fresh, inner, others⟩ := h
    have step : names ++ [name] ++ path <+: dir := by simpa using above
    have under : names ++ [name] <+: dir := (List.prefix_append _ _).trans step
    rcases List.mem_append.mp hd with inside | later
    · obtain rfl := eq_of_common_path (FsNode.directories_below inside) under
      exact ⟨node, if_pos rfl, FsNode.lstat_directories inner inside step⟩
    · obtain ⟨other, among, below⟩ := FsEntries.directories_below later
      obtain rfl := eq_of_common_path below under
      have ne : first ≠ other := fun eq => fresh (eq ▸ among)
      rw [FsEntries.find?, if_neg ne]
      exact FsEntries.lstat_directories others later above

end

end Lookup

end CephVolsync.CephFs
