import CephVolsync.Basic
import CephVolsync.Library.Filepath

/-! The paths that the destination touches (`internal/worker/cephfs/cephfs_reader.go` and
`destination.go`): `FileCache.Acquire` tests the cleaned path and opens the path joined to
the data directory, while `sanitizePath` joins the cleaned path. Both test for two dots in a
row anywhere in the path, also inside a name. -/

namespace CephVolsync.CephFs

open Filepath

def dataMountPath : GoString := goString "/data"

def hasTraversal (path : GoString) : Bool := decide (goString ".." <:+: path)

/-- The path that `Acquire` opens, or its error. -/
def acquirePath (baseDir relPath : GoString) : Except GoString GoString :=
  if hasTraversal (clean relPath) then
    .error (goString "invalid path: path traversal not allowed: " ++ relPath)
  else .ok (join [baseDir, relPath])

def sanitizePath (relPath : GoString) : Except GoString GoString :=
  if relPath = [] then .error (goString "path cannot be empty")
  else if hasTraversal (clean relPath) then
    .error (goString "invalid path: path traversal not allowed")
  else .ok (join [dataMountPath, clean relPath])

theorem hasTraversal_eq (path : GoString) : hasTraversal path = decide (dotdotName <:+: path) := by
  have dotdot : goString ".." = dotdotName := by decide +kernel
  rw [hasTraversal, dotdot]

theorem acquirePath_ok {baseDir relPath full : GoString}
    (h : acquirePath baseDir relPath = .ok full) :
    ¬dotdotName <:+: clean relPath ∧ full = join [baseDir, relPath] := by
  rw [acquirePath, hasTraversal_eq] at h
  split at h
  · cases h
  · rename_i ok
    cases h
    exact ⟨fun found => ok (decide_eq_true found), rfl⟩

/-- An accepted path stays in the data directory if and only if it enters again the
directories of it that its elements leave. A path without a leading separator leaves none. -/
theorem acquire_below_iff (baseDir relPath full : GoString) (dir : AbsClean baseDir)
    (accepted : acquirePath baseDir relPath = .ok full) :
    (Below baseDir full ↔ (elements baseDir).drop
      ((elements baseDir).length - (climb relPath).up) <+: (climb relPath).down) ∧
    (rooted relPath = false → Below baseDir full) := by
  obtain ⟨plain, rfl⟩ := acquirePath_ok accepted
  refine ⟨join_below_iff dir relPath, fun relative => ?_⟩
  rw [join_below_iff dir relPath, climb_up relative plain, Nat.sub_zero, List.drop_length]
  exact List.nil_prefix

theorem acquire_below_iff_file : ∃ full, acquirePath dataMountPath (goString "a/../b") = .ok full ∧
    full = goString "/data/b" ∧ Below dataMountPath full := by
  have dir : AbsClean dataMountPath := ⟨by decide +kernel, by decide +kernel⟩
  have accepted : acquirePath dataMountPath (goString "a/../b") = .ok (goString "/data/b") := by
    decide +kernel
  exact ⟨_, accepted, rfl, (acquire_below_iff _ _ _ dir accepted).2 (by decide +kernel)⟩

/-- The separator in front hides the climb from the test, but not from `Join`. -/
theorem acquire_escapes : AbsClean dataMountPath ∧
    acquirePath dataMountPath (goString "/../etc/passwd") = .ok (goString "/etc/passwd") ∧
    ¬Below dataMountPath (goString "/etc/passwd") :=
  ⟨⟨by decide +kernel, by decide +kernel⟩, by decide +kernel, by decide +kernel⟩

theorem sanitizePath_below {relPath full : GoString} (h : sanitizePath relPath = .ok full) :
    Below dataMountPath full := by
  have dir : AbsClean dataMountPath := ⟨by decide +kernel, by decide +kernel⟩
  simp only [sanitizePath, hasTraversal_eq] at h
  split_ifs at h with empty found
  cases h
  have plain : ¬dotdotName <:+: clean relPath := fun shown => found (decide_eq_true shown)
  rw [join_below_iff dir, climb_clean plain, Nat.sub_zero, List.drop_length]
  exact List.nil_prefix

/-- The path of a file on the volume, with or without a separator in front. -/
def filePath (leading : Bool) (components : List GoString) : GoString :=
  (if leading then [separator] else []) ++ [separator].intercalate components

/-- The name of a file: it holds neither the separator nor a zero byte. -/
structure FileName (e : GoString) : Prop where
  name : Name e
  terminated : 0 ∉ e

theorem fileName_iff (e : GoString) : FileName e ↔ (e ≠ [] ∧ separator ∉ e ∧ e ≠ [dot] ∧
    e ≠ dotdotName) ∧ 0 ∉ e :=
  ⟨fun h => ⟨⟨h.name.nonempty, h.name.solid, h.name.ne_dot, h.name.ne_dotdot⟩, h.terminated⟩,
    fun ⟨⟨nonempty, solid, dot, dotdot⟩, terminated⟩ =>
    ⟨⟨nonempty, solid, dot, dotdot⟩, terminated⟩⟩

instance (e : GoString) : Decidable (FileName e) := decidable_of_iff _ (fileName_iff e).symm

theorem hasTraversal_filePath {components : List GoString} (names : ∀ e ∈ components, FileName e)
    (ne : components ≠ []) (leading : Bool) :
    hasTraversal (clean (filePath leading components)) = true ↔
      ∃ e ∈ components, dotdotName <:+: e := by
  have text : filePath leading components = Place.text leading ⟨0, components⟩ := rfl
  have solid : separator ∉ dotdotName := by decide
  have two : dotdotName ≠ [] := by decide
  rw [hasTraversal_eq, decide_eq_true_iff, text, clean_names (fun e he => (names e he).name) ne,
    ← text, ← infix_intercalate solid two, filePath]
  cases leading with
  | false => exact Iff.rfl
  | true => exact (infix_append_cons (a := []) solid).trans (or_iff_right (by simp [two]))

/-- The path of a file is accepted by both tests if and only if no component of it has two
dots in a row. -/
theorem file_accepted_iff (baseDir : GoString) (components : List GoString)
    (ne : components ≠ []) (names : ∀ e ∈ components, FileName e) (leading : Bool) :
    ((∃ full, acquirePath baseDir (filePath leading components) = .ok full) ↔
      ∀ e ∈ components, ¬dotdotName <:+: e) ∧
    ((∃ full, sanitizePath (filePath leading components) = .ok full) ↔
      ∀ e ∈ components, ¬dotdotName <:+: e) := by
  have shown := hasTraversal_filePath names ne leading
  have nonempty : filePath leading components ≠ [] := fun empty =>
    ne ((intercalate_eq_nil fun e he => (names e he).name.nonempty).mp
      (List.append_eq_nil_iff.mp empty).2)
  cases found : hasTraversal (clean (filePath leading components)) with
  | true =>
    obtain ⟨e, he, dots⟩ := shown.mp found
    have rejected : ¬∀ e ∈ components, ¬dotdotName <:+: e := fun plain => plain e he dots
    refine ⟨iff_of_false ?_ rejected, iff_of_false ?_ rejected⟩
    · rintro ⟨full, ok⟩
      rw [acquirePath, if_pos found] at ok
      cases ok
    · rintro ⟨full, ok⟩
      rw [sanitizePath, if_neg nonempty, if_pos found] at ok
      cases ok
  | false =>
    have plain : ∀ e ∈ components, ¬dotdotName <:+: e := fun e he dots => by
      rw [shown.mpr ⟨e, he, dots⟩] at found
      cases found
    have ok : ¬hasTraversal (clean (filePath leading components)) = true := by
      rw [found]
      exact Bool.false_ne_true
    refine ⟨iff_of_true ?_ plain, iff_of_true ?_ plain⟩
    · rw [acquirePath, if_neg ok]
      exact ⟨_, rfl⟩
    · rw [sanitizePath, if_neg nonempty, if_neg ok]
      exact ⟨_, rfl⟩

theorem file_accepted_iff_dotted :
    ∃ full, acquirePath dataMountPath (goString "/dir/file.tar.gz") = .ok full := by
  have path : filePath true [goString "dir", goString "file.tar.gz"] = goString
    "/dir/file.tar.gz" := by
    decide +kernel
  have accepted := (file_accepted_iff dataMountPath [goString "dir", goString "file.tar.gz"]
    (List.cons_ne_nil _ _) (by decide +kernel) true).1.mpr (by decide +kernel)
  rwa [path] at accepted

/-- A name with two dots inside is taken for a climb. -/
theorem file_rejected : FileName (goString "notes..txt") ∧
    filePath false [goString "notes..txt"] = goString "notes..txt" ∧
    (∀ full, acquirePath dataMountPath (goString "notes..txt") ≠ .ok full) ∧
    ∀ full, sanitizePath (goString "notes..txt") ≠ .ok full := by
  have found : hasTraversal (clean (goString "notes..txt")) = true := by decide +kernel
  have nonempty : goString "notes..txt" ≠ [] := by decide +kernel
  refine ⟨by decide +kernel, by decide +kernel, fun full ok => ?_, fun full ok => ?_⟩
  · rw [acquirePath, if_pos found] at ok
    cases ok
  · rw [sanitizePath, if_neg nonempty, if_pos found] at ok
    cases ok

end CephVolsync.CephFs
