import CephVolsync.Library.Filepath

/-! `Rel` of Go's `path/filepath`, and the paths that lead from the root through a list of
names: how they are joined, and that `Rel` gives back the names behind a common front. -/

namespace Filepath

/-- The loop of `Rel`: what is left of the two paths behind their common elements. -/
def relLoop (base targ : List UInt8) : List UInt8 × List UInt8 :=
  if base = [] ∨ targ = [] then (base, targ)
  else
    let b := base.takeWhile (· ≠ separator)
    let t := targ.takeWhile (· ≠ separator)
    if t ≠ b then (base, targ) else relLoop (base.drop (b.length + 1)) (targ.drop (t.length + 1))
termination_by base.length
decreasing_by
  rename_i nonempty _
  have : 0 < base.length := List.length_pos_iff.mpr fun empty => nonempty (.inl empty)
  simp only [List.length_drop]
  omega

/-- None is the error "can't make … relative to …". The loop stops inside both paths only where
their elements differ; the element of the base is then looked at. -/
def rel (basepath targpath : List UInt8) : Option (List UInt8) :=
  let base := clean basepath
  let targ := clean targpath
  if targ = base then some [dot]
  else
    let base := if base = [dot] then [] else base
    if rooted base ≠ rooted targ then none
    else
      let (b, t) := relLoop base targ
      if b ≠ [] ∧ t ≠ [] ∧ b.takeWhile (· ≠ separator) = dotdotName then none
      else if b ≠ [] then
        some ([separator].intercalate (List.replicate (b.count separator + 1) dotdotName ++
          if t = [] then [] else [t]))
      else some t

def absolute (names : List (List UInt8)) : List UInt8 := Place.text true ⟨0, names⟩

section Absolute

open Place

theorem absolute_eq (names : List (List UInt8)) :
    absolute names = separator :: [separator].intercalate names := rfl

theorem elements_absolute {names : List (List UInt8)} (h : ∀ e ∈ names, Name e) :
    elements (absolute names) = names :=
  (elements_separator _).trans (elements_eq_self h)

theorem absolute_inj {first second : List (List UInt8)} (h : ∀ e ∈ first, Name e)
    (h' : ∀ e ∈ second, Name e) : absolute first = absolute second ↔ first = second := by
  refine ⟨fun eq => ?_, fun eq => eq ▸ rfl⟩
  rw [← elements_absolute h, eq, elements_absolute h']

theorem clean_absolute {names : List (List UInt8)} (h : ∀ e ∈ names, Name e) :
    clean (absolute names) = absolute names := by
  by_cases root : names = []
  · rw [root]
    decide +kernel
  · exact clean_names h root

theorem absolute_absClean {names : List (List UInt8)} (h : ∀ e ∈ names, Name e) :
    AbsClean (absolute names) :=
  ⟨rfl, clean_absolute h⟩

theorem join_name {names : List (List UInt8)} {e : List UInt8} (h : ∀ d ∈ names, Name d)
    (he : Name e) : join [absolute names, e] = absolute (names ++ [e]) := by
  have single : ∀ d ∈ [e], Name d := fun d hd => List.mem_singleton.mp hd ▸ he
  have elems : elements e = [e] := by
    have := elements_eq_self single
    rwa [List.intercalate_singleton] at this
  rw [join_eq (absolute_absClean h), elements_absolute h, elems, walk_names single]
  rfl

theorem below_absolute_iff {dir path : List (List UInt8)} (hd : ∀ e ∈ dir, Name e)
    (hp : ∀ e ∈ path, Name e) : Below (absolute dir) (absolute path) ↔ dir <+: path :=
  below_iff hd hp

end Absolute

section Rel

theorem solid_of_mem {e : List UInt8} (he : separator ∉ e) :
    ∀ c ∈ e, decide (c ≠ separator) = true := by
  intro c hc
  exact decide_eq_true fun eq => he (eq ▸ hc)

theorem intercalate_cons (e : List UInt8) (es : List (List UInt8)) :
    [separator].intercalate (e :: es) =
      e ++ if es = [] then [] else separator :: [separator].intercalate es := by
  cases es with
  | nil => simp
  | cons d es => simp [List.intercalate_cons_cons]

theorem takeWhile_intercalate {e : List UInt8} (he : separator ∉ e) (es : List (List UInt8)) :
    ([separator].intercalate (e :: es)).takeWhile (· ≠ separator) = e := by
  rw [intercalate_cons]
  split_ifs with last
  · rw [List.append_nil, List.takeWhile_eq_self_iff.mpr (solid_of_mem he)]
  · rw [List.takeWhile_append_of_pos (solid_of_mem he), List.takeWhile_cons_of_neg (by simp),
      List.append_nil]

theorem drop_intercalate (e : List UInt8) (es : List (List UInt8)) :
    ([separator].intercalate (e :: es)).drop (e.length + 1) = [separator].intercalate es := by
  rw [intercalate_cons, List.drop_append]
  split_ifs with last
  · simp [last]
  · simp

theorem relLoop_names {base more : List (List UInt8)} (h : ∀ e ∈ base, Name e) :
    relLoop ([separator].intercalate base) ([separator].intercalate (base ++ more)) =
      ([], [separator].intercalate more) := by
  induction base with
  | nil => simp [relLoop]
  | cons e base ih =>
    have name := h e List.mem_cons_self
    have inside (es : List (List UInt8)) : [separator].intercalate (e :: es) ≠ [] := by
      rw [intercalate_cons]
      simp [name.nonempty]
    rw [List.cons_append, relLoop, if_neg (by simp [inside])]
    simp only [takeWhile_intercalate name.solid, drop_intercalate, ne_eq, not_true_eq_false,
      if_false]
    exact ih fun d hd => h d (List.mem_cons_of_mem _ hd)

theorem relLoop_absolute {base more : List (List UInt8)} (h : ∀ e ∈ base, Name e) :
    relLoop (absolute base) (absolute (base ++ more)) = ([], [separator].intercalate more) := by
  rw [absolute_eq, absolute_eq, relLoop, if_neg (by simp)]
  simpa using relLoop_names h

theorem rel_absolute {base more : List (List UInt8)} (h : ∀ e ∈ base, Name e)
    (h' : ∀ e ∈ more, Name e) :
    rel (absolute base) (absolute (base ++ more)) =
      some (if more = [] then [dot] else [separator].intercalate more) := by
  have all : ∀ e ∈ base ++ more, Name e := by simpa [or_imp, forall_and] using ⟨h, h'⟩
  have proper : absolute (base ++ more) = absolute base ↔ more = [] := by
    rw [absolute_inj all h, List.append_right_eq_self]
  have rooted : absolute base ≠ [dot] := by
    rw [absolute_eq]
    simp [separator, dot]
  simp only [rel, clean_absolute h, clean_absolute all, proper, if_neg rooted,
    relLoop_absolute h]
  by_cases same : more = []
  · rw [if_pos same, if_pos same]
  · rw [if_neg same, if_neg same]
    simp [Filepath.rooted, absolute_eq]

end Rel

end Filepath
