import Mathlib

/-! Lexical paths: `Clean` and `Join` of Go's `path/filepath`, on a system whose separator is
the slash. A path is a byte string. `clean` is the loop of the standard library over the
bytes of the path. Over it stands what the loop computes: the elements of the path are
walked one after the other, and the place they lead to is written down. -/

namespace Filepath

def separator : UInt8 := 47

def dot : UInt8 := 46

def dotdotName : List UInt8 := [dot, dot]

/-- The buffer of `Clean` without its last element. It is kept backwards, and `dotdot` bytes
of it are out of reach. -/
def backtrack (dotdot : ℕ) : List UInt8 → List UInt8
  | [] => []
  | c :: out => if out.length > dotdot ∧ c ≠ separator then backtrack dotdot out else out

def endsElement : List UInt8 → Bool
  | [] => true
  | c :: _ => c == separator

def cleanLoop (rooted : Bool) (path out : List UInt8) (dotdot : ℕ) : List UInt8 :=
  match path with
  | [] => out
  | c :: rest =>
    if c = separator then cleanLoop rooted rest out dotdot
    else if c = dot ∧ endsElement rest then cleanLoop rooted rest out dotdot
    else if c = dot ∧ rest.head? = some dot ∧ endsElement rest.tail then
      if out.length > dotdot then cleanLoop rooted rest.tail (backtrack dotdot out) dotdot
      else if rooted then cleanLoop rooted rest.tail out dotdot
      else
        let out := dot :: dot :: if out.length > 0 then separator :: out else out
        cleanLoop rooted rest.tail out out.length
    else
      let out := if rooted ∧ out.length ≠ 1 ∨ ¬rooted ∧
        out.length ≠ 0 then separator :: out else out
      cleanLoop rooted (rest.dropWhile (· ≠ separator))
        ((c :: rest.takeWhile (· ≠ separator)).reverse ++ out) dotdot
termination_by path.length
decreasing_by
  all_goals simp only [List.length_cons, List.length_tail]
  all_goals first | omega | exact Nat.lt_succ_of_le (List.length_dropWhile_le _ _)

def rooted : List UInt8 → Bool
  | [] => false
  | c :: _ => c == separator

def clean (path : List UInt8) : List UInt8 :=
  let out :=
    if rooted path then cleanLoop true path.tail [separator] 1 else cleanLoop false path [] 0
  if out = [] then [dot] else out.reverse

/-- Empty elements are ignored up to the first other one. -/
def join : List (List UInt8) → List UInt8
  | [] => []
  | e :: rest => if e = [] then join rest else clean ([separator].intercalate (e :: rest))

def elements (path : List UInt8) : List (List UInt8) :=
  (path.splitOn separator).filter fun e => e ≠ [] ∧ e ≠ [dot]

/-- So many levels up, and then down through these names. -/
structure Place where
  up : ℕ
  down : List (List UInt8)
  deriving DecidableEq, Repr

namespace Place

def step (rooted : Bool) (p : Place) (e : List UInt8) : Place :=
  if e = dotdotName then
    if p.down ≠ [] then { p with down := p.down.dropLast }
    else if rooted then p
    else { p with up := p.up + 1 }
  else { p with down := p.down ++ [e] }

def walk (rooted : Bool) (p : Place) (es : List (List UInt8)) : Place := es.foldl (step rooted) p

def names (p : Place) : List (List UInt8) := List.replicate p.up dotdotName ++ p.down

def text (rooted : Bool) (p : Place) : List UInt8 :=
  (if rooted then [separator] else []) ++ [separator].intercalate p.names

def render (rooted : Bool) (p : Place) : List UInt8 :=
  if p.text rooted = [] then [dot] else p.text rooted

end Place

structure Name (e : List UInt8) : Prop where
  nonempty : e ≠ []
  solid : separator ∉ e
  ne_dot : e ≠ [dot]
  ne_dotdot : e ≠ dotdotName

section Elements

theorem elements_nil : elements [] = [] := by decide

theorem elements_append_separator (first second : List UInt8) :
    elements (first ++ separator :: second) = elements first ++ elements second := by
  rw [elements, List.splitOn_append_cons_self, List.filter_append]
  rfl

theorem elements_separator (path : List UInt8) : elements (separator :: path) = elements path :=
  elements_append_separator [] path

theorem elements_single {e : List UInt8} (solid : separator ∉ e) :
    elements e = if e = [] ∨ e = [dot] then [] else [e] := by
  rw [elements, List.splitOn_eq_singleton solid, List.filter_singleton]
  by_cases h : e = [] ∨ e = [dot]
  · rw [if_pos h]
    rcases h with rfl | rfl <;> rfl
  · rw [if_neg h]
    rw [not_or] at h
    simp [h.1, h.2]

theorem elements_append {e rest : List UInt8} (solid : separator ∉ e)
    (ends : endsElement rest = true) :
    elements (e ++ rest) = (if e = [] ∨ e = [dot] then [] else [e]) ++ elements rest := by
  cases rest with
  | nil => rw [List.append_nil, elements_nil, List.append_nil, elements_single solid]
  | cons c rest =>
    have hc : c = separator := by simpa [endsElement] using ends
    rw [hc, elements_append_separator, elements_single solid, elements_separator]

theorem separator_notMem_splitOn {path e : List UInt8} (he : e ∈ path.splitOn separator) :
    separator ∉ e := by
  induction path generalizing e with
  | nil =>
    rw [List.splitOn_nil, List.mem_singleton] at he
    simp [he]
  | cons c rest ih =>
    rw [List.splitOn_cons_eq_if_modifyHead] at he
    split at he
    · rcases List.mem_cons.mp he with rfl | he
      · simp
      · exact ih he
    · rename_i hc
      cases hrest : rest.splitOn separator with
      | nil => exact absurd hrest (List.splitOn_ne_nil _ _)
      | cons first others =>
        rw [hrest] at ih
        rw [hrest, List.modifyHead_cons] at he
        rcases List.mem_cons.mp he with rfl | he
        · rw [List.mem_cons, not_or]
          exact ⟨fun eq => hc (by simp [eq]), ih List.mem_cons_self⟩
        · exact ih (List.mem_cons_of_mem _ he)

theorem mem_elements {path e : List UInt8} (he : e ∈ elements path) :
    e ≠ [] ∧ separator ∉ e ∧ e ≠ [dot] := by
  obtain ⟨he, kept⟩ := List.mem_filter.mp he
  have kept := of_decide_eq_true kept
  exact ⟨kept.1, separator_notMem_splitOn he, kept.2⟩

theorem elements_eq_self {names : List (List UInt8)} (h : ∀ e ∈ names, Name e) :
    elements ([separator].intercalate names) = names := by
  by_cases hn : names = []
  · rw [hn, List.intercalate_nil]
    exact elements_nil
  · rw [elements, List.splitOn_intercalate separator (fun e he => (h e he).solid) hn,
      List.filter_eq_self]
    exact fun e he => decide_eq_true ⟨(h e he).nonempty, (h e he).ne_dot⟩

end Elements

section Text

theorem intercalate_concat (c : UInt8) (ls : List (List UInt8)) (e : List UInt8) :
    [c].intercalate (ls ++ [e]) =
      [c].intercalate ls ++ ((if ls = [] then [] else [c]) ++ e) := by
  induction ls with
  | nil => simp
  | cons l rest ih =>
    cases rest with
    | nil => simp [List.intercalate_cons_cons]
    | cons l' rest =>
      have ne : l :: l' :: rest ≠ [] := List.cons_ne_nil _ _
      have ne' : l' :: rest ≠ [] := List.cons_ne_nil _ _
      rw [if_neg ne'] at ih
      rw [if_neg ne, List.cons_append, List.cons_append, List.intercalate_cons_cons,
        ← List.cons_append, ih, List.intercalate_cons_cons]
      simp only [List.append_assoc]

theorem intercalate_append (c : UInt8) {first second : List (List UInt8)} (h : first ≠ [])
    (h' : second ≠ []) : [c].intercalate (first ++ second) =
      [c].intercalate first ++ c :: [c].intercalate second := by
  induction second using List.reverseRecOn with
  | nil => exact absurd rfl h'
  | append_singleton second e ih =>
    rw [← List.append_assoc, intercalate_concat, intercalate_concat]
    by_cases hs : second = []
    · simp [hs, h]
    · have ne : first ++ second ≠ [] := by simp [h]
      rw [if_neg ne, if_neg hs, ih hs]
      simp

theorem intercalate_eq_nil {c : UInt8} {ls : List (List UInt8)} (h : ∀ e ∈ ls, e ≠ []) :
    [c].intercalate ls = [] ↔ ls = [] := by
  refine ⟨fun empty => ?_, fun none => by rw [none, List.intercalate_nil]⟩
  cases ls using List.reverseRecOn with
  | nil => rfl
  | append_singleton ls e =>
    rw [intercalate_concat] at empty
    exact absurd (List.append_eq_nil_iff.mp (List.append_eq_nil_iff.mp empty).2).2 (h e (by simp))

theorem head_intercalate (c : UInt8) (e : List UInt8) (ls : List (List UInt8)) :
    e <+: [c].intercalate (e :: ls) := by
  cases ls with
  | nil => rw [List.intercalate_singleton]
  | cons l ls =>
    rw [List.intercalate_cons_cons, List.append_assoc]
    exact List.prefix_append _ _

namespace Place

variable {r : Bool} {p : Place} {e : List UInt8}

structure Sound (r : Bool) (p : Place) : Prop where
  names : ∀ e ∈ p.down, Name e
  root : r = true → p.up = 0

theorem Sound.nonempty (h : p.Sound r) : ∀ e ∈ p.names, e ≠ [] := by
  intro e he
  rcases List.mem_append.mp he with he | he
  · rw [List.eq_of_mem_replicate he]
    decide
  · exact (h.names e he).nonempty

theorem text_concat {q : Place} (h : q.names = p.names ++ [e]) :
    q.text r = p.text r ++ ((if p.names = [] then [] else [separator]) ++ e) := by
  rw [text, h, intercalate_concat, text, List.append_assoc]

theorem Sound.first_iff (h : p.Sound r) :
    (r = true ∧ (p.text r).reverse.length ≠ 1 ∨ ¬r = true ∧ (p.text r).reverse.length ≠ 0) ↔
      p.names ≠ [] := by
  have nil : ([separator].intercalate p.names).length ≠ 0 ↔ p.names ≠ [] :=
    List.length_eq_zero_iff.not.trans (intercalate_eq_nil h.nonempty).not
  rw [← nil, text, List.length_reverse, List.length_append]
  cases r <;> simp

theorem names_concat (up : ℕ) (down : List (List UInt8)) (e : List UInt8) :
    (⟨up, down ++ [e]⟩ : Place).names = (⟨up, down⟩ : Place).names ++ [e] :=
  (List.append_assoc _ _ _).symm

theorem base_le (r : Bool) (up : ℕ) (down : List (List UInt8)) :
    (text r ⟨up, []⟩).length ≤ (text r ⟨up, down⟩).length := by
  induction down using List.reverseRecOn with
  | nil => exact le_rfl
  | append_singleton down e ih =>
    rw [text_concat (names_concat up down e), List.length_append]
    exact ih.trans (Nat.le_add_right _ _)

theorem Sound.inside_iff (h : p.Sound r) :
    (text r ⟨p.up, []⟩).length < (p.text r).reverse.length ↔ p.down ≠ [] := by
  obtain ⟨up, down⟩ := p
  rw [List.length_reverse]
  cases down using List.reverseRecOn with
  | nil => simp
  | append_singleton down e =>
    have le := base_le r up down
    have pos := List.length_pos_iff.mpr (h.names e (by simp)).nonempty
    rw [text_concat (names_concat up down e), List.length_append, List.length_append]
    simp only [ne_eq, List.append_eq_nil_iff, List.cons_ne_self, and_false, not_false_eq_true,
      iff_true]
    omega

end Place

theorem backtrack_append {k : ℕ} {e out : List UInt8} (he : e ≠ []) (solid : separator ∉ e)
    (hk : k ≤ out.length) :
    backtrack k (e ++ out) = if k < out.length then backtrack k out else out := by
  induction e with
  | nil => exact absurd rfl he
  | cons c rest ih =>
    rw [List.mem_cons, not_or] at solid
    rw [List.cons_append, backtrack]
    cases rest with
    | nil =>
      rw [List.nil_append]
      simp [Ne.symm solid.1]
    | cons c' rest =>
      have long : (c' :: rest ++ out).length > k := by
        simp only [List.length_append, List.length_cons]
        omega
      rw [if_pos ⟨long, Ne.symm solid.1⟩, ih (List.cons_ne_nil _ _) solid.2]

theorem Place.backtrack_text {r : Bool} {up : ℕ} {down : List (List UInt8)} {e : List UInt8}
    (he : Name e) :
    backtrack (text r ⟨up, []⟩).length (text r ⟨up, down ++ [e]⟩).reverse =
      (text r ⟨up, down⟩).reverse := by
  have ne : e.reverse ≠ [] := fun h => he.nonempty (List.reverse_eq_nil_iff.mp h)
  have solid : separator ∉ e.reverse := fun h => he.solid (List.mem_reverse.mp h)
  have le := base_le r up down
  rw [text_concat (names_concat up down e), List.reverse_append, List.reverse_append,
    List.append_assoc]
  by_cases none : (⟨up, down⟩ : Place).names = []
  · have same : (⟨up, []⟩ : Place) = ⟨up, down⟩ :=
      congrArg (Place.mk up) (List.append_eq_nil_iff.mp none).2.symm
    rw [if_pos none, List.reverse_nil, List.nil_append,
      backtrack_append ne solid (by rw [same, List.length_reverse]), same, List.length_reverse,
      if_neg (lt_irrefl _)]
  · have long : (text r ⟨up, []⟩).length <
        ([separator].reverse ++ (text r ⟨up, down⟩).reverse).length := by
      simp only [List.length_append, List.length_reverse, List.length_singleton]
      omega
    rw [if_neg none, backtrack_append ne solid long.le, if_pos long]
    simp [backtrack]

end Text

section Walk

namespace Place

variable {r : Bool} {p : Place}

theorem walk_cons (r : Bool) (p : Place) (e : List UInt8) (es : List (List UInt8)) :
    p.walk r (e :: es) = (p.step r e).walk r es := rfl

theorem walk_append (r : Bool) (p : Place) (first second : List (List UInt8)) :
    p.walk r (first ++ second) = (p.walk r first).walk r second :=
  List.foldl_append

theorem Sound.step (h : p.Sound r) {e : List UInt8} (he : e ≠ [] ∧ separator ∉ e ∧ e ≠ [dot]) :
    (p.step r e).Sound r := by
  unfold Place.step
  split_ifs with parent inside root
  · exact ⟨fun d hd => h.names d (List.mem_of_mem_dropLast hd), h.root⟩
  · exact h
  · exact ⟨h.names, fun hr => absurd hr root⟩
  · refine ⟨fun d hd => ?_, h.root⟩
    rcases List.mem_append.mp hd with hd | hd
    · exact h.names d hd
    · rw [List.mem_singleton.mp hd]
      exact ⟨he.1, he.2.1, he.2.2, parent⟩

theorem Sound.walk (h : p.Sound r) (path : List UInt8) : (p.walk r (elements path)).Sound r := by
  have all : ∀ e ∈ elements path, e ≠ [] ∧ separator ∉ e ∧ e ≠ [dot] := fun e => mem_elements
  generalize elements path = es at all
  induction es generalizing p with
  | nil => exact h
  | cons e es ih =>
    exact ih (h.step (all e List.mem_cons_self)) fun d hd => all d (List.mem_cons_of_mem _ hd)

theorem root_sound (r : Bool) : (⟨0, []⟩ : Place).Sound r := ⟨by simp, fun _ => rfl⟩

theorem walk_names {es : List (List UInt8)} (h : ∀ e ∈ es, Name e) (down : List (List UInt8)) :
    walk r ⟨0, down⟩ es = ⟨0, down ++ es⟩ := by
  induction es generalizing down with
  | nil => rw [List.append_nil]; rfl
  | cons e es ih =>
    have step : Place.step r ⟨0, down⟩ e = ⟨0, down ++ [e]⟩ :=
      if_neg (h e List.mem_cons_self).ne_dotdot
    rw [walk_cons, step, ih (fun d hd => h d (List.mem_cons_of_mem _ hd)), List.append_assoc]
    rfl

theorem step_parent (dir : List (List UInt8)) :
    Place.step true ⟨0, dir⟩ dotdotName = ⟨0, dir.dropLast⟩ := by
  cases dir with
  | nil => rfl
  | cons e es => rfl

theorem walk_from (dir : List (List UInt8)) (es : List (List UInt8)) :
    walk true ⟨0, dir⟩ es = ⟨0, dir.take (dir.length - (walk false ⟨0, []⟩ es).up) ++
      (walk false ⟨0, []⟩ es).down⟩ := by
  induction es using List.reverseRecOn with
  | nil => simp [walk]
  | append_singleton es e ih =>
    rw [walk_append, walk_append, ih]
    generalize walk false ⟨0, []⟩ es = q
    obtain ⟨up, down⟩ := q
    simp only [walk, List.foldl_cons, List.foldl_nil]
    by_cases parent : e = dotdotName
    · rw [parent, step_parent]
      by_cases inside : down = []
      · have climb : Place.step false ⟨up, down⟩ dotdotName = ⟨up + 1, []⟩ := by rw [inside]; rfl
        rw [climb, inside, List.append_nil, List.append_nil, List.dropLast_eq_take, List.take_take,
          List.length_take]
        congr 2
        simp only
        omega
      · have back : Place.step false ⟨up, down⟩ dotdotName = ⟨up, down.dropLast⟩ := by
          simp [Place.step, inside]
        rw [back, List.dropLast_append_of_ne_nil inside]
    · have enter : ∀ r (q : Place), Place.step r q e = { q with down := q.down ++ [e] } :=
        fun r q => if_neg parent
      rw [enter, enter, List.append_assoc]

end Place

end Walk

section Clean

open Place

theorem takeWhile_solid (rest : List UInt8) : separator ∉ rest.takeWhile (· ≠ separator) := by
  intro h
  simpa using List.mem_takeWhile_imp h

theorem dropWhile_ends (rest : List UInt8) :
    endsElement (rest.dropWhile (· ≠ separator)) = true := by
  cases h : rest.dropWhile (· ≠ separator) with
  | nil => rfl
  | cons c tail =>
    have head := List.head?_dropWhile_not (· ≠ separator) rest
    rw [h] at head
    simpa [endsElement] using head

theorem elements_parent {rest : List UInt8} (h : rest.head? = some dot)
    (ends : endsElement rest.tail = true) :
    elements (dot :: rest) = dotdotName :: elements rest.tail := by
  have split : dot :: rest = dotdotName ++ rest.tail := by
    rw [List.eq_cons_of_mem_head? h]
    rfl
  rw [split, elements_append (by decide) ends]
  rfl

theorem elements_name {c : UInt8} {rest : List UInt8} (hc : c ≠ separator)
    (notDot : ¬(c = dot ∧ endsElement rest = true))
    (notDotdot : ¬(c = dot ∧ rest.head? = some dot ∧ endsElement rest.tail = true)) :
    Name (c :: rest.takeWhile (· ≠ separator)) ∧
      elements (c :: rest) = (c :: rest.takeWhile (· ≠ separator)) ::
        elements (rest.dropWhile (· ≠ separator)) := by
  have solid : separator ∉ c :: rest.takeWhile (· ≠ separator) := by
    rw [List.mem_cons, not_or]
    exact ⟨Ne.symm hc, takeWhile_solid rest⟩
  have split := List.takeWhile_append_dropWhile (p := (· ≠ separator)) (l := rest)
  have ends := dropWhile_ends rest
  have name : Name (c :: rest.takeWhile (· ≠ separator)) := by
    refine ⟨List.cons_ne_nil _ _, solid, fun eq => notDot ?_, fun eq => notDotdot ?_⟩
    · obtain ⟨rfl, none⟩ := List.cons.inj eq
      rw [none, List.nil_append] at split
      exact ⟨rfl, split ▸ ends⟩
    · obtain ⟨rfl, one⟩ := List.cons.inj eq
      rw [one] at split
      rw [← split]
      exact ⟨rfl, rfl, ends⟩
  refine ⟨name, ?_⟩
  have whole := elements_append solid ends
  rw [List.cons_append, split, if_neg (not_or.mpr ⟨name.nonempty, name.ne_dot⟩)] at whole
  exact whole

theorem cleanLoop_eq (r : Bool) (path : List UInt8) (p : Place) (h : p.Sound r) :
    cleanLoop r path (p.text r).reverse (text r ⟨p.up, []⟩).length =
      ((p.walk r (elements path)).text r).reverse := by
  generalize hout : (p.text r).reverse = out
  generalize hbase : (text r ⟨p.up, []⟩).length = base
  fun_induction cleanLoop r path out base generalizing p with
  | case1 out base =>
    rw [← hout]
    rfl
  | case2 out base rest ih => rw [elements_separator, ih p h hout hbase]
  | case3 out base c rest hc ends ih =>
    have skip : elements (c :: rest) = elements rest := by
      rw [ends.1]
      exact elements_append (e := [dot]) (by decide) ends.2
    rw [skip, ih p h hout hbase]
  | case4 out base c rest hc notDot parent inside ih =>
    -- `..` takes the name back that was written last
    obtain ⟨up, down⟩ := p
    rw [parent.1, elements_parent parent.2.1 parent.2.2, walk_cons]
    rw [← hout, ← hbase] at inside
    have ne := h.inside_iff.mp inside
    have back : Place.step r ⟨up, down⟩ dotdotName = ⟨up, down.dropLast⟩ := by
      simp [Place.step, ne]
    have sound : (⟨up, down.dropLast⟩ : Place).Sound r :=
      ⟨fun d hd => h.names d (List.mem_of_mem_dropLast hd), h.root⟩
    have text : (Place.text r ⟨up, down.dropLast⟩).reverse = backtrack base out := by
      have last := @backtrack_text r up down.dropLast _ (h.names _ (List.getLast_mem ne))
      rw [List.dropLast_append_getLast ne] at last
      rw [← hout, ← hbase]
      exact last.symm
    rw [back]
    exact ih _ sound text hbase
  | case5 out base c rest hc notDot parent top root ih =>
    -- above the root is the root
    rw [parent.1, elements_parent parent.2.1 parent.2.2, walk_cons]
    rw [← hout, ← hbase] at top
    have empty : p.down = [] := not_not.mp fun ne => top (h.inside_iff.mpr ne)
    have stay : p.step r dotdotName = p := by simp [Place.step, empty, root]
    rw [stay]
    exact ih p h hout hbase
  | case6 out base c rest hc notDot parent top root out' ih =>
    -- a relative path keeps the `..` it begins with
    obtain ⟨up, down⟩ := p
    rw [parent.1, elements_parent parent.2.1 parent.2.2, walk_cons]
    rw [← hout, ← hbase] at top
    have empty : down = [] := not_not.mp fun ne => top (h.inside_iff.mpr ne)
    have unrooted : r = false := Bool.eq_false_of_not_eq_true root
    have climb : Place.step r ⟨up, down⟩ dotdotName = ⟨up + 1, []⟩ := by
      simp [Place.step, empty, root]
    have concat : (⟨up + 1, []⟩ : Place).names = (⟨up, down⟩ : Place).names ++ [dotdotName] := by
      simp [names, empty, List.replicate_succ']
    have first : (text r ⟨up, down⟩).reverse.length > 0 ↔ (⟨up, down⟩ : Place).names ≠ [] := by
      rw [← h.first_iff, unrooted]
      simp [Nat.pos_iff_ne_zero]
    have text : (text r ⟨up + 1, []⟩).reverse = out' := by
      rw [text_concat concat, List.reverse_append, List.reverse_append, List.append_assoc, hout]
      rw [hout] at first
      by_cases none : (⟨up, down⟩ : Place).names = []
      · rw [if_pos none]
        have short : ¬out.length > 0 := fun pos => first.mp pos none
        simp [out', short, dotdotName]
      · rw [if_neg none]
        simp [out', first.mpr none, dotdotName]
    rw [climb]
    exact ih _ ⟨by simp, fun hr => absurd hr root⟩ text (by rw [← text, List.length_reverse])
  | case7 out base c rest hc notDot notDotdot out' ih =>
    obtain ⟨up, down⟩ := p
    obtain ⟨name, split⟩ := elements_name hc notDot notDotdot
    have enter : Place.step r ⟨up, down⟩ (c :: rest.takeWhile (· ≠ separator)) =
        ⟨up, down ++ [c :: rest.takeWhile (· ≠ separator)]⟩ := if_neg name.ne_dotdot
    have sound := h.step ⟨name.nonempty, name.solid, name.ne_dot⟩
    rw [enter] at sound
    have first := h.first_iff
    rw [hout] at first
    have buffer : out' = (if (⟨up, down⟩ : Place).names = [] then [] else [separator]).reverse ++
      out := by
      by_cases none : (⟨up, down⟩ : Place).names = []
      · rw [if_pos none]
        exact if_neg fun some => first.mp some none
      · rw [if_neg none]
        exact if_pos (first.mpr none)
    rw [split, walk_cons, enter]
    refine ih _ sound ?_ hbase
    rw [text_concat (names_concat up down _), List.reverse_append, List.reverse_append,
      List.append_assoc, hout, buffer]

theorem text_root (p : Place) : p.text true ≠ [] := List.cons_ne_nil _ _

theorem clean_eq (path : List UInt8) :
    clean path = (walk (rooted path) ⟨0, []⟩ (elements path)).render (rooted path) := by
  have result : ∀ text : List UInt8,
      (if text.reverse = [] then [dot] else text.reverse.reverse) =
        if text = [] then [dot] else text := fun text => by
    simp only [List.reverse_eq_nil_iff, List.reverse_reverse]
  cases hr : rooted path with
  | false =>
    have loop := cleanLoop_eq false path ⟨0, []⟩ (root_sound false)
    have start : (text false ⟨0, []⟩).reverse = [] ∧ (text false ⟨0, []⟩).length = 0 := by decide
    rw [start.1, start.2] at loop
    rw [clean, hr, if_neg Bool.false_ne_true, loop]
    exact result _
  | true =>
    have loop := cleanLoop_eq true path.tail ⟨0, []⟩ (root_sound true)
    have start : (text true ⟨0, []⟩).reverse = [separator] ∧ (text true ⟨0, []⟩).length = 1 := by
      decide
    have same : elements path.tail = elements path := by
      cases path with
      | nil => cases hr
      | cons c rest =>
        have hc : c = separator := by simpa [rooted] using hr
        rw [hc, elements_separator, List.tail_cons]
    rw [start.1, start.2, same] at loop
    rw [clean, hr, if_pos rfl, loop]
    exact result _

end Clean

/-- The directory itself or lexically below it. -/
def Below (dir path : List UInt8) : Prop :=
  path = dir ∨ dir ++ [separator] <+: path ∨ (dir = [separator] ∧ rooted path = true)

instance (dir path : List UInt8) : Decidable (Below dir path) :=
  inferInstanceAs (Decidable (_ ∨ _ ∨ _))

/-- An absolute path that `Clean` leaves as it is. -/
structure AbsClean (dir : List UInt8) : Prop where
  root : rooted dir = true
  clean : clean dir = dir

/-- Where the elements of a path lead from a directory that is not the root. -/
def climb (path : List UInt8) : Place := Place.walk false ⟨0, []⟩ (elements path)

section Below

open Place

theorem AbsClean.eq_text {dir : List UInt8} (h : AbsClean dir) :
    (∀ e ∈ elements dir, Name e) ∧ dir = text true ⟨0, elements dir⟩ := by
  have sound := (root_sound true).walk dir
  have text : dir = (walk true ⟨0, []⟩ (elements dir)).text true := by
    have eq := clean_eq dir
    rw [h.clean, h.root, render, if_neg (text_root _)] at eq
    exact eq
  generalize walk true ⟨0, []⟩ (elements dir) = p at sound text
  obtain ⟨up, down⟩ := p
  obtain rfl : up = 0 := sound.root rfl
  have same : elements dir = down := by
    rw [text]
    exact (elements_separator _).trans (elements_eq_self sound.names)
  rw [same]
  exact ⟨sound.names, text⟩

theorem join_eq {dir : List UInt8} (h : AbsClean dir) (path : List UInt8) :
    join [dir, path] = text true (walk true ⟨0, elements dir⟩ (elements path)) := by
  obtain ⟨names, -⟩ := h.eq_text
  have root : rooted (dir ++ separator :: path) = true := by
    cases hd : dir with
    | nil => rfl
    | cons c rest =>
      have := h.root
      rw [hd] at this
      exact this
  have ne : dir ≠ [] := fun none => by
    have := h.root
    rw [none] at this
    cases this
  have two : [separator].intercalate [dir, path] = dir ++ separator :: path := by
    rw [List.intercalate_cons_cons, List.intercalate_singleton, List.append_assoc]
    rfl
  rw [join, if_neg ne, two, clean_eq, root, render, if_neg (text_root _), elements_append_separator,
    walk_append, walk_names names, List.nil_append]

theorem below_iff {dir path : List (List UInt8)} (hd : ∀ e ∈ dir, Name e)
    (hp : ∀ e ∈ path, Name e) :
    Below (text true ⟨0, dir⟩) (text true ⟨0, path⟩) ↔ dir <+: path := by
  have elements_text : ∀ {es : List (List UInt8)}, (∀ e ∈ es, Name e) →
      elements (text true ⟨0, es⟩) = es := fun hes =>
    (elements_separator _).trans (elements_eq_self hes)
  constructor
  · rintro (same | ⟨rest, below⟩ | ⟨root, -⟩)
    · have := congrArg elements same
      rw [elements_text hd, elements_text hp] at this
      rw [this]
    · have := congrArg elements below
      rw [List.append_assoc, List.singleton_append, elements_append_separator, elements_text hd,
        elements_text hp] at this
      exact ⟨_, this⟩
    · have := congrArg elements root
      rw [elements_text hd] at this
      rw [this]
      exact List.nil_prefix
  · rintro ⟨rest, rfl⟩
    by_cases none : dir = []
    · rw [none]
      exact .inr (.inr ⟨rfl, rfl⟩)
    · by_cases same : rest = []
      · rw [same, List.append_nil]
        exact .inl rfl
      · refine .inr (.inl ⟨[separator].intercalate rest, ?_⟩)
        simp [text, names, intercalate_append separator none same]

theorem join_below_iff {dir : List UInt8} (h : AbsClean dir) (path : List UInt8) :
    Below dir (join [dir, path]) ↔
      (elements dir).drop ((elements dir).length - (climb path).up) <+: (climb path).down := by
  obtain ⟨names, text⟩ := h.eq_text
  have sound := (⟨names, fun _ => rfl⟩ : Sound true ⟨0, elements dir⟩).walk path
  rw [join_eq h]
  rw [walk_from] at sound ⊢
  nth_rewrite 1 [text]
  rw [below_iff names sound.names]
  nth_rewrite 1 [← List.take_append_drop ((elements dir).length - (climb path).up) (elements dir)]
  exact List.prefix_append_right_inj _

theorem climb_up {path : List UInt8} (relative : rooted path = false)
    (h : ¬dotdotName <:+: clean path) : (climb path).up = 0 := by
  by_contra up
  refine h ?_
  have names : (climb path).names = dotdotName ::
      (List.replicate ((climb path).up - 1) dotdotName ++ (climb path).down) := by
    rw [Place.names, ← List.cons_append, ← List.replicate_succ, Nat.sub_add_cancel (by omega)]
  have first : dotdotName <+: (climb path).text false := by
    rw [text, names]
    exact head_intercalate _ _ _
  have ne : (climb path).text false ≠ [] := fun none => by
    rw [none] at first
    exact absurd (List.prefix_nil.mp first) (by decide)
  have cleaned : clean path = (climb path).text false := by
    rw [clean_eq, relative]
    exact if_neg ne
  rw [cleaned]
  exact first.isInfix

theorem elements_render {r : Bool} {down : List (List UInt8)} (h : Sound r ⟨0, down⟩) :
    elements (render r ⟨0, down⟩) = down := by
  have body := elements_eq_self h.names
  cases r with
  | true =>
    exact (congrArg elements (if_neg (text_root _))).trans ((elements_separator _).trans body)
  | false =>
    by_cases none : text false ⟨0, down⟩ = []
    · have empty : down = [] := (intercalate_eq_nil h.nonempty).mp none
      rw [empty]
      decide
    · exact (congrArg elements (if_neg none)).trans body

theorem climb_clean {path : List UInt8} (h : ¬dotdotName <:+: clean path) :
    (climb (clean path)).up = 0 := by
  have sound := (root_sound (rooted path)).walk path
  have up : (walk (rooted path) ⟨0, []⟩ (elements path)).up = 0 := by
    cases hr : rooted path with
    | true => exact (hr ▸ sound).root rfl
    | false => exact climb_up hr h
  rw [climb, clean_eq]
  generalize walk (rooted path) ⟨0, []⟩ (elements path) = p at sound up
  obtain ⟨levels, down⟩ := p
  obtain rfl : levels = 0 := up
  rw [elements_render sound, walk_names sound.names]

end Below

section Names

open Place

theorem infix_append_cons {w a b : List UInt8} {c : UInt8} (hc : c ∉ w) :
    w <:+: a ++ c :: b ↔ w <:+: a ∨ w <:+: b := by
  constructor
  · rintro ⟨s, t, h⟩
    rcases List.append_eq_append_iff.mp h with ⟨a', ha, -⟩ | ⟨rest, hs, hb⟩
    · exact .inl ⟨s, a', ha.symm⟩
    · cases rest with
      | nil =>
        refine .inl ⟨s, [], ?_⟩
        rw [List.append_nil, hs, List.append_nil]
      | cons d rest =>
        obtain ⟨rfl, rfl⟩ := List.cons.inj hb
        rcases List.append_eq_append_iff.mp hs with ⟨a', -, hw⟩ | ⟨s', -, hw⟩
        · exact absurd (by simp [hw]) hc
        · cases s' with
          | nil =>
            rw [List.nil_append] at hw
            exact absurd (hw ▸ List.mem_cons_self) hc
          | cons d' s' =>
            obtain ⟨rfl, rfl⟩ := List.cons.inj hw
            exact .inr ⟨s', t, rfl⟩
  · rintro (⟨s, t, rfl⟩ | ⟨s, t, rfl⟩)
    · exact ⟨s, t ++ c :: b, by simp⟩
    · exact ⟨a ++ c :: s, t, by simp⟩

theorem infix_intercalate {w : List UInt8} {c : UInt8} (hc : c ∉ w) (ne : w ≠ [])
    (ls : List (List UInt8)) : w <:+: [c].intercalate ls ↔ ∃ e ∈ ls, w <:+: e := by
  induction ls with
  | nil => simp [ne]
  | cons e rest ih =>
    cases rest with
    | nil => simp
    | cons e' rest =>
      rw [List.intercalate_cons_cons, List.append_assoc, List.singleton_append,
        infix_append_cons hc, ih]
      simp only [List.mem_cons, exists_eq_or_imp]

theorem rooted_text {r : Bool} {names : List (List UInt8)} (h : ∀ e ∈ names, Name e)
    (ne : names ≠ []) : rooted (text r ⟨0, names⟩) = r := by
  cases r with
  | true => rfl
  | false =>
    obtain ⟨e, rest, rfl⟩ := List.exists_cons_of_ne_nil ne
    have name := h e List.mem_cons_self
    obtain ⟨c, e', rfl⟩ := List.exists_cons_of_ne_nil name.nonempty
    obtain ⟨t, ht⟩ := head_intercalate separator (c :: e') rest
    have text : text false ⟨0, (c :: e') :: rest⟩ = c :: (e' ++ t) := ht.symm
    rw [text, rooted, beq_eq_false_iff_ne]
    exact fun eq => name.solid (eq ▸ List.mem_cons_self)

theorem clean_names {r : Bool} {names : List (List UInt8)} (h : ∀ e ∈ names, Name e)
    (ne : names ≠ []) : clean (text r ⟨0, names⟩) = text r ⟨0, names⟩ := by
  have sound : Sound r ⟨0, names⟩ := ⟨h, fun _ => rfl⟩
  have nonempty : text r ⟨0, names⟩ ≠ [] := fun empty =>
    ne ((intercalate_eq_nil sound.nonempty).mp (List.append_eq_nil_iff.mp empty).2)
  have rendered : render r ⟨0, names⟩ = text r ⟨0, names⟩ := if_neg nonempty
  have elems := elements_render sound
  rw [rendered] at elems
  rw [clean_eq, rooted_text h ne, elems, walk_names h, List.nil_append, rendered]

end Names

end Filepath
