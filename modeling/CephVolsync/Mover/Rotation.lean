import CephVolsync.Library.TransitionSystem
import CephVolsync.Mover.Snapshots

/-! The snapshots over the iterations of a source mover with the Snapshot copy method.
`Synchronize` creates a snapshot labelled current and runs a Job on it; when the Job has
succeeded, `Cleanup` (`internal/mover/ceph/mover.go`) rotates the labels and deletes what is
marked. `Cleanup` is taken apart into its calls of the API: each of them can fail, and then
`Cleanup` is called again from its beginning. -/

namespace CephVolsync.Mover

open TransitionSystem

/-- Where `Cleanup` stands: before it lists the previous snapshots, before it has marked
these, before it lists the current ones, before it relabels this one, and in
`CleanupObjects`, which lists the marked snapshots and deletes these. -/
inductive CleanupPC where
  | start
  | mark (todo : List Snapshot)
  | find
  | relabel (snap : Snapshot)
  | listMarked
  | delete (todo : List GoString)
  deriving DecidableEq, Repr

inductive Phase where
  | synchronizing
  | cleanup (pc : CleanupPC)
  deriving DecidableEq, Repr

/-- The snapshots, the phase of the mover, the names of the snapshots that were relabelled
previous in this order, and the time of the last creation. -/
structure Iterations where
  snapshots : Snapshots
  phase : Phase
  synced : List GoString
  clock : ℕ

/-- `list` is the answer to a `List`, `call` any other step of `Cleanup`, and `fail` the
failure of a call. `CleanupObjects` does not delete what carries the label that forbids it: with
`spare` it lets such a snapshot go, and may take its mark off. -/
inductive MoverAction where
  | create (name : GoString) (creationTimestamp : ℕ)
  | ready (name contentName snapshotHandle : GoString)
  | complete
  | list (items : List Snapshot)
  | call
  | spare (marked : Bool)
  | fail
  deriving DecidableEq, Repr

namespace Iterations

def start : Iterations := ⟨.empty, .synchronizing, [], 0⟩

/-- `ensurePVCFromSrcWithStatusLabels` creates a snapshot if there is no current one. Its name
contains the time, so that no name is used twice. -/
def create (s : Iterations) (name : GoString) (time : ℕ) : Option Iterations :=
  if fresh : name ∉ s.snapshots.items.map (·.name) then
    if s.phase = .synchronizing ∧ s.snapshots.withStatus .current = [] ∧ s.clock < time ∧
        name ∉ s.synced then
      some { s with
        snapshots := s.snapshots.create ⟨name, time, some .current, false, false, none⟩ fresh
        clock := time }
    else none
  else none

/-- The CSI driver has taken the snapshot that `Synchronize` waits for, and has given it a
handle of its own. -/
def ready (s : Iterations) (name contentName handle : GoString) : Option Iterations :=
  match s.snapshots.get name with
  | none => none
  | some snap =>
    if s.phase = .synchronizing ∧ snap.readyToUse = false ∧
        ∀ t ∈ s.snapshots.items, t.handle ≠ some handle then
      let snap := { snap with readyToUse := true, content := some ⟨contentName, some handle⟩ }
      some { s with snapshots := s.snapshots.update snap }
    else none

def complete (s : Iterations) : Option Iterations :=
  if s.phase = .synchronizing ∧ ∃ c ∈ s.snapshots.withStatus .current, c.handle.isSome = true then
    some { s with phase := .cleanup .start }
  else none

def list (s : Iterations) (items : List Snapshot) : CleanupPC → Option Iterations
  | .start =>
    if items.Perm (s.snapshots.withStatus .previous) then
      some { s with phase := .cleanup (.mark (superseded items)) }
    else none
  | .find =>
    if items.Perm (s.snapshots.withStatus .current) then
      match items with
      | [] => some { s with phase := .cleanup .listMarked }
      | currentSnap :: _ => some { s with phase := .cleanup (.relabel currentSnap) }
    else none
  | .listMarked =>
    if items.Perm s.snapshots.marked then
      some { s with phase := .cleanup (.delete (items.map (·.name))) }
    else none
  | _ => none

def call (s : Iterations) : CleanupPC → Option Iterations
  | .mark [] => some { s with phase := .cleanup .find }
  | .mark (snap :: todo) =>
    let (updated, snap) := snap.supersede
    some { s with
      snapshots := if updated then s.snapshots.update snap else s.snapshots
      phase := .cleanup (.mark todo) }
  | .relabel snap =>
    let (updated, snap) := snap.addLabel .previous
    some { s with
      snapshots := if updated then s.snapshots.update snap else s.snapshots
      phase := .cleanup .listMarked
      synced := s.synced ++ [snap.name] }
  | .delete (name :: todo) =>
    some { s with snapshots := s.snapshots.delete name, phase := .cleanup (.delete todo) }
  | .delete [] => some { s with phase := .synchronizing }
  | _ => none

def spare (s : Iterations) (marked : Bool) : CleanupPC → Option Iterations
  | .delete (name :: todo) => (s.snapshots.get name).map fun snap => { s with
      snapshots := s.snapshots.update { snap with cleanup := snap.cleanup && marked }
      phase := .cleanup (.delete todo) }
  | _ => none

def step (s : Iterations) : MoverAction → Option Iterations
  | .create name time => s.create name time
  | .ready name contentName handle => s.ready name contentName handle
  | .complete => s.complete
  | .list items =>
    match s.phase with
    | .cleanup pc => s.list items pc
    | .synchronizing => none
  | .call =>
    match s.phase with
    | .cleanup pc => s.call pc
    | .synchronizing => none
  | .spare marked =>
    match s.phase with
    | .cleanup pc => s.spare marked pc
    | .synchronizing => none
  | .fail =>
    match s.phase with
    | .cleanup _ => some { s with phase := .cleanup .start }
    | .synchronizing => none

inductive Step (s : Iterations) : MoverAction → Iterations → Prop
  | create {name : GoString} {time : ℕ} (fresh : name ∉ s.snapshots.items.map (·.name)) :
      s.phase = .synchronizing → s.snapshots.withStatus .current = [] → s.clock < time →
      name ∉ s.synced → Step s (.create name time) { s with
        snapshots := s.snapshots.create ⟨name, time, some .current, false, false, none⟩ fresh
        clock := time }
  | ready {contentName handle : GoString} {snap : Snapshot} : s.phase = .synchronizing →
      snap ∈ s.snapshots.items → snap.readyToUse = false →
        (∀ t ∈ s.snapshots.items, t.handle ≠ some handle) →
      Step s (.ready snap.name contentName handle) ⟨s.snapshots.update
        { snap with readyToUse := true, content := some ⟨contentName, some handle⟩ },
        s.phase, s.synced, s.clock⟩
  | complete {c : Snapshot} : s.phase = .synchronizing → c ∈ s.snapshots.withStatus .current →
      c.handle.isSome = true → Step s .complete { s with phase := .cleanup .start }
  | listed {items : List Snapshot} : s.phase = .cleanup .start →
      items.Perm (s.snapshots.withStatus .previous) →
      Step s (.list items) { s with phase := .cleanup (.mark (superseded items)) }
  | none : s.phase = .cleanup .find → s.snapshots.withStatus .current = [] →
      Step s (.list []) { s with phase := .cleanup .listMarked }
  | found {snap : Snapshot} {rest : List Snapshot} : s.phase = .cleanup .find →
      snap ∈ s.snapshots.withStatus .current →
      Step s (.list (snap :: rest)) { s with phase := .cleanup (.relabel snap) }
  | listedMarked {items : List Snapshot} : s.phase = .cleanup .listMarked →
      items.Perm s.snapshots.marked →
      Step s (.list items) { s with phase := .cleanup (.delete (items.map (·.name))) }
  | marked : s.phase = .cleanup (.mark []) → Step s .call { s with phase := .cleanup .find }
  | mark {snap : Snapshot} {todo : List Snapshot} : s.phase = .cleanup (.mark (snap :: todo)) →
      Step s .call { s with
        snapshots := if snap.supersede.1 then s.snapshots.update snap.supersede.2 else s.snapshots
        phase := .cleanup (.mark todo) }
  | relabel {snap : Snapshot} : s.phase = .cleanup (.relabel snap) →
      Step s .call { s with
        snapshots := if (snap.addLabel .previous).1 then
          s.snapshots.update (snap.addLabel .previous).2 else s.snapshots
        phase := .cleanup .listMarked
        synced := s.synced ++ [snap.name] }
  | delete {name : GoString} {todo : List GoString} : s.phase = .cleanup (.delete (name :: todo)) →
      Step s .call { s with
        snapshots := s.snapshots.delete name, phase := .cleanup (.delete todo) }
  | spare {snap : Snapshot} {todo : List GoString} {marked : Bool} :
      s.phase = .cleanup (.delete (snap.name :: todo)) → snap ∈ s.snapshots.items →
      Step s (.spare marked) ⟨s.snapshots.update { snap with cleanup := snap.cleanup && marked },
        .cleanup (.delete todo), s.synced, s.clock⟩
  | deleted : s.phase = .cleanup (.delete []) → Step s .call { s with phase := .synchronizing }
  | fail {pc : CleanupPC} : s.phase = .cleanup pc → Step s .fail { s with phase := .cleanup .start }

theorem step_cases {s s' : Iterations} {a : MoverAction} (h : s.step a = some s') :
    Step s a s' := by
  cases a with
  | create name time =>
    simp only [step, Iterations.create] at h
    split_ifs at h with fresh cond
    cases h
    exact .create fresh cond.1 cond.2.1 cond.2.2.1 cond.2.2.2
  | ready name contentName handle =>
    simp only [step, Iterations.ready] at h
    split at h
    · cases h
    · rename_i snap found
      split_ifs at h with cond
      cases h
      obtain ⟨mem, rfl⟩ := KeyedStore.mem_of_get found
      exact .ready cond.1 mem cond.2.1 cond.2.2
  | complete =>
    simp only [step, Iterations.complete] at h
    split_ifs at h with cond
    cases h
    obtain ⟨phase, c, hc, handle⟩ := cond
    exact .complete phase hc handle
  | list items =>
    simp only [step] at h
    cases hp : s.phase with
    | synchronizing =>
      rw [hp] at h
      cases h
    | cleanup pc =>
      rw [hp] at h
      cases pc with
      | start =>
        simp only [Iterations.list] at h
        split_ifs at h with perm
        cases h
        exact .listed hp perm
      | find =>
        simp only [Iterations.list] at h
        split_ifs at h with perm
        cases items with
        | nil =>
          cases h
          exact .none hp (List.nil_perm.mp perm)
        | cons snap rest =>
          cases h
          exact .found hp (perm.subset List.mem_cons_self)
      | listMarked =>
        simp only [Iterations.list] at h
        split_ifs at h with perm
        cases h
        exact .listedMarked hp perm
      | mark | relabel | delete => cases h
  | call =>
    simp only [step] at h
    cases hp : s.phase with
    | synchronizing =>
      rw [hp] at h
      cases h
    | cleanup pc =>
      rw [hp] at h
      cases pc with
      | start | find | listMarked => cases h
      | mark todo =>
        cases todo with
        | nil =>
          cases h
          exact .marked hp
        | cons snap todo =>
          cases h
          exact .mark hp
      | relabel snap =>
        cases h
        exact .relabel hp
      | delete todo =>
        cases todo with
        | nil =>
          cases h
          exact .deleted hp
        | cons name todo =>
          cases h
          exact .delete hp
  | spare marked =>
    simp only [step] at h
    cases hp : s.phase with
    | synchronizing =>
      rw [hp] at h
      cases h
    | cleanup pc =>
      rw [hp] at h
      cases pc with
      | start | find | listMarked | mark | relabel => cases h
      | delete todo =>
        cases todo with
        | nil => cases h
        | cons name todo =>
          obtain ⟨snap, found, rfl⟩ := Option.map_eq_some_iff.mp h
          obtain ⟨mem, rfl⟩ := KeyedStore.mem_of_get found
          exact .spare hp mem
  | fail =>
    simp only [step] at h
    cases hp : s.phase with
    | synchronizing =>
      rw [hp] at h
      cases h
    | cleanup pc =>
      rw [hp] at h
      cases h
      exact .fail hp

/-- The snapshot relabelled last is among the snapshots, is previous and not marked, and no
previous one is newer. -/
def Kept (s : Iterations) (last : Snapshot) : Prop :=
  last ∈ s.snapshots.items ∧ last.status = some .previous ∧ last.cleanup = false ∧
    ∀ t ∈ s.snapshots.items, t.status = some .previous →
      t.creationTimestamp ≤ last.creationTimestamp

def CleanupPC.Sound (s : Iterations) : CleanupPC → Prop
  | .mark todo => (todo.map (·.name)).Nodup ∧ ∀ t ∈ todo, t ∈ s.snapshots.items ∧
      t.status = some .previous ∧ s.synced.getLast? ≠ some t.name
  | .relabel snap => snap ∈ s.snapshots.items ∧ snap.status = some .current
  | .delete todo => ∀ name ∈ todo, s.synced.getLast? ≠ some name
  | _ => True

structure Sound (s : Iterations) : Prop where
  times : ∀ t ∈ s.snapshots.items, t.creationTimestamp ≤ s.clock
  distinct : ∀ t ∈ s.snapshots.items, ∀ u ∈ s.snapshots.items,
    t.creationTimestamp = u.creationTimestamp → t = u
  current : ∀ c ∈ s.snapshots.items, c.status = some .current → c.cleanup = false ∧
    ∀ t ∈ s.snapshots.items, t ≠ c → t.creationTimestamp < c.creationTimestamp
  last : ∀ name, s.synced.getLast? = some name → ∃ t, t.name = name ∧ s.Kept t
  phase : ∀ pc, s.phase = .cleanup pc → CleanupPC.Sound s pc

variable {s s' : Iterations}

theorem Sound.replace_times (h : s.Sound) {old : Snapshot} (new : Snapshot)
    (mem : old ∈ s.snapshots.items) (name : new.name = old.name)
    (time : new.creationTimestamp = old.creationTimestamp) :
    (∀ t ∈ (s.snapshots.update new).items, t.creationTimestamp ≤ s.clock) ∧
    ∀ t ∈ (s.snapshots.update new).items, ∀ u ∈ (s.snapshots.update new).items,
      t.creationTimestamp = u.creationTimestamp → t = u := by
  have members := fun {t} => KeyedStore.mem_update_of_mem (b := t) new mem name
  refine ⟨fun t ht => ?_, fun t ht u hu eq => ?_⟩
  · rcases members.mp ht with ⟨ht, -⟩ | rfl
    · exact h.times t ht
    · rw [time]
      exact h.times old mem
  · rcases members.mp ht with ⟨ht, hto⟩ | rfl <;> rcases members.mp hu with ⟨hu, huo⟩ | hu
    · exact h.distinct t ht u hu eq
    · rw [hu, time] at eq
      exact absurd (h.distinct t ht old mem eq) hto
    · exact absurd (h.distinct u hu old mem (eq.symm.trans time)) huo
    · exact hu.symm

theorem Sound.create (h : s.Sound) {name : GoString} {time : ℕ}
    (fresh : name ∉ s.snapshots.items.map (·.name)) (phase : s.phase = .synchronizing)
    (none : s.snapshots.withStatus .current = []) (later : s.clock < time) :
    Sound { s with
      snapshots := s.snapshots.create ⟨name, time, some .current, false, false, Option.none⟩ fresh
      clock := time } := by
  have members := fun {t} => @KeyedStore.mem_create _ _ _ s.snapshots
    ⟨name, time, some .current, false, false, Option.none⟩ t fresh
  have old : ∀ t ∈ s.snapshots.items, t.creationTimestamp < time := fun t ht =>
    (h.times t ht).trans_lt later
  have uncurrent : ∀ t ∈ s.snapshots.items, t.status ≠ some .current := fun t ht hc => by
    have mem := Snapshots.mem_withStatus.mpr ⟨ht, hc⟩
    rw [none] at mem
    cases mem
  refine ⟨fun t ht => ?_, fun t ht u hu eq => ?_, fun c hc status => ?_, fun last hl => ?_, ?_⟩
  · rcases members.mp ht with ht | rfl
    · exact (old t ht).le
    · exact le_rfl
  · rcases members.mp ht with ht | rfl <;> rcases members.mp hu with hu | rfl
    · exact h.distinct t ht u hu eq
    · exact absurd eq (old t ht).ne
    · exact absurd eq.symm (old u hu).ne
    · rfl
  · rcases members.mp hc with hc | rfl
    · exact absurd status (uncurrent c hc)
    · refine ⟨rfl, fun t ht hne => old t ((members.mp ht).resolve_right hne)⟩
  · obtain ⟨t, ht, mem, status, cleanup, newest⟩ := h.last last hl
    refine ⟨t, ht, members.mpr (.inl mem), status, cleanup, fun u hu hs => ?_⟩
    rcases members.mp hu with hu | rfl
    · exact newest u hu hs
    · cases hs
  · intro pc hp
    rw [phase] at hp
    cases hp

theorem Sound.replace (h : s.Sound) {old : Snapshot} (new : Snapshot)
    (mem : old ∈ s.snapshots.items)
    (name : new.name = old.name) (time : new.creationTimestamp = old.creationTimestamp)
    (previous : new.status = some .previous → old.status = some .previous)
    (current : new.status = some .current → old.status = some .current ∧ new.cleanup = old.cleanup)
    (same : s.synced.getLast? = some old.name →
      new.status = old.status ∧ new.cleanup = old.cleanup)
    {phase : Phase} (pcs : ∀ pc, phase = .cleanup pc →
      CleanupPC.Sound { s with snapshots := s.snapshots.update new, phase := phase } pc) :
    Sound { s with snapshots := s.snapshots.update new, phase := phase } := by
  have members := fun {t} => KeyedStore.mem_update_of_mem (b := t) new mem name
  obtain ⟨times, distinct⟩ := h.replace_times new mem name time
  refine ⟨times, distinct, fun c hc status => ?_, fun last hl => ?_, pcs⟩
  · rcases members.mp hc with ⟨hc, hco⟩ | rfl
    · obtain ⟨cleanup, newest⟩ := h.current c hc status
      refine ⟨cleanup, fun t ht hne => ?_⟩
      rcases members.mp ht with ⟨ht, -⟩ | rfl
      · exact newest t ht hne
      · rw [time]
        exact newest old mem (Ne.symm hco)
    · obtain ⟨status, cleanup⟩ := current status
      obtain ⟨unmarked, newest⟩ := h.current old mem status
      refine ⟨cleanup.trans unmarked, fun t ht hne => ?_⟩
      obtain ⟨ht, hto⟩ := (members.mp ht).resolve_right hne
      rw [time]
      exact newest t ht hto
  · obtain ⟨t, ht, kept, status, cleanup, newest⟩ := h.last last hl
    have older : ∀ u ∈ (s.snapshots.update new).items, u.status = some .previous →
        u.creationTimestamp ≤ t.creationTimestamp := by
      intro u hu hs
      rcases members.mp hu with ⟨hu, -⟩ | rfl
      · exact newest u hu hs
      · rw [time]
        exact newest old mem (previous hs)
    by_cases eq : t = old
    · subst eq
      obtain ⟨sameStatus, sameCleanup⟩ := same (hl.trans (congrArg some ht.symm))
      refine ⟨new, name.trans ht, members.mpr (.inr rfl), sameStatus.trans status,
        sameCleanup.trans cleanup, fun u hu hs => ?_⟩
      rw [time]
      exact older u hu hs
    · exact ⟨t, ht, members.mpr (.inl ⟨kept, eq⟩), status, cleanup, older⟩

theorem Sound.unique_current (h : s.Sound) {c d : Snapshot} (hc : c ∈ s.snapshots.items)
    (hd : d ∈ s.snapshots.items) (current : c.status = some .current)
    (current' : d.status = some .current) : c = d := by
  by_contra hne
  have before := (h.current d hd current').2 c hc hne
  have after := (h.current c hc current).2 d hd (Ne.symm hne)
  omega

theorem Sound.relabel (h : s.Sound) {snap : Snapshot} (mem : snap ∈ s.snapshots.items)
    (current : snap.status = some .current) :
    Sound ⟨s.snapshots.update { snap with status := some .previous }, .cleanup .listMarked,
      s.synced ++ [snap.name], s.clock⟩ := by
  -- the current snapshot is newer than all others, so that it can take the place of the last one
  have members := fun {t} =>
    KeyedStore.mem_update_of_mem (b := t) { snap with status := some .previous } mem rfl
  obtain ⟨times, distinct⟩ := h.replace_times
    { snap with status := some .previous } mem rfl rfl
  obtain ⟨unmarked, newest⟩ := h.current snap mem current
  refine ⟨times, distinct, fun c hc status => ?_, fun last hl => ?_, ?_⟩
  · rcases members.mp hc with ⟨hc, hne⟩ | rfl
    · exact absurd (h.unique_current hc mem status current) hne
    · cases status
  · rw [List.getLast?_concat, Option.some.injEq] at hl
    refine ⟨{ snap with status := some .previous }, hl, members.mpr (.inr rfl), rfl, unmarked,
      fun u hu _ => ?_⟩
    rcases members.mp hu with ⟨hu, hne⟩ | rfl
    · exact (newest u hu hne).le
    · exact le_rfl
  · rintro pc ⟨⟩
    trivial

theorem Sound.delete (h : s.Sound) {name : GoString} (hne : s.synced.getLast? ≠ some name)
    {todo : List GoString} (rest : ∀ name ∈ todo, s.synced.getLast? ≠ some name) :
    Sound ⟨s.snapshots.delete name, .cleanup (.delete todo), s.synced, s.clock⟩ := by
  have old : ∀ t ∈ (s.snapshots.delete name).items, t ∈ s.snapshots.items := fun t ht =>
    (KeyedStore.mem_delete.mp ht).1
  refine ⟨fun t ht => h.times t (old t ht), fun t ht u hu => h.distinct t (old t ht) u (old u hu),
    fun c hc status => ?_, fun last hl => ?_, ?_⟩
  · obtain ⟨cleanup, newest⟩ := h.current c (old c hc) status
    exact ⟨cleanup, fun t ht => newest t (old t ht)⟩
  · obtain ⟨t, ht, kept, status, cleanup, newest⟩ := h.last last hl
    refine ⟨t, ht, KeyedStore.mem_delete.mpr ⟨kept, fun eq => hne ?_⟩, status, cleanup,
      fun u hu => newest u (old u hu)⟩
    rw [hl, ← eq, ht]
  · rintro pc ⟨⟩
    exact rest

theorem Sound.spare (h : s.Sound) {snap : Snapshot} (mem : snap ∈ s.snapshots.items)
    (marked : Bool) {todo : List GoString} (rest : ∀ name ∈ todo, s.synced.getLast? ≠ some name) :
    Sound ⟨s.snapshots.update { snap with cleanup := snap.cleanup && marked },
      .cleanup (.delete todo), s.synced, s.clock⟩ := by
  -- a snapshot that is current or the last one has no mark to lose
  have unmarked (h : snap.cleanup = false) : (snap.cleanup && marked) = snap.cleanup := by simp [h]
  refine h.replace { snap with cleanup := snap.cleanup && marked } mem rfl rfl id
    (fun status => ⟨status, unmarked (h.current snap mem status).1⟩)
    (fun last => ⟨rfl, unmarked ?_⟩) ?_
  · obtain ⟨t, name, kept, -, cleanup, -⟩ := h.last _ last
    rw [← KeyedStore.eq_of_key kept mem name]
    exact cleanup
  · rintro pc ⟨⟩
    exact rest

theorem Sound.withPhase (h : s.Sound) {phase : Phase}
    (pcs : ∀ pc, phase = .cleanup pc → CleanupPC.Sound s pc) : Sound { s with phase := phase } := by
  refine ⟨h.times, h.distinct, h.current, h.last, fun pc hpc => ?_⟩
  cases pc with
  | start | find | listMarked => trivial
  | mark | relabel | delete => exact pcs _ hpc

theorem Sound.mem_superseded (h : s.Sound) {items : List Snapshot}
    (perm : items.Perm (s.snapshots.withStatus .previous)) {last t : Snapshot}
    (kept : s.Kept last) :
    t ∈ superseded items ↔ (t ∈ s.snapshots.items ∧ t.status = some .previous) ∧ t ≠ last := by
  have listed : ∀ {t}, t ∈ items ↔ t ∈ s.snapshots.items ∧ t.status = some .previous :=
    perm.mem_iff.trans Snapshots.mem_withStatus
  obtain ⟨mem, previous, -, newest⟩ := kept
  rw [← listed]
  refine Mover.mem_superseded ?_ (fun u hu v hv => ?_) (listed.mpr ⟨mem, previous⟩) fun u hu => ?_
  · exact perm.nodup_iff.mpr (s.snapshots.nodup.of_map.filter _)
  · exact h.distinct u (listed.mp hu).1 v (listed.mp hv).1
  · exact newest u (listed.mp hu).1 (listed.mp hu).2

theorem Sound.superseded (h : s.Sound) {items : List Snapshot}
    (perm : items.Perm (s.snapshots.withStatus .previous)) :
    CleanupPC.Sound s (.mark (superseded items)) := by
  have sub : (Mover.superseded items).Sublist items := superseded_sublist
  have nodup : (items.map (·.name)).Nodup :=
    (perm.map _).nodup_iff.mpr (s.snapshots.nodup.sublist (List.filter_sublist.map _))
  refine ⟨nodup.sublist (sub.map _), fun t ht => ?_⟩
  obtain ⟨mem, status⟩ := Snapshots.mem_withStatus.mp (perm.subset (sub.subset ht))
  refine ⟨mem, status, fun hl => ?_⟩
  obtain ⟨last, name, kept⟩ := h.last t.name hl
  exact ((h.mem_superseded perm kept).mp ht).2 (KeyedStore.eq_of_key mem kept.1 name.symm)

theorem Sound.marked (h : s.Sound) {items : List Snapshot} (perm : items.Perm s.snapshots.marked) :
    CleanupPC.Sound s (.delete (items.map (·.name))) := by
  intro name hn hl
  obtain ⟨t, ht, rfl⟩ := List.mem_map.mp hn
  obtain ⟨mem, marked⟩ := Snapshots.mem_marked.mp (perm.subset ht)
  obtain ⟨last, name, kept, -, unmarked, -⟩ := h.last t.name hl
  rw [KeyedStore.eq_of_key kept mem name, marked] at unmarked
  cases unmarked

theorem Sound.mark (h : s.Sound) {snap : Snapshot} {todo : List Snapshot}
    (pc : CleanupPC.Sound s (.mark (snap :: todo))) :
    Sound ⟨s.snapshots.update snap.supersede.2, .cleanup (.mark todo), s.synced, s.clock⟩ := by
  obtain ⟨nodup, todos⟩ := pc
  obtain ⟨mem, previous, hne⟩ := todos snap List.mem_cons_self
  have renamed := Snapshot.supersede_eq (Option.isSome_of_mem previous)
  refine h.replace snap.supersede.2 mem (by rw [renamed]) (by rw [renamed]) (fun _ => previous)
    (fun status => ?_) (fun hl => absurd hl hne) ?_
  · simp only [renamed, previous] at status
    split_ifs at status
    cases status
  · rintro pc ⟨⟩
    refine ⟨(List.nodup_cons.mp nodup).2, fun t ht => ?_⟩
    obtain ⟨old, rest⟩ := todos t (List.mem_cons_of_mem _ ht)
    refine ⟨KeyedStore.mem_update.mpr (.inl ⟨old, fun eq => ?_⟩), rest⟩
    exact (List.nodup_cons.mp nodup).1 (List.mem_map.mpr ⟨t, ht, eq.trans (by rw [renamed])⟩)

theorem Sound.step {a : MoverAction} (h : s.Sound) (hstep : s.step a = some s') : s'.Sound := by
  cases step_cases hstep with
  | create fresh phase uncurrent later unused => exact h.create fresh phase uncurrent later
  | @ready contentName handle snap phase mem _ _ =>
    refine h.replace { snap with readyToUse := true, content := some ⟨contentName, some handle⟩ }
      mem rfl rfl id (fun status => ⟨status, rfl⟩) (fun _ => ⟨rfl, rfl⟩) ?_
    rw [phase]
    rintro pc ⟨⟩
  | complete | none | marked | fail => exact h.withPhase (by rintro pc ⟨⟩; trivial)
  | listed _ perm => exact h.withPhase (by rintro pc ⟨⟩; exact h.superseded perm)
  | found _ current =>
    exact h.withPhase (by rintro pc ⟨⟩; exact Snapshots.mem_withStatus.mp current)
  | listedMarked _ perm => exact h.withPhase (by rintro pc ⟨⟩; exact h.marked perm)
  | mark phase =>
    have pc := h.phase _ phase
    have updated := congrArg Prod.fst (Snapshot.supersede_eq
      (Option.isSome_of_mem (pc.2 _ List.mem_cons_self).2.1))
    rw [if_pos updated]
    exact h.mark pc
  | relabel phase =>
    obtain ⟨mem, current⟩ := h.phase _ phase
    rw [if_pos (by simp [Snapshot.addLabel, current])]
    exact h.relabel mem current
  | delete phase =>
    have pc := h.phase _ phase
    exact h.delete (pc _ List.mem_cons_self) fun name hn => pc name (List.mem_cons_of_mem _ hn)
  | spare phase mem =>
    have pc := h.phase _ phase
    exact h.spare mem _ fun name hn => pc name (List.mem_cons_of_mem _ hn)
  | deleted => exact h.withPhase (by rintro pc ⟨⟩)

theorem sound_start : start.Sound := by
  refine ⟨fun t ht => ?_, fun t ht => ?_, fun c hc => ?_, fun name hl => ?_, fun pc hp => ?_⟩
  · cases ht
  · cases ht
  · cases hc
  · cases hl
  · cases hp

theorem reach_sound (reached : Reach step start s) : s.Sound :=
  reached.invariant sound_start fun _ _ _ _ h hstep => h.step hstep

theorem Sound.synced_step (h : s.Sound) {a : MoverAction} (hstep : s.step a = some s') :
    s'.synced = s.synced ∨ ∃ newer ∈ s'.snapshots.items, newer.status = some .previous ∧
      s'.synced = s.synced ++ [newer.name] ∧ ∀ t ∈ s.snapshots.items,
        t.status = some .previous → t.creationTimestamp < newer.creationTimestamp := by
  cases step_cases hstep with
  | @relabel snap phase =>
    obtain ⟨mem, current⟩ := h.phase _ phase
    refine .inr ⟨{ snap with status := some .previous }, ?_, rfl, rfl, fun t ht status => ?_⟩
    · rw [if_pos (by simp [Snapshot.addLabel, current])]
      exact KeyedStore.mem_update.mpr (.inr ⟨rfl, snap, mem, rfl⟩)
    · refine (h.current snap mem current).2 t ht fun eq => ?_
      rw [eq, current] at status
      cases status
  | create | ready | complete | listed | none | found | listedMarked | marked | mark | delete
    | spare | deleted | fail => exact .inl rfl

/-- The snapshot that was relabelled last exists, is labelled previous and is not marked,
whatever calls have failed, and another one takes its place only once it is previous and
newer. -/
theorem last_synced_kept (s : Iterations) (reached : Reach step start s) (name : GoString)
    (last : s.synced.getLast? = some name) :
    ∃ snap ∈ s.snapshots.items, snap.name = name ∧ snap.status = some .previous ∧
      snap.cleanup = false ∧ ∀ a s', s.step a = some s' → s'.synced.getLast? = some name ∨
        ∃ newer ∈ s'.snapshots.items, s'.synced.getLast? = some newer.name ∧
          newer.status = some .previous ∧ snap.creationTimestamp < newer.creationTimestamp := by
  have sound := reach_sound reached
  obtain ⟨snap, hname, mem, previous, unmarked, -⟩ := sound.last name last
  refine ⟨snap, mem, hname, previous, unmarked, fun a s' hstep => ?_⟩
  rcases sound.synced_step hstep with same | ⟨newer, hn, status, grown, times⟩
  · rw [same]
    exact .inl last
  · rw [grown, List.getLast?_concat]
    exact .inr ⟨newer, hn, rfl, status, times snap mem previous⟩

def sample (name : String) (time : ℕ) (status : Option SnapshotStatus) (cleanup : Bool) :
    Snapshot :=
  ⟨goString name, time, status, cleanup, true, some ⟨goString name, some (goString name)⟩⟩

def thirdIteration : List MoverAction :=
  let a := goString "a"
  let b := goString "b"
  let c := goString "c"
  [.create a 1, .ready a a a, .complete, .list [], .call,
    .list [sample "a" 1 (some .current) false], .call, .list [], .call,
    .create b 2, .ready b b b, .complete, .list [sample "a" 1 (some .previous) false], .call,
    .list [sample "b" 2 (some .current) false], .call, .list [], .call,
    .create c 3, .ready c c c]

/-- The third `Cleanup` fails after it has marked the first snapshot and is called again. -/
def interrupted : List MoverAction :=
  thirdIteration ++ [.complete,
    .list [sample "b" 2 (some .previous) false, sample "a" 1 (some .previous) false], .call, .fail,
    .list [sample "a" 1 (some .previous) true, sample "b" 2 (some .previous) false], .call, .call]

theorem last_synced_kept_interrupted : ∃ s : Iterations,
    s.phase = .cleanup .find ∧ s.synced = [goString "a", goString "b"] ∧
    ∃ snap ∈ s.snapshots.items, snap.name = goString "b" ∧ snap.status = some .previous ∧
      snap.cleanup = false := by
  have run : ((exec step start interrupted).any fun s =>
      s.phase = .cleanup .find ∧ s.synced = [goString "a", goString "b"]) = true := by
    decide +kernel
  obtain ⟨s, reached, hs⟩ := Reach.of_exec_any run
  simp only [decide_eq_true_eq] at hs
  obtain ⟨phase, synced⟩ := hs
  obtain ⟨snap, mem, name, status, cleanup, -⟩ :=
    last_synced_kept s reached (goString "b") (by rw [synced]; rfl)
  exact ⟨s, phase, synced, snap, mem, name, status, cleanup⟩

end Iterations

end CephVolsync.Mover
