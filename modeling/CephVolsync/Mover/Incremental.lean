import CephVolsync.Mover.Rotation

/-! The base of an incremental synchronization. In a run in which no call fails and all that is
marked is deleted, the snapshots with the label previous are those of the last two iterations,
since the label of a marked snapshot goes only with its deletion. `getVolumeEnvVars` takes the
first one listed. -/

namespace CephVolsync.Mover

open TransitionSystem

namespace Iterations

/-- No call fails, and `CleanupObjects` deletes all that is marked. -/
def faultless (_ : Iterations) : MoverAction → Bool
  | .fail | .spare _ => false
  | _ => true

/-- Every snapshot that was synchronized has a handle, and so has the current one once its Job
has succeeded. -/
structure Handled (s : Iterations) : Prop where
  distinct : ∀ t ∈ s.snapshots.items, ∀ u ∈ s.snapshots.items, t.handle.isSome = true →
    t.handle = u.handle → t = u
  taken : ∀ t ∈ s.snapshots.items, (s.phase = .synchronizing → t.status ≠ some .current) →
    t.handle.isSome = true

variable {s s' : Iterations}

theorem Handled.all (h : s.Handled) {pc : CleanupPC} (cleanup : s.phase = .cleanup pc) :
    ∀ t ∈ s.snapshots.items, t.handle.isSome = true := by
  refine fun t ht => h.taken t ht fun hp => ?_
  rw [cleanup] at hp
  cases hp

theorem Handled.replace (h : s.Handled) {old : Snapshot} (new : Snapshot)
    (mem : old ∈ s.snapshots.items) (name : new.name = old.name) (handle : new.handle = old.handle)
    {pc : CleanupPC} (cleanup : s.phase = .cleanup pc) {phase : Phase} {synced : List GoString} :
    Handled ⟨s.snapshots.update new, phase, synced, s.clock⟩ := by
  have members := fun {t} => KeyedStore.mem_update_of_mem (b := t) new mem name
  refine ⟨fun t ht u hu some eq => ?_, fun t ht _ => ?_⟩
  · rcases members.mp ht with ⟨ht, hto⟩ | rfl <;> rcases members.mp hu with ⟨hu, huo⟩ | hu
    · exact h.distinct t ht u hu some eq
    · rw [hu, handle] at eq
      exact absurd (h.distinct t ht old mem some eq) hto
    · rw [handle] at some eq
      exact absurd (h.distinct old mem u hu some eq).symm huo
    · exact hu.symm
  · rcases members.mp ht with ⟨ht, -⟩ | rfl
    · exact h.all cleanup t ht
    · rw [handle]
      exact h.all cleanup old mem

theorem Handled.create (h : s.Handled) {name : GoString} {time : ℕ}
    (fresh : name ∉ s.snapshots.items.map (·.name)) (phase : s.phase = .synchronizing) :
    Handled { s with
      snapshots := s.snapshots.create ⟨name, time, some .current, false, false, none⟩ fresh
      clock := time } := by
  refine ⟨fun t ht u hu some eq => ?_, fun t ht current => ?_⟩
  · rcases (KeyedStore.mem_create fresh).mp ht with ht | rfl
    · rcases (KeyedStore.mem_create fresh).mp hu with hu | rfl
      · exact h.distinct t ht u hu some eq
      · rw [eq] at some
        cases some
    · cases some
  · rcases (KeyedStore.mem_create fresh).mp ht with ht | rfl
    · exact h.taken t ht current
    · exact absurd rfl (current phase)

theorem Handled.ready (h : s.Handled) {snap : Snapshot} {contentName handle : GoString}
    (mem : snap ∈ s.snapshots.items) (fresh : ∀ t ∈ s.snapshots.items, t.handle ≠ some handle) :
    Handled ⟨s.snapshots.update
      { snap with readyToUse := true, content := some ⟨contentName, some handle⟩ },
      s.phase, s.synced, s.clock⟩ := by
  have members := fun {t} => KeyedStore.mem_update_of_mem (b := t)
    { snap with readyToUse := true, content := some ⟨contentName, some handle⟩ } mem rfl
  refine ⟨fun t ht u hu some eq => ?_, fun t ht current => ?_⟩
  · rcases members.mp ht with ⟨ht, -⟩ | rfl <;> rcases members.mp hu with ⟨hu, -⟩ | hu
    · exact h.distinct t ht u hu some eq
    · rw [hu] at eq
      exact absurd eq (fresh t ht)
    · exact absurd eq.symm (fresh u hu)
    · exact hu.symm
  · rcases members.mp ht with ⟨ht, -⟩ | rfl
    · exact h.taken t ht current
    · rfl

theorem Handled.step (sound : s.Sound) (h : s.Handled) {a : MoverAction}
    (hstep : s.step a = some s') : s'.Handled := by
  have phase : ∀ {pc phase}, s.phase = .cleanup pc → Handled { s with phase := phase } :=
    fun cleanup => ⟨h.distinct, fun t ht _ => h.all cleanup t ht⟩
  cases step_cases hstep with
  | create fresh phase => exact h.create fresh phase
  | ready _ mem _ fresh => exact h.ready mem fresh
  | complete _ hc handle =>
    obtain ⟨mem, current⟩ := Snapshots.mem_withStatus.mp hc
    refine ⟨h.distinct, fun t ht _ => ?_⟩
    by_cases status : t.status = some .current
    · rw [sound.unique_current ht mem status current]
      exact handle
    · exact h.taken t ht fun _ => status
  | listed hp | none hp | found hp | listedMarked hp | marked hp | deleted hp | fail hp =>
    exact phase hp
  | @mark snap _ hp =>
    have mem := ((sound.phase _ hp).2 snap List.mem_cons_self)
    have eq := Snapshot.supersede_eq (Option.isSome_of_mem mem.2.1)
    rw [if_pos (by rw [eq])]
    exact h.replace snap.supersede.2 mem.1 (by rw [eq]) (by rw [eq]; rfl) hp
  | @relabel snap hp =>
    obtain ⟨mem, current⟩ := sound.phase _ hp
    rw [if_pos (by simp [Snapshot.addLabel, current])]
    exact h.replace (snap.addLabel .previous).2 mem rfl rfl hp
  | @spare snap _ marked hp mem =>
    exact h.replace { snap with cleanup := snap.cleanup && marked } mem rfl rfl hp
  | delete hp =>
    have old := fun {t : Snapshot} {name} (ht : t ∈ (s.snapshots.delete name).items) =>
      (KeyedStore.mem_delete.mp ht).1
    exact ⟨fun t ht u hu => h.distinct t (old ht) u (old hu), fun t ht _ => h.all hp t (old ht)⟩

def lastTwo (names : List GoString) : List GoString := names.drop (names.length - 2)

theorem mem_of_mem_lastTwo {names : List GoString} {n : GoString} (h : n ∈ lastTwo names) :
    n ∈ names :=
  List.mem_of_mem_drop h

theorem lastTwo_concat (names : List GoString) (n : GoString) :
    lastTwo (names ++ [n]) = names.getLast?.toList ++ [n] := by
  rcases List.eq_nil_or_concat names with rfl | ⟨init, last, rfl⟩
  · rfl
  · simp [lastTwo]

theorem mem_lastTwo_concat {names : List GoString} {n m : GoString} :
    m ∈ lastTwo (names ++ [n]) ↔ names.getLast? = some m ∨ m = n := by
  rw [lastTwo_concat, List.mem_append, List.mem_singleton, Option.mem_toList]

theorem getLast_mem_lastTwo {names : List GoString} {n : GoString} (h : names.getLast? = some n) :
    n ∈ lastTwo names := by
  obtain ⟨init, rfl⟩ := List.getLast?_eq_some_iff.mp h
  exact mem_lastTwo_concat.mpr (.inr rfl)

def Previous (ss : Snapshots) (n : GoString) : Prop := ss.Has (·.status = some .previous) n

def Marked (ss : Snapshots) (n : GoString) : Prop := ss.Has (·.cleanup = true) n

def Pending (ss : Snapshots) : Prop := ∃ c ∈ ss.items, c.status = some .current

/-- Which snapshots are labelled previous and which are marked, in each phase of a run without
failures. -/
def Labels (ss : Snapshots) (synced : List GoString) : Phase → Prop
  | .synchronizing => (∀ n, Previous ss n ↔ n ∈ lastTwo synced) ∧ ∀ n, ¬ Marked ss n
  | .cleanup .start =>
    (∀ n, Previous ss n ↔ n ∈ lastTwo synced) ∧ (∀ n, ¬ Marked ss n) ∧ Pending ss
  | .cleanup (.mark todo) => (∀ n, Previous ss n ↔ n ∈ lastTwo synced) ∧
    (∀ n, Marked ss n ∨ n ∈ todo.map (·.name) ↔ n ∈ lastTwo synced ∧ synced.getLast? ≠ some n) ∧
    (∀ t ∈ todo, t.cleanup = false) ∧ Pending ss
  | .cleanup .find => (∀ n, Previous ss n ↔ n ∈ lastTwo synced) ∧
    (∀ n, Marked ss n ↔ n ∈ lastTwo synced ∧ synced.getLast? ≠ some n) ∧ Pending ss
  | .cleanup (.relabel _) => (∀ n, Previous ss n ↔ n ∈ lastTwo synced) ∧
    ∀ n, Marked ss n ↔ n ∈ lastTwo synced ∧ synced.getLast? ≠ some n
  | .cleanup .listMarked => (∀ n, Previous ss n ↔ Marked ss n ∨ n ∈ lastTwo synced) ∧
    ∀ n, Marked ss n → n ∉ lastTwo synced
  | .cleanup (.delete todo) => (∀ n, Previous ss n ↔ Marked ss n ∨ n ∈ lastTwo synced) ∧
    (∀ n, Marked ss n → n ∉ lastTwo synced) ∧ todo.Nodup ∧ ∀ n, Marked ss n ↔ n ∈ todo

section Labels

variable {ss : Snapshots} {synced : List GoString} {snap : Snapshot}

theorem Labels.create (h : Labels ss synced .synchronizing)
    (fresh : snap.name ∉ ss.items.map (·.name))
    (current : snap.status = some .current) (unmarked : snap.cleanup = false) :
    Labels (ss.create snap fresh) synced .synchronizing := by
  obtain ⟨previous, marked⟩ := h
  refine ⟨fun n => ?_, fun n hn => ?_⟩
  · rw [← previous n, Previous, KeyedStore.has_create, current]
    simp [Previous]
  · rcases (KeyedStore.has_create fresh).mp hn with hn | ⟨-, hn⟩
    · exact marked n hn
    · rw [unmarked] at hn
      cases hn

theorem Labels.ready (h : Labels ss synced .synchronizing) {old : Snapshot} (mem : old ∈ ss.items)
    (name : snap.name = old.name) (status : snap.status = old.status)
    (cleanup : snap.cleanup = old.cleanup) : Labels (ss.update snap) synced .synchronizing := by
  obtain ⟨previous, marked⟩ := h
  refine ⟨fun n => ?_, fun n hn => marked n ?_⟩
  · exact (KeyedStore.has_update_iff snap mem name (by rw [status])).trans (previous n)
  · exact (KeyedStore.has_update_iff snap mem name (by rw [cleanup])).mp hn

theorem Labels.mark {todo : List Snapshot} (h : Labels ss synced (.cleanup (.mark (snap :: todo))))
    (mem : snap ∈ ss.items) (previous : snap.status = some .previous) :
    Labels (ss.update snap.supersede.2) synced (.cleanup (.mark todo)) := by
  obtain ⟨hp, hm, unmarked, c, hc, current⟩ := h
  have eq := Snapshot.supersede_eq (Option.isSome_of_mem previous)
  rw [unmarked snap List.mem_cons_self, previous] at eq
  refine ⟨fun n => ?_, fun n => ?_, fun t ht => unmarked t (List.mem_cons_of_mem _ ht), c, ?_,
    current⟩
  · refine Iff.trans (KeyedStore.has_update_iff _ mem (by rw [eq]) ?_) (hp n)
    rw [eq, previous]
    rfl
  · rw [← hm n, Marked, KeyedStore.has_update _ mem (by rw [eq]), eq, List.map_cons, List.mem_cons]
    by_cases hn : n = snap.name
    · simp [hn]
    · simp [hn, Marked]
  · refine (KeyedStore.mem_update_of_mem _ mem (by rw [eq])).mpr (.inl ⟨hc, fun same => ?_⟩)
    rw [same, previous] at current
    cases current

theorem Labels.relabel (h : Labels ss synced (.cleanup (.relabel snap))) (mem : snap ∈ ss.items)
    (unsynced : snap.name ∉ synced) : Labels (ss.update { snap with status := some .previous })
      (synced ++ [snap.name]) (.cleanup .listMarked) := by
  obtain ⟨hp, hm⟩ := h
  have marked : ∀ n, Marked (ss.update { snap with status := some .previous }) n ↔ Marked ss n := by
    intro n
    rw [Marked, KeyedStore.has_update_iff { snap with status := some .previous } mem rfl Iff.rfl,
      Marked]
  have previous : ∀ n, Previous (ss.update { snap with status := some .previous }) n ↔
      n ∈ lastTwo synced ∨ n = snap.name := by
    intro n
    rw [← hp n, Previous, KeyedStore.has_update { snap with status := some .previous } mem rfl]
    by_cases hn : n = snap.name
    · simp [hn]
    · simp [hn, Previous]
  refine ⟨fun n => ?_, fun n hn => ?_⟩
  · rw [previous, marked, hm, mem_lastTwo_concat]
    have := @getLast_mem_lastTwo synced n
    tauto
  · obtain ⟨recent, notLast⟩ := (hm n).mp ((marked n).mp hn)
    rw [mem_lastTwo_concat]
    rintro (last | rfl)
    · exact notLast last
    · exact unsynced (mem_of_mem_lastTwo recent)

theorem Labels.delete {name : GoString} {todo : List GoString}
    (h : Labels ss synced (.cleanup (.delete (name :: todo)))) :
    Labels (ss.delete name) synced (.cleanup (.delete todo)) := by
  obtain ⟨hp, disjoint, nodup, hm⟩ := h
  obtain ⟨new, nodup⟩ := List.nodup_cons.mp nodup
  have marked : ∀ n, Marked (ss.delete name) n ↔ n ∈ todo := by
    intro n
    rw [Marked, KeyedStore.has_delete]
    refine (and_congr_left fun _ => hm n).trans ?_
    rw [List.mem_cons]
    constructor
    · exact fun ⟨hn, hne⟩ => hn.resolve_left hne
    · exact fun hn => ⟨.inr hn, fun eq => new (eq ▸ hn)⟩
  refine ⟨fun n => ?_, fun n hn => ?_, nodup, marked⟩
  · rw [marked, Previous, KeyedStore.has_delete]
    refine (and_congr_left fun _ => hp n).trans ?_
    rw [hm, List.mem_cons]
    have := disjoint n
    rw [hm, List.mem_cons] at this
    constructor
    · tauto
    · rintro (hn | hn)
      · exact ⟨.inl (.inr hn), fun eq => new (eq ▸ hn)⟩
      · exact ⟨.inr hn, fun eq => this (.inl eq) hn⟩
  · exact disjoint n ((hm n).mpr (List.mem_cons_of_mem _ ((marked n).mp hn)))

end Labels

structure Rotated (s : Iterations) : Prop where
  nodup : s.synced.Nodup
  unsynced : ∀ c ∈ s.snapshots.items, c.status = some .current → c.name ∉ s.synced
  labels : Labels s.snapshots s.synced s.phase

theorem Rotated.at (h : s.Rotated) {phase : Phase} (hp : s.phase = phase) :
    Labels s.snapshots s.synced phase :=
  hp ▸ h.labels

theorem Rotated.listed (sound : s.Sound) (h : s.Rotated) (phase : s.phase = .cleanup .start)
    {items : List Snapshot} (perm : items.Perm (s.snapshots.withStatus .previous)) :
    Labels s.snapshots s.synced (.cleanup (.mark (superseded items))) := by
  obtain ⟨previous, unmarked, pending⟩ := h.at phase
  have sub := (sound.superseded perm).2
  refine ⟨previous, fun n => ⟨?_, fun ⟨hn, notLast⟩ => .inr ?_⟩, fun t ht => ?_, pending⟩
  · rintro (hn | hn)
    · exact absurd hn (unmarked n)
    · obtain ⟨t, ht, rfl⟩ := List.mem_map.mp hn
      obtain ⟨mem, status, notLast⟩ := sub t ht
      exact ⟨(previous t.name).mp ⟨t, mem, rfl, status⟩, notLast⟩
  · obtain ⟨t, mem, rfl, status⟩ := (previous n).mpr hn
    have last := List.getLast?_eq_some_getLast (List.ne_nil_of_mem (mem_of_mem_lastTwo hn))
    obtain ⟨u, name, kept⟩ := sound.last _ last
    refine List.mem_map.mpr ⟨t, (sound.mem_superseded perm kept).mpr ⟨⟨mem, status⟩, ?_⟩, rfl⟩
    rintro rfl
    exact notLast (name ▸ last)
  · exact Bool.eq_false_iff.mpr fun marked => unmarked t.name ⟨t, (sub t ht).1, rfl, marked⟩

theorem Rotated.listedMarked (h : s.Rotated) (phase : s.phase = .cleanup .listMarked)
    {items : List Snapshot} (perm : items.Perm s.snapshots.marked) :
    Labels s.snapshots s.synced (.cleanup (.delete (items.map (·.name)))) := by
  obtain ⟨previous, disjoint⟩ := h.at phase
  refine ⟨previous, disjoint, ?_, fun n => ?_⟩
  · exact (perm.map _).nodup_iff.mpr (s.snapshots.nodup.sublist (List.filter_sublist.map _))
  · rw [(perm.map (·.name)).mem_iff, List.mem_map]
    constructor
    · rintro ⟨t, mem, rfl, marked⟩
      exact ⟨t, Snapshots.mem_marked.mpr ⟨mem, marked⟩, rfl⟩
    · rintro ⟨t, ht, rfl⟩
      obtain ⟨mem, marked⟩ := Snapshots.mem_marked.mp ht
      exact ⟨t, mem, rfl, marked⟩

theorem Rotated.step (sound : s.Sound) (h : s.Rotated) {a : MoverAction}
    (hstep : s.step a = some s') (allowed : faultless s a = true) : s'.Rotated := by
  cases step_cases hstep with
  | create fresh phase none later unused =>
    refine ⟨h.nodup, fun c hc current => ?_, ?_⟩
    · rcases (KeyedStore.mem_create fresh).mp hc with hc | rfl
      · exact h.unsynced c hc current
      · exact unused
    · rw [phase]
      exact (h.at phase).create fresh rfl rfl
  | @ready contentName handle snap phase mem =>
    refine ⟨h.nodup, fun c hc current => ?_, ?_⟩
    · rcases KeyedStore.mem_update.mp hc with ⟨hc, -⟩ | ⟨rfl, -⟩
      · exact h.unsynced c hc current
      · exact h.unsynced snap mem current
    · rw [phase]
      exact (h.at phase).ready mem rfl rfl rfl
  | complete phase hc =>
    obtain ⟨previous, marked⟩ := h.at phase
    exact ⟨h.nodup, h.unsynced, previous, marked, _, Snapshots.mem_withStatus.mp hc⟩
  | listed phase perm => exact ⟨h.nodup, h.unsynced, h.listed sound phase perm⟩
  | none phase uncurrent =>
    obtain ⟨-, -, c, hc, current⟩ := h.at phase
    have mem := Snapshots.mem_withStatus.mpr ⟨hc, current⟩
    rw [uncurrent] at mem
    cases mem
  | found phase =>
    obtain ⟨previous, marked, -⟩ := h.at phase
    exact ⟨h.nodup, h.unsynced, previous, marked⟩
  | listedMarked phase perm => exact ⟨h.nodup, h.unsynced, h.listedMarked phase perm⟩
  | marked phase =>
    obtain ⟨previous, marked, -, pending⟩ := h.at phase
    refine ⟨h.nodup, h.unsynced, previous, fun n => ?_, pending⟩
    rw [← marked n, List.map_nil]
    simp
  | @mark snap todo phase =>
    obtain ⟨mem, previous, -⟩ := (sound.phase _ phase).2 snap List.mem_cons_self
    have eq := Snapshot.supersede_eq (Option.isSome_of_mem previous)
    rw [if_pos (by rw [eq])]
    refine ⟨h.nodup, fun c hc current => ?_, (h.at phase).mark mem previous⟩
    rcases KeyedStore.mem_update.mp hc with ⟨hc, -⟩ | ⟨rfl, -⟩
    · exact h.unsynced c hc current
    · rw [eq, previous] at current
      simp only at current
      split_ifs at current
      cases current
  | @relabel snap phase =>
    obtain ⟨mem, current⟩ := sound.phase _ phase
    have unsynced := h.unsynced snap mem current
    rw [if_pos (by simp [Snapshot.addLabel, current])]
    refine ⟨?_, fun c hc status => ?_, (h.at phase).relabel mem unsynced⟩
    · exact List.nodup_append'.mpr
        ⟨h.nodup, List.nodup_singleton _, List.disjoint_singleton.mpr unsynced⟩
    · rcases (KeyedStore.mem_update_of_mem (snap.addLabel .previous).2 mem rfl).mp hc with
        ⟨hc, hne⟩ | rfl
      · exact absurd (sound.unique_current hc mem status current) hne
      · cases status
  | delete phase =>
    exact ⟨h.nodup, fun c hc => h.unsynced c (KeyedStore.mem_delete.mp hc).1, (h.at phase).delete⟩
  | deleted phase =>
    obtain ⟨previous, -, -, marked⟩ := h.at phase
    have none : ∀ n, ¬ Marked s.snapshots n := fun n hn => List.not_mem_nil ((marked n).mp hn)
    exact ⟨h.nodup, h.unsynced, fun n => (previous n).trans (or_iff_right (none n)), none⟩
  | fail | spare => cases allowed

theorem handled_start : start.Handled := by
  refine ⟨fun t ht => ?_, fun t ht => ?_⟩
  · cases ht
  · cases ht

theorem rotated_start : start.Rotated := by
  refine ⟨List.nodup_nil, fun c hc => ?_, fun n => ⟨?_, fun hn => ?_⟩, ?_⟩
  · cases hc
  · rintro ⟨t, ht, -⟩
    cases ht
  · cases hn
  · rintro n ⟨t, ht, -⟩
    cases ht

theorem reach_rotated (reached : Reach (restrict faultless step) start s) :
    s.Sound ∧ s.Handled ∧ s.Rotated := by
  refine reached.invariant (P := fun s => s.Sound ∧ s.Handled ∧ s.Rotated)
    ⟨sound_start, handled_start, rotated_start⟩ fun _ a _ _ ⟨sound, handled, rotated⟩ next => ?_
  obtain ⟨allowed, hstep⟩ := restrict_eq_some.mp next
  exact ⟨sound.step hstep, handled.step sound hstep,
    rotated.step sound hstep allowed⟩

theorem Rotated.previous_perm (h : s.Rotated) (phase : s.phase = .synchronizing)
    {previous : List Snapshot} (perm : previous.Perm (s.snapshots.withStatus .previous)) :
    (previous.map (·.name)).Perm (lastTwo s.synced) := by
  refine (perm.map _).trans ((List.perm_ext_iff_of_nodup ?_ ?_).mpr fun n => ?_)
  · exact s.snapshots.nodup.sublist (List.filter_sublist.map _)
  · exact h.nodup.sublist (List.drop_sublist _ _)
  · rw [← (h.at phase).1 n, List.mem_map]
    constructor
    · rintro ⟨t, ht, rfl⟩
      obtain ⟨mem, status⟩ := Snapshots.mem_withStatus.mp ht
      exact ⟨t, mem, rfl, status⟩
    · rintro ⟨t, mem, rfl, status⟩
      exact ⟨t, Snapshots.mem_withStatus.mpr ⟨mem, status⟩, rfl⟩

/-- After `k` iterations without failures the snapshots listed as previous are those of the last
two iterations. The base is the snapshot of iteration `k` if and only if it is listed first or
`k` is one; the target is always the current snapshot. -/
theorem base_is_last_iff (s : Iterations) (reached : Reach (restrict faultless step) start s)
    (phase : s.phase = .synchronizing) (synced : s.synced ≠ []) (target : Snapshot)
    (hc : target ∈ s.snapshots.withStatus .current) (targetHandle : GoString)
    (handle : target.handle = some targetHandle) (m : MoverConfig) (source : m.isSource = true)
    (copied : m.copyMethodDirect = false) (cl : Cluster) (snapshots : cl.snapshots = s.snapshots)
    (srcVolume dataVolume volumeHandle : GoString)
    (claim : cl.claims m.mainPVCName = some srcVolume)
    (volume : cl.getVolumeHandle srcVolume = .ok volumeHandle) (previous current : List Snapshot)
    (previousList : previous.Perm (s.snapshots.withStatus .previous))
    (currentList : current.Perm (s.snapshots.withStatus .current)) :
    (previous.map (·.name)).Perm (lastTwo s.synced) ∧
    ∃ last ∈ s.snapshots.items, s.synced.getLast? = some last.name ∧
    ∃ base, cl.getVolumeEnvVars m dataVolume previous current = .ok
      [⟨envVolumeHandle, volumeHandle⟩,
        ⟨envBaseSnapshotHandle, base⟩, ⟨envTargetSnapshotHandle, targetHandle⟩] ∧
      (last.handle = some base ↔ s.synced.length = 1 ∨ previous.head? = some last) := by
  obtain ⟨sound, handled, rotated⟩ := reach_rotated reached
  have names := rotated.previous_perm phase previousList
  have hlast := List.getLast?_eq_some_getLast synced
  obtain ⟨last, name, mem, status, -, -⟩ := sound.last _ hlast
  rw [← name] at hlast
  refine ⟨names, last, mem, hlast, ?_⟩
  have listed : last ∈ previous :=
    previousList.mem_iff.mpr (Snapshots.mem_withStatus.mpr ⟨mem, status⟩)
  obtain ⟨p, ps, rfl⟩ := List.exists_cons_of_ne_nil (List.ne_nil_of_mem listed)
  obtain ⟨c, cs, rfl⟩ := List.exists_cons_of_ne_nil
    (List.ne_nil_of_mem (currentList.mem_iff.mpr hc))
  obtain ⟨hpm, hps⟩ := Snapshots.mem_withStatus.mp (previousList.subset List.mem_cons_self)
  obtain ⟨hcm, hcs⟩ := Snapshots.mem_withStatus.mp (currentList.subset List.mem_cons_self)
  obtain ⟨htm, hts⟩ := Snapshots.mem_withStatus.mp hc
  obtain rfl := sound.unique_current hcm htm hcs hts
  have some := handled.taken p hpm fun _ => by rw [hps]; exact nofun
  obtain ⟨base, hbase⟩ := Option.isSome_iff_exists.mp some
  refine ⟨base, Cluster.getVolumeEnvVars_incremental source copied claim volume (snapshots ▸ hpm)
    (snapshots ▸ hcm) hbase handle, ?_⟩
  rw [← hbase, List.head?_cons, Option.some.injEq]
  constructor
  · exact fun same => .inr (handled.distinct p hpm last mem some same.symm)
  · rintro (one | rfl)
    · obtain ⟨x, hx⟩ := List.length_eq_one_iff.mp one
      rw [hx] at names hlast
      have first : p.name = x := List.mem_singleton.mp (names.subset List.mem_cons_self)
      have only : x = last.name := Option.some.inj hlast
      rw [KeyedStore.eq_of_key mem hpm (only.symm.trans first.symm)]
    · rfl

def sampleMover : MoverConfig := ⟨true, false, goString "data", [], [], []⟩

def sampleCluster (snapshots : Snapshots) : Cluster :=
  ⟨fun _ => some (goString "pv"), fun _ => some ⟨goString "pv", true, some (goString "vol")⟩,
    snapshots⟩

def thirdSnapshots : Snapshots :=
  ⟨[sample "a" 1 (some .previous) false, sample "b" 2 (some .previous) false,
    sample "c" 3 (some .current) false], by decide +kernel⟩

theorem third_iteration : ∃ s, Reach (restrict faultless step) start s ∧
    s.phase = .synchronizing ∧ s.synced = [goString "a", goString "b"] ∧
    s.snapshots = thirdSnapshots := by
  have run : ((exec (restrict faultless step) start thirdIteration).any fun s =>
      s.phase = .synchronizing ∧ s.synced = [goString "a", goString "b"] ∧
      s.snapshots.items = thirdSnapshots.items) = true := by
    decide +kernel
  obtain ⟨s, reached, hs⟩ := Reach.of_exec_any run
  obtain ⟨phase, synced, items⟩ := of_decide_eq_true hs
  exact ⟨s, reached, phase, synced, KeyedStore.ext items⟩

theorem base_is_last_iff_third : ∃ base,
    (sampleCluster thirdSnapshots).getVolumeEnvVars sampleMover []
      [sample "b" 2 (some .previous) false, sample "a" 1 (some .previous) false]
      [sample "c" 3 (some .current) false] = .ok [⟨envVolumeHandle, goString "vol"⟩,
        ⟨envBaseSnapshotHandle, base⟩, ⟨envTargetSnapshotHandle, goString "c"⟩] ∧
    (sample "b" 2 (some .previous) false).handle = some base := by
  obtain ⟨s, reached, phase, synced, snapshots⟩ := third_iteration
  obtain ⟨-, last, mem, name, base, env, iff⟩ := base_is_last_iff s reached phase
    (by rw [synced]; exact nofun) (sample "c" 3 (some .current) false)
    (by rw [snapshots]; decide +kernel) (goString "c") rfl sampleMover rfl rfl
    (sampleCluster thirdSnapshots) snapshots.symm (goString "pv") [] (goString "vol") rfl rfl
    [sample "b" 2 (some .previous) false, sample "a" 1 (some .previous) false]
    [sample "c" 3 (some .current) false] (by rw [snapshots]; decide +kernel)
    (by rw [snapshots]; decide +kernel)
  have named : last = sample "b" 2 (some .previous) false := by
    rw [synced] at name
    rw [snapshots] at mem
    exact KeyedStore.eq_of_key mem (by decide +kernel) (Option.some.inj name).symm
  rw [named] at iff
  exact ⟨base, env, iff.mpr (.inr rfl)⟩

/-- If the older of the two previous snapshots is listed first, it becomes the base. -/
theorem base_not_last : ∃ s, Reach (restrict faultless step) start s ∧
    s.phase = .synchronizing ∧ s.synced = [goString "a", goString "b"] ∧
    ∃ previous current, previous.Perm (s.snapshots.withStatus .previous) ∧
      current.Perm (s.snapshots.withStatus .current) ∧
      (sampleCluster s.snapshots).getVolumeEnvVars sampleMover [] previous current =
        .ok [⟨envVolumeHandle, goString "vol"⟩, ⟨envBaseSnapshotHandle, goString "a"⟩,
          ⟨envTargetSnapshotHandle, goString "c"⟩] ∧
      (s.snapshots.get (goString "b")).map (·.handle) = some (some (goString "b")) := by
  obtain ⟨s, reached, phase, synced, snapshots⟩ := third_iteration
  refine ⟨s, reached, phase, synced, s.snapshots.withStatus .previous,
    s.snapshots.withStatus .current, .refl _, .refl _, ?_⟩
  rw [snapshots]
  decide +kernel

end Iterations

end CephVolsync.Mover
