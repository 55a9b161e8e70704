import CephVolsync.Mover.Rotation

/-! `transitionSnapshotStatuses` (`internal/mover/ceph/snapshot_method.go`) on arbitrary
snapshots. The function runs alone, its calls of the API succeed or fail, and a list comes in
any order. A run without a failure is compared with the labels that the rotation is meant to
leave, and is a run of `Cleanup` in `Iterations`. -/

namespace CephVolsync.Mover

open TransitionSystem

/-- What the API server answers: the order of a list, or a failure, and whether an update
succeeds. -/
structure Api where
  list : SnapshotStatus → List Snapshot → Option (List Snapshot)
  update : Snapshot → Bool
  perm : ∀ {status items listed}, list status items = some listed → listed.Perm items

/-- A function of the mover. The updates before a failure stay. -/
abbrev MoverM := ExceptT MoverErr (StateM Snapshots)

namespace Api

def listSnapshotsWithStatus (api : Api) (status : SnapshotStatus) : MoverM (List Snapshot) := do
  match api.list status ((← get).withStatus status) with
  | none => throw .api
  | some items => return items

def clientUpdate (api : Api) (snap : Snapshot) : MoverM Unit := do
  if api.update snap then modify (·.update snap) else throw .api

def findCurrentSnapshot (api : Api) : MoverM (Option Snapshot) := do
  let snapshots ← api.listSnapshotsWithStatus .current
  return snapshots.head?

def setSnapshotStatus (api : Api) (snap : Option Snapshot) (status : SnapshotStatus) :
    MoverM Unit := do
  match snap with
  | none => return
  | some snap =>
    let (updated, snap) := snap.addLabel status
    if updated then api.clientUpdate snap

/-- The loop over the superseded snapshots. -/
def markSuperseded (api : Api) : List Snapshot → MoverM Unit
  | [] => return
  | snap :: rest => do
    let (updated, snap) := snap.supersede
    if updated then api.clientUpdate snap
    api.markSuperseded rest

def transitionSnapshotStatuses (api : Api) : MoverM Unit := do
  let previousSnaps ← api.listSnapshotsWithStatus .previous
  api.markSuperseded (superseded previousSnaps)
  let currentSnap ← api.findCurrentSnapshot
  api.setSnapshotStatus currentSnap .previous

end Api

/-- The function returns this without an error, and leaves these snapshots. -/
def Returns {α : Type} (m : MoverM α) (ss : Snapshots) (a : α) (ss' : Snapshots) : Prop :=
  (m.run.run ss).run = (.ok a, ss')

section Returns

variable {α β : Type} {m : MoverM α} {k : α → MoverM β} {a b : α} {c : β} {ss ss' : Snapshots}
variable {api : Api}

theorem returns_pure : Returns (pure a) ss b ss' ↔ a = b ∧ ss = ss' := by
  simp [Returns]

theorem returns_bind :
    Returns (m >>= k) ss c ss' ↔ ∃ a mid, Returns m ss a mid ∧ Returns (k a) mid c ss' := by
  simp only [Returns, ExceptT.run_bind, StateT.run_bind, Id.run_bind]
  cases hm : (m.run.run ss).run with
  | mk result mid =>
    cases result with
    | error e => simp
    | ok a => simp

theorem returns_throw {e : MoverErr} : ¬ Returns (throw e : MoverM α) ss a ss' := by
  simp [Returns]

theorem returns_get {items : Snapshots} : Returns get ss items ss' ↔ ss = items ∧ ss = ss' := by
  change (Except.ok ss, ss) = (Except.ok items, ss') ↔ _
  simp

theorem returns_modify {f : Snapshots → Snapshots} {u : Unit} :
    Returns (modify f) ss u ss' ↔ f ss = ss' := by
  change (Except.ok (), f ss) = (Except.ok u, ss') ↔ _
  simp

theorem returns_list {status : SnapshotStatus} {items : List Snapshot}
    (h : Returns (api.listSnapshotsWithStatus status) ss items ss') :
    api.list status (ss.withStatus status) = some items ∧ ss = ss' := by
  simp only [Api.listSnapshotsWithStatus, returns_bind, returns_get] at h
  obtain ⟨_, _, ⟨rfl, rfl⟩, h⟩ := h
  cases hl : api.list status (ss.withStatus status) with
  | none =>
    rw [hl] at h
    exact absurd h returns_throw
  | some listed =>
    rw [hl] at h
    obtain ⟨rfl, same⟩ := returns_pure.mp h
    exact ⟨rfl, same⟩

theorem returns_clientUpdate {snap : Snapshot} {u : Unit}
    (h : Returns (api.clientUpdate snap) ss u ss') : ss.update snap = ss' := by
  unfold Api.clientUpdate at h
  split at h
  · exact returns_modify.mp h
  · exact absurd h returns_throw

theorem returns_markSuperseded {snap : Snapshot} {rest : List Snapshot} {u : Unit}
    (h : Returns (api.markSuperseded (snap :: rest)) ss u ss') :
    Returns (api.markSuperseded rest)
      (if snap.supersede.1 then ss.update snap.supersede.2 else ss) u ss' := by
  cases hs : snap.supersede with
  | mk updated new =>
    simp only [Api.markSuperseded, hs] at h
    cases updated with
    | false => exact h
    | true =>
      obtain ⟨_, mid, call, h⟩ := returns_bind.mp h
      rwa [← returns_clientUpdate call] at h

theorem returns_setSnapshotStatus {snap : Snapshot} {status : SnapshotStatus} {u : Unit}
    (h : Returns (api.setSnapshotStatus (some snap) status) ss u ss') :
    ss' = if (snap.addLabel status).1 then ss.update (snap.addLabel status).2 else ss := by
  cases updated : (snap.addLabel status).1 with
  | false =>
    simp only [Api.setSnapshotStatus, updated] at h
    exact (returns_pure.mp h).2.symm
  | true =>
    simp only [Api.setSnapshotStatus, updated] at h
    exact (returns_clientUpdate h).symm

theorem returns_findCurrentSnapshot {first : Option Snapshot}
    (h : Returns api.findCurrentSnapshot ss first ss') :
    ∃ snapshots, api.list .current (ss.withStatus .current) = some snapshots ∧
      first = snapshots.head? ∧ ss = ss' := by
  obtain ⟨snapshots, mid, call, h⟩ := returns_bind.mp h
  obtain ⟨listed, rfl⟩ := returns_list call
  obtain ⟨rfl, rfl⟩ := returns_pure.mp h
  exact ⟨snapshots, listed, rfl, rfl⟩

theorem returns_transition {u : Unit} (h : Returns api.transitionSnapshotStatuses ss u ss') :
    ∃ previousSnaps currentSnaps mid,
      api.list .previous (ss.withStatus .previous) = some previousSnaps ∧
      Returns (api.markSuperseded (superseded previousSnaps)) ss () mid ∧
      api.list .current (mid.withStatus .current) = some currentSnaps ∧
      Returns (api.setSnapshotStatus currentSnaps.head? .previous) mid () ss' := by
  obtain ⟨previousSnaps, _, call, h⟩ := returns_bind.mp h
  obtain ⟨listed, rfl⟩ := returns_list call
  obtain ⟨_, mid, marked, h⟩ := returns_bind.mp h
  obtain ⟨_, _, found, h⟩ := returns_bind.mp h
  obtain ⟨currentSnaps, current, rfl, rfl⟩ := returns_findCurrentSnapshot found
  exact ⟨previousSnaps, currentSnaps, mid, listed, marked, current, h⟩

end Returns

namespace Snapshots

variable {ss ss' : Snapshots}

/-- A snapshot is labelled previous, and a more recent one is too. -/
def Outdated (ss : Snapshots) (t : Snapshot) : Prop :=
  t.status = some .previous ∧ ∃ u ∈ ss.items, u.status = some .previous ∧
    t.creationTimestamp < u.creationTimestamp

instance (t : Snapshot) : Decidable (ss.Outdated t) := by
  unfold Outdated
  infer_instance

def Distinct (ss : Snapshots) : Prop :=
  ∀ t ∈ ss.items, ∀ u ∈ ss.items, t.creationTimestamp = u.creationTimestamp → t = u

instance : Decidable ss.Distinct := by
  unfold Distinct
  infer_instance

/-- What the rotation is to make of a snapshot when this one is the first current one. -/
def intended (ss : Snapshots) (first : Option Snapshot) (t : Snapshot) : Snapshot :=
  if ss.Outdated t then { t with status := none, cleanup := true }
  else if first = some t then { t with status := some .previous }
  else t

theorem nodup_items : ss.items.Nodup := ss.nodup.of_map

theorem mem_superseded_iff (distinct : ss.Distinct) {listed : List Snapshot}
    (perm : listed.Perm (ss.withStatus .previous)) {t : Snapshot} :
    t ∈ superseded listed ↔ t ∈ ss.items ∧ ss.Outdated t := by
  have mem : ∀ {u}, u ∈ listed ↔ u ∈ ss.items ∧ u.status = some .previous :=
    perm.mem_iff.trans mem_withStatus
  by_cases empty : listed = []
  · subst empty
    constructor
    · intro h
      cases h
    · rintro ⟨ht, status, -⟩
      cases mem.mpr ⟨ht, status⟩
  obtain ⟨last, at_, newest⟩ := latestSnapIndex_spec empty
  have hl : last ∈ listed := List.mem_of_getElem? at_
  rw [mem_superseded (perm.nodup_iff.mpr (nodup_items.filter _))
    (fun s hs t ht => distinct s (mem.mp hs).1 t (mem.mp ht).1) hl newest, mem]
  constructor
  · rintro ⟨⟨ht, status⟩, hne⟩
    have older : t.creationTimestamp ≠ last.creationTimestamp := fun eq =>
      hne (distinct t ht last (mem.mp hl).1 eq)
    exact ⟨ht, status, last, (mem.mp hl).1, (mem.mp hl).2,
      lt_of_le_of_ne (newest t (mem.mpr ⟨ht, status⟩)) older⟩
  · rintro ⟨ht, status, u, hu, previous, older⟩
    refine ⟨⟨ht, status⟩, fun eq => ?_⟩
    have := newest u (mem.mpr ⟨hu, previous⟩)
    rw [eq] at older
    omega

variable {api : Api} {u : Unit}

theorem items_markSuperseded {todo : List Snapshot} (nodup : todo.Nodup)
    (labelled : ∀ t ∈ todo, t ∈ ss.items ∧ t.status.isSome = true)
    (h : Returns (api.markSuperseded todo) ss u ss') :
    ss'.items = ss.items.map fun t => if t ∈ todo then t.supersede.2 else t := by
  induction todo generalizing ss with
  | nil =>
    obtain ⟨-, rfl⟩ := returns_pure.mp h
    simp
  | cons snap rest ih =>
    obtain ⟨mem, label⟩ := labelled snap List.mem_cons_self
    obtain ⟨fresh, nodup⟩ := List.nodup_cons.mp nodup
    have updated := Snapshot.supersede_eq label
    have name : snap.supersede.2.name = snap.name := by rw [updated]
    have other : snap.supersede.2 ∉ rest := fun h => fresh
      (KeyedStore.eq_of_key (labelled _ (List.mem_cons_of_mem _ h)).1 mem name ▸ h)
    have h := returns_markSuperseded h
    rw [if_pos (by rw [updated])] at h
    rw [ih nodup ?_ h, KeyedStore.items_update _ mem name, List.map_map]
    · refine List.map_congr_left fun t _ => ?_
      by_cases same : t = snap
      · simp [same, other]
      · simp [same]
    · intro t ht
      obtain ⟨mem', label'⟩ := labelled t (List.mem_cons_of_mem _ ht)
      have hne : t ≠ snap := fun eq => fresh (eq ▸ ht)
      exact ⟨(KeyedStore.mem_update_of_mem _ mem name).mpr (.inl ⟨mem', hne⟩), label'⟩

theorem items_setSnapshotStatus {first : Option Snapshot}
    (current : ∀ t, first = some t → t ∈ ss.items ∧ t.status = some .current)
    (h : Returns (api.setSnapshotStatus first .previous) ss u ss') :
    ss'.items = ss.items.map fun t =>
      if first = some t then { t with status := some .previous } else t := by
  cases first with
  | none =>
    obtain ⟨-, rfl⟩ := returns_pure.mp h
    simp
  | some snap =>
    obtain ⟨mem, status⟩ := current snap rfl
    have name : (snap.addLabel .previous).2.name = snap.name := rfl
    rw [returns_setSnapshotStatus h, if_pos (by simp [Snapshot.addLabel, status]),
      KeyedStore.items_update _ mem name]
    refine List.map_congr_left fun t _ => ?_
    by_cases same : t = snap
    · simp [same, Snapshot.addLabel]
    · simp [same, Ne.symm same]

theorem withStatus_current {todo : List Snapshot}
    (previous : ∀ t ∈ todo, t.status = some .previous)
    (items : ss'.items = ss.items.map fun t => if t ∈ todo then t.supersede.2 else t) :
    ss'.withStatus .current = ss.withStatus .current := by
  have keep : ∀ t, (if t ∈ todo then t.supersede.2 else t).status = some .current ↔
      t.status = some .current := by
    intro t
    split_ifs with h
    · rw [Snapshot.supersede_eq (by rw [previous t h]; rfl), previous t h]
      cases t.cleanup <;> simp
    · rfl
  unfold withStatus
  rw [items, List.filter_map]
  simp only [Function.comp_def, keep]
  refine (List.map_congr_left fun t ht => if_neg fun h => ?_).trans (List.map_id _)
  have status := of_decide_eq_true (List.mem_filter.mp ht).2
  rw [previous t h] at status
  cases status

def outcome (ss : Snapshots) (first : Option Snapshot) (t : Snapshot) : Snapshot :=
  if ss.Outdated t then t.supersede.2
  else if first = some t then { t with status := some .previous }
  else t

theorem outcome_eq_intended_iff {first : Option Snapshot} {t : Snapshot} :
    ss.outcome first t = ss.intended first t ↔ (ss.Outdated t → t.cleanup = true) := by
  unfold outcome intended
  split_ifs with outdated current
  · rw [Snapshot.supersede_eq (by rw [outdated.1]; rfl)]
    cases t.cleanup <;> simp [outdated, outdated.1]
  · simp [outdated]
  · simp [outdated]

theorem items_transition (distinct : ss.Distinct)
    (h : Returns api.transitionSnapshotStatuses ss u ss') :
    ∃ currentSnaps, api.list .current (ss.withStatus .current) = some currentSnaps ∧
      ss'.items = ss.items.map (ss.outcome currentSnaps.head?) := by
  obtain ⟨previousSnaps, currentSnaps, mid, listed, marked, current, relabelled⟩ :=
    returns_transition h
  have outdated : ∀ {t}, t ∈ superseded previousSnaps ↔ t ∈ ss.items ∧ ss.Outdated t :=
    mem_superseded_iff distinct (api.perm listed)
  have nodup : (superseded previousSnaps).Nodup :=
    ((api.perm listed).nodup_iff.mpr (nodup_items.filter _)).sublist superseded_sublist
  have marks := items_markSuperseded nodup
    (fun t ht => ⟨(outdated.mp ht).1, by rw [(outdated.mp ht).2.1]; rfl⟩) marked
  have head : ∀ t, currentSnaps.head? = some t → t ∈ mid.items ∧ t.status = some .current :=
    fun t ht => mem_withStatus.mp ((api.perm current).subset (List.mem_of_head? ht))
  refine ⟨currentSnaps, ?_, ?_⟩
  · rwa [withStatus_current (fun t ht => (outdated.mp ht).2.1) marks] at current
  rw [items_setSnapshotStatus head relabelled, marks, List.map_map]
  refine List.map_congr_left fun t ht => ?_
  have mem : t ∈ superseded previousSnaps ↔ ss.Outdated t := by simp [outdated, ht]
  simp only [Function.comp_apply, mem, outcome]
  split_ifs with old first
  · have status := (head _ first).2
    rw [Snapshot.supersede_eq (by rw [old.1]; rfl), old.1] at status
    cases hc : t.cleanup <;> simp [hc] at status
  · rfl
  · rfl
  · rfl

/-- The rotation leaves the intended labels exactly if every outdated snapshot was marked
before: one that the loop marks keeps its label. -/
theorem transition_intended_iff (api : Api) (ss ss' : Snapshots) (distinct : ss.Distinct)
    (done : Returns api.transitionSnapshotStatuses ss () ss') :
    ∃ currentSnaps, api.list .current (ss.withStatus .current) = some currentSnaps ∧
      (ss'.items = ss.items.map (ss.intended currentSnaps.head?) ↔
        ∀ t ∈ ss.items, ss.Outdated t → t.cleanup = true) := by
  obtain ⟨currentSnaps, current, items⟩ := items_transition distinct done
  refine ⟨currentSnaps, current, ?_⟩
  rw [items, List.map_inj_left]
  exact forall₂_congr fun t _ => outcome_eq_intended_iff

def third (marked : Bool) : Snapshots :=
  ⟨[Iterations.sample "a" 1 (some .previous) marked, Iterations.sample "b" 2 (some .previous) false,
    Iterations.sample "c" 3 (some .current) false], by revert marked; decide +kernel⟩

end Snapshots

/-- Every call succeeds, and a list comes in the order of the store. -/
def Api.inOrder : Api := ⟨fun _ items => some items, fun _ => true, fun h => by cases h; rfl⟩

theorem Returns.of_ok {m : MoverM Unit} {ss : Snapshots} (ok : (m.run.run ss).run.1.toBool = true) :
    Returns m ss () (m.run.run ss).run.2 := by
  unfold Returns
  cases h : (m.run.run ss).run with
  | mk result ss' =>
    rw [h] at ok
    cases result with
    | error e => cases ok
    | ok u => rfl

namespace Snapshots

theorem transition_intended_iff_marked : ∃ ss',
    Returns Api.inOrder.transitionSnapshotStatuses (third true) () ss' ∧
    ss'.items = (third true).items.map
      ((third true).intended (some (Iterations.sample "c" 3 (some .current) false))) := by
  have done := @Returns.of_ok Api.inOrder.transitionSnapshotStatuses (third true)
    (by decide +kernel)
  obtain ⟨currentSnaps, current, iff⟩ := transition_intended_iff _ _ _ (by decide +kernel) done
  have first : currentSnaps.head? = some (Iterations.sample "c" 3 (some .current) false) := by
    cases current
    decide +kernel
  rw [first] at iff
  exact ⟨_, done, iff.mpr (by decide +kernel)⟩

/-- The first snapshot is outdated and not marked. It is marked, and is still previous. -/
theorem transition_keeps_label : (third false).Distinct ∧ ∃ ss',
    Returns Api.inOrder.transitionSnapshotStatuses (third false) () ss' ∧
    (third false).Outdated (Iterations.sample "a" 1 (some .previous) false) ∧
    Iterations.sample "a" 1 (some .previous) true ∈ ss'.items ∧
    ss'.items ≠ (third false).items.map
      ((third false).intended ((third false).withStatus .current).head?) :=
  ⟨by decide +kernel, _, Returns.of_ok (by decide +kernel), by decide +kernel, by decide +kernel,
    by decide +kernel⟩

end Snapshots

theorem reach_markSuperseded {api : Api} {todo : List Snapshot} {s : Iterations} {ss' : Snapshots}
    {u : Unit} (phase : s.phase = .cleanup (.mark todo))
    (h : Returns (api.markSuperseded todo) s.snapshots u ss') :
    Reach Iterations.step s { s with snapshots := ss', phase := .cleanup (.mark []) } := by
  induction todo generalizing s with
  | nil =>
    obtain ⟨-, rfl⟩ := returns_pure.mp h
    rw [← phase]
    exact .refl
  | cons snap rest ih =>
    have step : s.step .call = some { s with
        snapshots := if snap.supersede.1 then s.snapshots.update snap.supersede.2 else s.snapshots
        phase := .cleanup (.mark rest) } := by
      simp [Iterations.step, phase, Iterations.call]
    exact .head step (ih rfl (returns_markSuperseded h))

theorem reach_transition {api : Api} {s : Iterations} {ss' : Snapshots} {u : Unit}
    (phase : s.phase = .cleanup .start)
    (h : Returns api.transitionSnapshotStatuses s.snapshots u ss') :
    ∃ s', Reach Iterations.step s s' ∧ s'.phase = .cleanup .listMarked ∧ s'.snapshots = ss' := by
  obtain ⟨previousSnaps, currentSnaps, mid, previous, marked, current, relabelled⟩ :=
    returns_transition h
  have listed : s.step (.list previousSnaps) =
      some { s with phase := .cleanup (.mark (superseded previousSnaps)) } := by
    simp [Iterations.step, phase, Iterations.list, api.perm previous]
  have marks := @reach_markSuperseded api (superseded previousSnaps)
    { s with phase := .cleanup (.mark (superseded previousSnaps)) } mid () rfl marked
  have find := Reach.head listed (marks.tail .call rfl)
  have perm := api.perm current
  cases currentSnaps with
  | nil =>
    obtain ⟨-, rfl⟩ := returns_pure.mp relabelled
    have none : Iterations.step { s with snapshots := mid, phase := .cleanup .find } (.list []) =
        some { s with snapshots := mid, phase := .cleanup .listMarked } := by
      simp [Iterations.step, Iterations.list, List.nil_perm.mp perm]
    exact ⟨_, find.tail _ none, rfl, rfl⟩
  | cons snap rest =>
    have found : Iterations.step { s with snapshots := mid, phase := .cleanup .find }
        (.list (snap :: rest)) =
        some { s with snapshots := mid, phase := .cleanup (.relabel snap) } := by
      simp [Iterations.step, Iterations.list, perm]
    exact ⟨_, (find.tail _ found).tail .call rfl, rfl, (returns_setSnapshotStatus relabelled).symm⟩

end CephVolsync.Mover
