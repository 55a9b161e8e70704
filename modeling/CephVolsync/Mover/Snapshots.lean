import CephVolsync.Basic
import CephVolsync.Library.KeyedStore

/-! The snapshots of a source mover (`internal/mover/ceph/snapshot_method.go`): the objects that
the API server holds, the labels that the mover puts on them, and the handles that it
passes to its worker. The order in which the server lists objects is not specified, so a
function that lists them takes the list it is given. -/

namespace CephVolsync.Mover

/-- The values of the status label; the mover writes only the first two. -/
inductive SnapshotStatus where
  | current
  | previous
  | other (value : GoString)
  deriving DecidableEq, Repr

structure SnapshotContent where
  name : GoString
  snapshotHandle : Option GoString
  deriving DecidableEq, Repr

/-- `VolumeSnapshot`. `status` is the label with the mover's `snapStatusLabelKey`, `cleanup`
says that it has the owner's cleanup label, and `content` is what the bound content name
refers to. -/
structure Snapshot where
  name : GoString
  creationTimestamp : ℕ
  status : Option SnapshotStatus
  cleanup : Bool
  readyToUse : Bool
  content : Option SnapshotContent
  deriving DecidableEq, Repr

namespace Snapshot

/-- `utils.MarkForCleanup`. The result says whether the object has changed. -/
def markForCleanup (snap : Snapshot) : Bool × Snapshot :=
  (!snap.cleanup, { snap with cleanup := true })

/-- `utils.RemoveLabel` for the status label. -/
def removeLabel (snap : Snapshot) : Bool × Snapshot :=
  (snap.status.isSome, { snap with status := none })

/-- `utils.AddLabel` for the status label. -/
def addLabel (snap : Snapshot) (status : SnapshotStatus) : Bool × Snapshot :=
  (decide (snap.status ≠ some status), { snap with status := some status })

/-- The turn of the loop over the superseded snapshots. The label is removed only when the
mark has changed nothing. -/
def supersede (snap : Snapshot) : Bool × Snapshot :=
  let (updated, snap) := snap.markForCleanup
  if updated then (true, snap) else snap.removeLabel

def handle (snap : Snapshot) : Option GoString :=
  if snap.readyToUse then snap.content.bind (·.snapshotHandle) else none

theorem supersede_eq {snap : Snapshot} (labelled : snap.status.isSome = true) :
    snap.supersede = (true, { snap with
      cleanup := true
      status := if snap.cleanup then none else snap.status }) := by
  unfold supersede markForCleanup removeLabel
  cases snap.cleanup
  · rfl
  · simp only [labelled]
    rfl

end Snapshot

abbrev Snapshots := KeyedStore Snapshot.name

namespace Snapshots

/-- What `List` returns for a status, up to the order. -/
def withStatus (ss : Snapshots) (status : SnapshotStatus) : List Snapshot :=
  ss.items.filter fun s => s.status = some status

def marked (ss : Snapshots) : List Snapshot := ss.items.filter (·.cleanup)

variable {ss : Snapshots}

theorem mem_withStatus {status : SnapshotStatus} {t : Snapshot} :
    t ∈ ss.withStatus status ↔ t ∈ ss.items ∧ t.status = some status := by
  simp [withStatus]

theorem mem_marked {t : Snapshot} : t ∈ ss.marked ↔ t ∈ ss.items ∧ t.cleanup = true := by
  simp [marked]

end Snapshots

/-- The loop that looks for the most recent of the listed snapshots. -/
def latestLoop : List Snapshot → ℕ → ℕ → ℕ → ℕ
  | [], _, latestSnapIndex, _ => latestSnapIndex
  | snap :: rest, i, latestSnapIndex, latestSnapTime =>
    if snap.creationTimestamp > latestSnapTime then latestLoop rest (i + 1) i snap.creationTimestamp
    else latestLoop rest (i + 1) latestSnapIndex latestSnapTime

def latestSnapIndex : List Snapshot → ℕ
  | [] => 0
  | first :: rest => latestLoop rest 1 0 first.creationTimestamp

def superseded (previousSnaps : List Snapshot) : List Snapshot :=
  if previousSnaps.length > 1 then previousSnaps.eraseIdx (latestSnapIndex previousSnaps) else []

theorem superseded_sublist {snaps : List Snapshot} : (superseded snaps).Sublist snaps := by
  unfold superseded
  split_ifs
  · exact List.eraseIdx_sublist ..
  · exact List.nil_sublist _

theorem latestLoop_spec (rest : List Snapshot) {seen : List Snapshot} {best : ℕ} {b : Snapshot}
    (hb : seen[best]? = some b) (le : ∀ s ∈ seen, s.creationTimestamp ≤ b.creationTimestamp) :
    ∃ m, (seen ++ rest)[latestLoop rest seen.length best b.creationTimestamp]? = some m ∧
      ∀ s ∈ seen ++ rest, s.creationTimestamp ≤ m.creationTimestamp := by
  induction rest generalizing seen best b with
  | nil =>
    rw [List.append_nil]
    exact ⟨b, hb, le⟩
  | cons snap rest ih =>
    have split : seen ++ snap :: rest = (seen ++ [snap]) ++ rest := by simp
    have length : seen.length + 1 = (seen ++ [snap]).length := by simp
    rw [latestLoop, split]
    split_ifs with newer
    · rw [length]
      refine ih (by simp) fun s hs => ?_
      rcases List.mem_append.mp hs with hs | hs
      · exact (le s hs).trans newer.le
      · rw [List.mem_singleton.mp hs]
    · rw [length]
      refine ih ?_ fun s hs => ?_
      · rw [List.getElem?_append_left (List.getElem?_eq_some_iff.mp hb).1, hb]
      · rcases List.mem_append.mp hs with hs | hs
        · exact le s hs
        · rw [List.mem_singleton.mp hs]
          exact Nat.le_of_not_lt newer

theorem latestSnapIndex_spec {snaps : List Snapshot} (hne : snaps ≠ []) :
    ∃ m, snaps[latestSnapIndex snaps]? = some m ∧
      ∀ s ∈ snaps, s.creationTimestamp ≤ m.creationTimestamp := by
  cases snaps with
  | nil => exact absurd rfl hne
  | cons first rest =>
    exact @latestLoop_spec rest [first] 0 first rfl fun s hs => by rw [List.mem_singleton.mp hs]

theorem mem_superseded {snaps : List Snapshot} (nodup : snaps.Nodup)
    (times : ∀ s ∈ snaps, ∀ t ∈ snaps, s.creationTimestamp = t.creationTimestamp → s = t)
    {last : Snapshot} (hl : last ∈ snaps)
    (newest : ∀ s ∈ snaps, s.creationTimestamp ≤ last.creationTimestamp) {t : Snapshot} :
    t ∈ superseded snaps ↔ t ∈ snaps ∧ t ≠ last := by
  obtain ⟨m, hm, le⟩ := latestSnapIndex_spec (List.ne_nil_of_mem hl)
  have mem : m ∈ snaps := List.mem_of_getElem? hm
  have same : m = last := times m mem last hl ((newest m mem).antisymm (le last hl))
  rw [same] at hm
  unfold superseded
  split_ifs with many
  · rw [List.mem_eraseIdx_iff_getElem?]
    constructor
    · rintro ⟨i, hi, ht⟩
      refine ⟨List.mem_of_getElem? ht, fun eq => hi ?_⟩
      rw [eq, ← hm] at ht
      exact (List.getElem?_inj (by
        rw [hm] at ht
        exact (List.getElem?_eq_some_iff.mp ht).1) nodup).mp ht
    · rintro ⟨ht, hne⟩
      obtain ⟨i, hi⟩ := List.getElem?_of_mem ht
      refine ⟨i, fun eq => hne ?_, hi⟩
      rw [eq, hm] at hi
      cases hi
      rfl
  · constructor
    · intro h
      cases h
    · rintro ⟨ht, hne⟩
      obtain ⟨a, rfl⟩ := List.length_eq_one_iff.mp
        ((Nat.le_of_not_lt many).antisymm (List.length_pos_of_mem hl))
      exact absurd ((List.mem_singleton.mp ht).trans (List.mem_singleton.mp hl).symm) hne

/-- A failed call of the API, or the text of an error of the mover. -/
inductive MoverErr where
  | api
  | text (message : GoString)
  deriving DecidableEq, Repr

structure PersistentVolume where
  name : GoString
  bound : Bool
  volumeHandle : Option GoString
  deriving DecidableEq, Repr

/-- What `getVolumeEnvVars` reads: the volume names of the claims, the volumes, and the
snapshots. -/
structure Cluster where
  claims : GoString → Option GoString
  volumes : GoString → Option PersistentVolume
  snapshots : Snapshots

/-- The settings of the mover that select a branch; the names are its options. -/
structure MoverConfig where
  isSource : Bool
  copyMethodDirect : Bool
  mainPVCName : GoString
  volumeName : GoString
  baseSnapshotName : GoString
  targetSnapshotName : GoString
  deriving DecidableEq, Repr

structure EnvVar where
  name : GoString
  value : GoString
  deriving DecidableEq, Repr

def envVolumeHandle : GoString := goString "VOLUME_HANDLE"

def envBaseSnapshotHandle : GoString := goString "BASE_SNAPSHOT_HANDLE"

def envTargetSnapshotHandle : GoString := goString "TARGET_SNAPSHOT_HANDLE"

namespace Cluster

def getClaim (cl : Cluster) (name : GoString) : Except MoverErr GoString :=
  match cl.claims name with
  | none => .error .api
  | some volumeName => .ok volumeName

def getVolumeHandle (cl : Cluster) (volumeName : GoString) : Except MoverErr GoString :=
  match cl.volumes volumeName with
  | none => .error .api
  | some pv =>
    if pv.bound then
      match pv.volumeHandle with
      | none => .error (.text (goString "PV " ++ pv.name ++ goString " is not a CSI volume"))
      | some handle => .ok handle
    else .error (.text (goString "PV " ++ pv.name ++ goString " is not bound"))

def getSnapshotHandle (cl : Cluster) (snapshotName : GoString) : Except MoverErr GoString :=
  match cl.snapshots.get snapshotName with
  | none => .error .api
  | some snapshot =>
    if snapshot.readyToUse then
      match snapshot.content with
      | none => .error (.text
          (goString "snapshot " ++ snapshot.name ++ goString " has no bound content"))
      | some content =>
        match content.snapshotHandle with
        | none => .error (.text
            (goString "snapshot content " ++ content.name ++ goString " has no handle"))
        | some handle => .ok handle
    else .error (.text (goString "snapshot " ++ snapshot.name ++ goString " is not ready"))

/-- `dataVolume` is the volume name of the data claim; `previous` and `current` are what
`List` returns for the two states. -/
def getVolumeEnvVars (m : MoverConfig) (cl : Cluster) (dataVolume : GoString)
    (previous current : List Snapshot) : Except MoverErr (List EnvVar) := do
  let srcVolume ← cl.getClaim m.mainPVCName
  if !m.isSource then
    let volumeHandle ← cl.getVolumeHandle dataVolume
    return [⟨envVolumeHandle, volumeHandle⟩]
  if m.copyMethodDirect then
    if m.volumeName = [] ∨ m.baseSnapshotName = [] ∨ m.targetSnapshotName = [] then
      let volumeHandle ← cl.getVolumeHandle dataVolume
      return [⟨envVolumeHandle, volumeHandle⟩]
    let volume ← cl.getClaim m.volumeName
    let volumeHandle ← cl.getVolumeHandle volume
    let baseSnapshotHandle ← cl.getSnapshotHandle m.baseSnapshotName
    let targetSnapshotHandle ← cl.getSnapshotHandle m.targetSnapshotName
    return [⟨envVolumeHandle, volumeHandle⟩, ⟨envBaseSnapshotHandle, baseSnapshotHandle⟩,
      ⟨envTargetSnapshotHandle, targetSnapshotHandle⟩]
  match previous with
  | [] =>
    let volumeHandle ← cl.getVolumeHandle srcVolume
    return [⟨envVolumeHandle, volumeHandle⟩]
  | previousSnap :: _ =>
    let baseSnapHandle ← cl.getSnapshotHandle previousSnap.name
    match current with
    | [] => throw (.text (goString "no current snapshot found for target snapshot handle"))
    | targetSnapshot :: _ =>
      let targetSnapHandle ← cl.getSnapshotHandle targetSnapshot.name
      let volumeHandle ← cl.getVolumeHandle srcVolume
      return [⟨envVolumeHandle, volumeHandle⟩, ⟨envBaseSnapshotHandle, baseSnapHandle⟩,
        ⟨envTargetSnapshotHandle, targetSnapHandle⟩]

theorem getSnapshotHandle_eq {cl : Cluster} {t : Snapshot} (ht : t ∈ cl.snapshots.items)
    {handle : GoString} (h : t.handle = some handle) :
    cl.getSnapshotHandle t.name = .ok handle := by
  unfold Snapshot.handle at h
  split_ifs at h with ready
  obtain ⟨content, hc, hh⟩ := Option.bind_eq_some_iff.mp h
  simp [getSnapshotHandle, KeyedStore.get_eq ht, ready, hc, hh]

theorem getVolumeEnvVars_incremental {m : MoverConfig} {cl : Cluster}
    {dataVolume srcVolume : GoString}
    (source : m.isSource = true) (copied : m.copyMethodDirect = false)
    (claim : cl.claims m.mainPVCName = some srcVolume) {volumeHandle : GoString}
    (volume : cl.getVolumeHandle srcVolume = .ok volumeHandle) {p c : Snapshot}
    {ps cs : List Snapshot} (hp : p ∈ cl.snapshots.items) (hc : c ∈ cl.snapshots.items)
    {base target : GoString} (hbase : p.handle = some base) (htarget : c.handle = some target) :
    cl.getVolumeEnvVars m dataVolume (p :: ps) (c :: cs) = .ok [⟨envVolumeHandle, volumeHandle⟩,
      ⟨envBaseSnapshotHandle, base⟩, ⟨envTargetSnapshotHandle, target⟩] := by
  have claim : cl.getClaim m.mainPVCName = .ok srcVolume := by rw [getClaim, claim]
  have base := getSnapshotHandle_eq hp hbase
  have target := getSnapshotHandle_eq hc htarget
  simp [getVolumeEnvVars, claim, source, copied, base, target, volume, bind, Except.bind, pure,
    Except.pure]

end Cluster

end CephVolsync.Mover
