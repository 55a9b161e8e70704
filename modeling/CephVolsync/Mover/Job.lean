import CephVolsync.Mover.Transition

/-! The mover Job (`internal/mover/ceph/job.go`): the object that the callback of `ensureJob`
fills, how `CreateOrUpdate` can end around it, and what `ensureJob` makes of the outcome. A
dereference of a nil pointer ends a function without a result. What the helpers of VolSync put
on an object is a flag, and their changes for debugging and for a `MoverConfig`, which is always
empty, are left out. -/

namespace CephVolsync.Mover

inductive MoverType where
  | cephfs
  | rbd
  deriving DecidableEq, Repr

def MoverType.string : MoverType → GoString
  | .cephfs => goString "cephfs"
  | .rbd => goString "rbd"

/-- The fields of `Mover` that the Job depends on; the last three are options. -/
structure CephMover where
  ownerName : GoString
  ownerNamespace : GoString
  containerImage : GoString
  moverType : MoverType
  address : Option GoString
  port : Option ℤ
  isSource : Bool
  paused : Bool
  mainPVCName : Option GoString
  privileged : Bool
  copyMethodDirect : Bool
  volumeName : GoString
  baseSnapshotName : GoString
  targetSnapshotName : GoString
  deriving DecidableEq, Repr

section Object

inductive EnvSource where
  | value (value : GoString)
  | fieldRef (fieldPath : GoString)
  deriving DecidableEq, Repr

structure ContainerEnvVar where
  name : GoString
  source : EnvSource
  deriving DecidableEq, Repr

structure VolumeMount where
  name : GoString
  mountPath : GoString
  readOnly : Bool
  deriving DecidableEq, Repr

structure VolumeDevice where
  name : GoString
  devicePath : GoString
  deriving DecidableEq, Repr

inductive VolumeSource where
  | persistentVolumeClaim (claimName : GoString) (readOnly : Bool)
  | secret (secretName : GoString) (defaultMode : ℕ)
  | emptyDir (memory : Bool)
  | configMap (name : GoString)
  deriving DecidableEq, Repr

structure Volume where
  name : GoString
  source : VolumeSource
  deriving DecidableEq, Repr

structure SecurityContext where
  allowPrivilegeEscalation : Bool
  capabilitiesDrop : List GoString
  capabilitiesAdd : List GoString
  privileged : Bool
  readOnlyRootFilesystem : Bool
  runAsUser : ℤ
  deriving DecidableEq, Repr

structure Container where
  name : GoString
  env : List ContainerEnvVar
  image : GoString
  securityContext : SecurityContext
  volumeMounts : List VolumeMount
  volumeDevices : List VolumeDevice
  deriving DecidableEq, Repr

structure Toleration where
  key : GoString
  operator : GoString
  value : GoString
  effect : GoString
  deriving DecidableEq, Repr

structure Affinity where
  nodeSelector : List (GoString × GoString)
  tolerations : List Toleration
  deriving DecidableEq, Repr

inductive RestartPolicy where
  | always
  | onFailure
  | never
  deriving DecidableEq, Repr

inductive DNSPolicy where
  | clusterFirst
  | clusterFirstWithHostNet
  | default
  | none
  deriving DecidableEq, Repr

structure PodSecurityContext where
  fsGroupChangePolicy : GoString
  seLinuxType : GoString
  deriving DecidableEq, Repr

structure PodSpec where
  containers : List Container
  restartPolicy : Option RestartPolicy
  hostNetwork : Bool
  dnsPolicy : Option DNSPolicy
  securityContext : Option PodSecurityContext
  serviceAccountName : GoString
  volumes : List Volume
  affinity : Affinity
  deriving DecidableEq, Repr

structure PodTemplate where
  name : GoString
  labels : List (GoString × GoString)
  ownedByVolSync : Bool
  spec : PodSpec
  deriving DecidableEq, Repr

structure JobStatus where
  failed : ℤ
  succeeded : ℤ
  deriving DecidableEq, Repr

structure Job where
  name : GoString
  inNamespace : GoString
  controller : Option GoString
  ownedByVolSync : Bool
  cleanup : Bool
  backoffLimit : Option ℤ
  parallelism : Option ℤ
  template : PodTemplate
  status : JobStatus
  deriving DecidableEq, Repr

end Object

/-- The nil pointers that are dereferenced on the way. -/
inductive NilDereference where
  | mainPVCName
  | backoffLimit
  deriving DecidableEq, Repr

/-- A failed call, or the error of a function of the mover with the text in front of it. -/
inductive JobErr where
  | api (message : GoString)
  | wrapped (text : GoString) (err : MoverErr)
  deriving DecidableEq, Repr

structure DataPVC where
  name : GoString
  volumeName : GoString
  blockMode : Bool
  readOnly : Bool
  deriving DecidableEq, Repr

structure JobArgs where
  dataPVC : DataPVC
  serviceAccount : GoString
  rsyncSecretName : GoString
  csiConfigMapName : GoString
  csiSecretName : GoString
  deriving DecidableEq, Repr

inductive OperationResult where
  | none
  | created
  | updated
  deriving DecidableEq, Repr

inductive CreateAnswer where
  | created (status : JobStatus)
  | failed (message : GoString)
  deriving DecidableEq, Repr

/-- How the update of a Job that exists ends. If it changes an immutable field the Job is deleted,
to be created by a later call; what is in memory behind that and what is returned is left open. -/
inductive UpdateAnswer where
  | unchanged
  | updated (status : JobStatus)
  | failed (message : GoString)
  | deleteFailed (message : GoString)
  | deleted (status : JobStatus) (err : Option JobErr)
  deriving DecidableEq, Repr

/-- What the `Get` of `CreateOrUpdate` returns, with the answer to the write after it. -/
inductive GetAnswer where
  | failed (message : GoString)
  | notFound (create : CreateAnswer)
  | found (stored : Job) (update : UpdateAnswer)
  deriving DecidableEq, Repr

/-- Everything that `ensureJob` is told from outside; an error is given by its message. -/
structure JobApi where
  get : GetAnswer
  setControllerReference : Option GoString
  cluster : Cluster
  lists : Api
  affinity : Except GoString Affinity
  delete : Option GoString

def CreateAnswer.result (job : Job) : CreateAnswer → Job × Except JobErr OperationResult
  | .created status => ({ job with status := status }, .ok .created)
  | .failed message => (job, .error (.api message))

def UpdateAnswer.result (job : Job) : UpdateAnswer → Job × Except JobErr OperationResult
  | .unchanged => (job, .ok .none)
  | .updated status => ({ job with status := status }, .ok .updated)
  | .failed message | .deleteFailed message => (job, .error (.api message))
  | .deleted status none => ({ job with status := status }, .ok .none)
  | .deleted status (some err) => ({ job with status := status }, .error err)

/-- `utils.CreateOrUpdateDeleteOnImmutableErr`. The object that was passed in is untouched when
`Get` fails, and keeps what the callback did to it before an error. -/
def createOrUpdateDeleteOnImmutableErr (get : GetAnswer) (job : Job)
    (mutate : Job → Except NilDereference (Job × Option JobErr)) :
    Except NilDereference (Job × Except JobErr OperationResult) :=
  match get with
  | .failed message => return (job, .error (.api message))
  | .notFound create => do
    match ← mutate job with
    | (job, some err) => return (job, .error err)
    | (job, none) => return create.result job
  | .found stored update => do
    match ← mutate stored with
    | (job, some err) => return (job, .error err)
    | (job, none) => return update.result job

def itoa (n : ℤ) : GoString := goString (toString n)

def dataVolumeName : GoString := goString "data"

def defaultCSIConfigName : GoString := goString "ceph-csi-config"

def csiSecretVolumeName : GoString := goString "ceph-csi-secret"

def tlsPort : ℤ := 8000

def addAllLabels (labels added : List (GoString × GoString)) : List (GoString × GoString) :=
  labels.filter (fun l => l.1 ∉ added.map (·.1)) ++ added

namespace CephMover

variable (m : CephMover)

def direction : GoString := if m.isSource then goString "src" else goString "dst"

def namePrefix : GoString :=
  match m.moverType with
  | .rbd => goString "ceph-volsync-rbd-"
  | .cephfs => goString "ceph-volsync-cephfs-"

def containerName : GoString :=
  match m.moverType with
  | .rbd => goString "rbd-mover"
  | .cephfs => goString "cephfs-mover"

def serviceSelector : List (GoString × GoString) :=
  [(goString "app.kubernetes.io/name", m.direction ++ goString "-" ++ m.ownerName),
    (goString "app.kubernetes.io/component", m.containerName),
    (goString "app.kubernetes.io/part-of", goString "ceph-volsync-plugin")]

def config (mainPVCName : GoString) : MoverConfig :=
  ⟨m.isSource, m.copyMethodDirect, mainPVCName, m.volumeName, m.baseSnapshotName,
    m.targetSnapshotName⟩

/-- `getVolumeEnvVars` with the dereference at its start and the two lists, which may fail. -/
def getVolumeEnvVars (api : JobApi) (dataPVC : DataPVC) :
    Except NilDereference (Except MoverErr (List EnvVar)) :=
  let cl := api.cluster
  match m.mainPVCName with
  | none => .error .mainPVCName
  | some mainPVCName => .ok (
    -- only a source with the Snapshot copy method lists snapshots
    if m.isSource ∧ ¬ m.copyMethodDirect then do
      let _ ← cl.getClaim mainPVCName
      match api.lists.list .previous (cl.snapshots.withStatus .previous),
        api.lists.list .current (cl.snapshots.withStatus .current) with
      | none, _ => throw .api
      | some (previousSnap :: _), none =>
        let _ ← cl.getSnapshotHandle previousSnap.name
        throw .api
      | some previous, current =>
        cl.getVolumeEnvVars (m.config mainPVCName) dataPVC.volumeName previous (current.getD [])
    else cl.getVolumeEnvVars (m.config mainPVCName) dataPVC.volumeName [] [])

def newJob : Job where
  name := m.namePrefix ++ m.direction ++ goString "-" ++ m.ownerName
  inNamespace := m.ownerNamespace
  controller := none
  ownedByVolSync := false
  cleanup := false
  backoffLimit := none
  parallelism := none
  template := ⟨[], [], false, ⟨[], none, false, none, none, [], [], ⟨[], []⟩⟩⟩
  status := ⟨0, 0⟩

/-- The callback up to `Parallelism`. -/
def setOwnership (job : Job) : Job :=
  { job with
    controller := some m.ownerName
    ownedByVolSync := true
    cleanup := true
    backoffLimit := some 2
    parallelism := some (if m.paused then 0 else 1)
    template := { job.template with
      name := job.name
      labels := addAllLabels job.template.labels m.serviceSelector
      ownedByVolSync := true } }

def addressEnv : List ContainerEnvVar :=
  if m.isSource then m.address.toList.map fun a => ⟨goString "DESTINATION_ADDRESS", .value a⟩
  else []

def containerEnv (volumeEnv : List EnvVar) : List ContainerEnvVar :=
  [⟨goString "WORKER_TYPE",
      .value (if m.isSource then goString "source" else goString "destination")⟩,
    ⟨goString "DESTINATION_PORT", .value (itoa (m.port.getD tlsPort))⟩,
    ⟨goString "LOG_LEVEL", .value (goString "info")⟩,
    ⟨goString "MOVER_TYPE", .value m.moverType.string⟩,
    ⟨goString "POD_NAMESPACE", .fieldRef (goString "metadata.namespace")⟩] ++
  m.addressEnv ++ volumeEnv.map fun e => ⟨e.name, .value e.value⟩

def volumeMounts (blockVolume : Bool) : List VolumeMount :=
  (if blockVolume then [] else [⟨dataVolumeName, goString "/data", false⟩]) ++
  [⟨goString "keys", goString "/keys", false⟩, ⟨goString "tempdir", goString "/tmp", false⟩,
    ⟨goString "ceph-config", goString "/etc/ceph", false⟩,
    ⟨defaultCSIConfigName, goString "/etc/ceph-csi-config", true⟩,
    ⟨csiSecretVolumeName, goString "/etc/ceph-csi-secret", true⟩]

def volumeDevices (blockVolume : Bool) : List VolumeDevice :=
  if blockVolume then [⟨dataVolumeName, goString "/dev/block"⟩] else []

def volumes (args : JobArgs) : List Volume :=
  [⟨dataVolumeName,
      .persistentVolumeClaim args.dataPVC.name (m.isSource && args.dataPVC.readOnly)⟩,
    ⟨goString "keys", .secret args.rsyncSecretName 0o600⟩,
    ⟨goString "tempdir", .emptyDir true⟩,
    ⟨goString "ceph-config", .emptyDir false⟩,
    ⟨defaultCSIConfigName, .configMap args.csiConfigMapName⟩,
    ⟨csiSecretVolumeName, .secret args.csiSecretName 0o600⟩]

def container (args : JobArgs) (volumeEnv : List EnvVar) : Container where
  name := m.containerName
  env := m.containerEnv volumeEnv
  image := m.containerImage
  securityContext := ⟨true, [goString "ALL"], [], false, true, 0⟩
  volumeMounts := volumeMounts args.dataPVC.blockMode
  volumeDevices := volumeDevices args.dataPVC.blockMode

def podSpec (args : JobArgs) (volumeEnv : List EnvVar) (spec : PodSpec) : PodSpec :=
  { spec with
    containers := [m.container args volumeEnv]
    restartPolicy := some .never
    hostNetwork := m.isSource || spec.hostNetwork
    dnsPolicy := if m.isSource then some .clusterFirstWithHostNet else spec.dnsPolicy
    securityContext := some ⟨goString "OnRootMismatch", goString "spc_t"⟩
    serviceAccountName := args.serviceAccount
    volumes := m.volumes args }

/-- The end of the callback: the container learns whether it is privileged. -/
def setPrivileged (c : Container) : Container :=
  if m.privileged then
    { c with
      env := c.env ++ [⟨goString "PRIVILEGED_MOVER", .value (goString "1")⟩]
      securityContext := { c.securityContext with
        capabilitiesAdd := [goString "DAC_OVERRIDE", goString "CHOWN", goString "FOWNER",
          goString "SETGID"]
        runAsUser := 0 } }
  else { c with env := c.env ++ [⟨goString "PRIVILEGED_MOVER", .value (goString "0")⟩] }

def setSpec (job : Job) (f : PodSpec → PodSpec) : Job :=
  { job with template := { job.template with spec := f job.template.spec } }

def setContainers (job : Job) : Job :=
  setSpec job fun spec => { spec with containers := spec.containers.map m.setPrivileged }

/-- The callback from the result of `getVolumeEnvVars` on. -/
def fillPodSpec (api : JobApi) (args : JobArgs) (job : Job) :
    Except MoverErr (List EnvVar) → Job × Option JobErr
  | .error err => (job, some (.wrapped (goString "failed to get volume env vars: ") err))
  | .ok volumeEnv =>
    let job := setSpec job (m.podSpec args volumeEnv)
    if m.copyMethodDirect then
      match api.affinity with
      | .error message => (job, some (.api message))
      | .ok affinity =>
        (m.setContainers (setSpec job fun spec => { spec with affinity := affinity }), none)
    else (m.setContainers job, none)

/-- The callback of `ensureJob`. An error leaves what is written so far. -/
def mutate (api : JobApi) (args : JobArgs) (job : Job) :
    Except NilDereference (Job × Option JobErr) :=
  match api.setControllerReference with
  | some message => return (job, some (.api message))
  | none => do
    let volumeEnv ← m.getVolumeEnvVars api args.dataPVC
    return m.fillPodSpec api args (m.setOwnership job) volumeEnv

/-- The callback ends with an error behind the controller reference. -/
def Unfilled (api : JobApi) (args : JobArgs) : Prop :=
  (∃ err, m.getVolumeEnvVars api args.dataPVC = .ok (.error err)) ∨
    m.copyMethodDirect = true ∧ ∃ message, api.affinity = .error message

/-- The Job in memory after `CreateOrUpdateDeleteOnImmutableErr`, with what it returned. -/
def reconcile (api : JobApi) (args : JobArgs) :
    Except NilDereference (Job × Except JobErr OperationResult) :=
  createOrUpdateDeleteOnImmutableErr api.get m.newJob (m.mutate api args)

end CephMover

inductive JobEffect where
  | updateMoverStatusForFailedJob
  | updateMoverStatusForSuccessfulJob
  | transferFailed (note : GoString)
  | transferStarted (dir : GoString)
  | delete (name : GoString)
  deriving DecidableEq, Repr

structure EnsureJobResult where
  effects : List JobEffect
  result : Except JobErr (Option Job)

def started (m : CephMover) (op : OperationResult) : List JobEffect :=
  if op = .created then
    [.transferStarted (if m.isSource then goString "transmit" else goString "receive")]
  else []

/-- `ensureJob` after the reconciliation. The failures are looked at before the error. -/
def handleReconciled (m : CephMover) (delete : Option GoString) (job : Job)
    (reconciled : Except JobErr OperationResult) : Except NilDereference EnsureJobResult :=
  match job.backoffLimit with
  | none => .error .backoffLimit
  | some backoffLimit =>
    if job.status.failed ≥ backoffLimit then
      .ok ⟨[.updateMoverStatusForFailedJob,
          .transferFailed (goString "mover Job backoff limit reached"), .delete job.name],
        match delete with
        | none => .ok none
        | some message => .error (.api message)⟩
    else
      match reconciled with
      | .error err => .ok ⟨[], .error err⟩
      | .ok op =>
        if job.status.succeeded = 0 then .ok ⟨started m op, .ok none⟩
        else .ok ⟨started m op ++ [.updateMoverStatusForSuccessfulJob], .ok (some job)⟩

namespace CephMover

variable (m : CephMover)

def ensureJob (api : JobApi) (args : JobArgs) : Except NilDereference EnsureJobResult := do
  let (job, reconciled) ← m.reconcile api args
  handleReconciled m api.delete job reconciled

theorem getVolumeEnvVars_eq {api : JobApi} {dataPVC : DataPVC} {mainPVCName : GoString}
    (named : m.mainPVCName = some mainPVCName) {previous current : List Snapshot}
    (hp : api.lists.list .previous (api.cluster.snapshots.withStatus .previous) = some previous)
    (hc : api.lists.list .current (api.cluster.snapshots.withStatus .current) = some current) :
    m.getVolumeEnvVars api dataPVC = .ok (api.cluster.getVolumeEnvVars (m.config mainPVCName)
      dataPVC.volumeName previous current) := by
  unfold getVolumeEnvVars
  rw [named]
  refine congrArg Except.ok ?_
  split_ifs with lists
  · rw [hp, hc]
    cases claim : api.cluster.getClaim mainPVCName with
    | error err => simp [Cluster.getVolumeEnvVars, config, claim, bind, Except.bind]
    | ok srcVolume => cases previous <;> rfl
  · unfold Cluster.getVolumeEnvVars
    cases source : m.isSource
    · simp [config, source]
    · have direct : m.copyMethodDirect = true := by simpa [source] using lists
      simp [config, source, direct]

end CephMover

section WellFormed

/-- What the API server asks of a pod: the names of its volumes and the mount paths are distinct,
mounts and devices refer to its volumes, and no variable is given twice. -/
structure PodSpec.WellFormed (spec : PodSpec) : Prop where
  volumes : (spec.volumes.map (·.name)).Nodup
  mounts : ∀ c ∈ spec.containers, ∀ v ∈ c.volumeMounts, v.name ∈ spec.volumes.map (·.name)
  devices : ∀ c ∈ spec.containers, ∀ d ∈ c.volumeDevices, d.name ∈ spec.volumes.map (·.name)
  mountPaths : ∀ c ∈ spec.containers, (c.volumeMounts.map (·.mountPath)).Nodup
  env : ∀ c ∈ spec.containers, (c.env.map (·.name)).Nodup

theorem bind_eq_ok {ε α β : Type} {x : Except ε α} {f : α → Except ε β} {b : β} :
    x >>= f = .ok b ↔ ∃ a, x = .ok a ∧ f a = .ok b := by
  cases x <;> simp [bind, Except.bind]

/-- The variables that `getVolumeEnvVars` can return, in their order. -/
def handleNames : List GoString :=
  [envVolumeHandle, envBaseSnapshotHandle, envTargetSnapshotHandle]

theorem Cluster.getVolumeEnvVars_names {m : MoverConfig} {cl : Cluster} {dataVolume : GoString}
    {previous current : List Snapshot} {env : List EnvVar}
    (h : cl.getVolumeEnvVars m dataVolume previous current = .ok env) :
    (env.map (·.name)).Sublist handleNames := by
  have one (handle : GoString) : ([⟨envVolumeHandle, handle⟩].map EnvVar.name).Sublist
      handleNames := List.Sublist.cons_cons _ (List.nil_sublist _)
  unfold Cluster.getVolumeEnvVars at h
  obtain ⟨srcVolume, -, h⟩ := bind_eq_ok.mp h
  split_ifs at h
  · obtain ⟨handle, -, h⟩ := bind_eq_ok.mp h
    cases h
    exact one handle
  · obtain ⟨handle, -, h⟩ := bind_eq_ok.mp h
    cases h
    exact one handle
  · obtain ⟨_, -, h⟩ := bind_eq_ok.mp h
    obtain ⟨_, -, h⟩ := bind_eq_ok.mp h
    obtain ⟨_, -, h⟩ := bind_eq_ok.mp h
    obtain ⟨_, -, h⟩ := bind_eq_ok.mp h
    cases h
    exact List.Sublist.refl _
  · cases previous with
    | nil =>
      obtain ⟨handle, -, h⟩ := bind_eq_ok.mp h
      cases h
      exact one handle
    | cons previousSnap _ =>
      obtain ⟨_, -, h⟩ := bind_eq_ok.mp h
      cases current with
      | nil => cases h
      | cons targetSnapshot _ =>
        obtain ⟨_, -, h⟩ := bind_eq_ok.mp h
        obtain ⟨_, -, h⟩ := bind_eq_ok.mp h
        cases h
        exact List.Sublist.refl _

variable {m : CephMover} {api : JobApi} {args : JobArgs} {job job' : Job}

theorem CephMover.getVolumeEnvVars_names {dataPVC : DataPVC} {env : List EnvVar}
    (h : m.getVolumeEnvVars api dataPVC = .ok (.ok env)) :
    (env.map (·.name)).Sublist handleNames := by
  unfold CephMover.getVolumeEnvVars at h
  cases named : m.mainPVCName with
  | none =>
    rw [named] at h
    cases h
  | some mainPVCName =>
    rw [named] at h
    replace h := Except.ok.inj h
    split_ifs at h
    · obtain ⟨_, -, h⟩ := bind_eq_ok.mp h
      split at h
      · cases h
      · obtain ⟨_, -, h⟩ := bind_eq_ok.mp h
        cases h
      · exact Cluster.getVolumeEnvVars_names h
    · exact Cluster.getVolumeEnvVars_names h

def envNames : List GoString :=
  [goString "WORKER_TYPE", goString "DESTINATION_PORT", goString "LOG_LEVEL",
    goString "MOVER_TYPE", goString "POD_NAMESPACE"] ++ [goString "DESTINATION_ADDRESS"] ++
  handleNames ++ [goString "PRIVILEGED_MOVER"]

theorem envNames_nodup : envNames.Nodup := by decide +kernel

theorem addressEnv_names :
    (m.addressEnv.map (·.name)).Sublist [goString "DESTINATION_ADDRESS"] := by
  unfold CephMover.addressEnv
  cases m.isSource with
  | false => exact List.nil_sublist _
  | true =>
    cases m.address with
    | none => exact List.nil_sublist _
    | some address => exact List.Sublist.refl _

theorem setPrivileged_names (c : Container) : (m.setPrivileged c).env.map (·.name) =
    c.env.map (·.name) ++ [goString "PRIVILEGED_MOVER"] := by
  unfold CephMover.setPrivileged
  split_ifs <;> exact List.map_append

theorem container_volumes (volumeEnv : List EnvVar) :
    (m.setPrivileged (m.container args volumeEnv)).volumeMounts =
        CephMover.volumeMounts args.dataPVC.blockMode ∧
      (m.setPrivileged (m.container args volumeEnv)).volumeDevices =
        CephMover.volumeDevices args.dataPVC.blockMode := by
  unfold CephMover.setPrivileged
  split_ifs <;> exact ⟨rfl, rfl⟩

theorem container_names {volumeEnv : List EnvVar}
    (names : (volumeEnv.map (·.name)).Sublist handleNames) :
    ((m.setPrivileged (m.container args volumeEnv)).env.map (·.name)).Sublist envNames := by
  rw [setPrivileged_names]
  refine List.Sublist.append ?_ (List.Sublist.refl _)
  simp only [CephMover.container, CephMover.containerEnv, List.map_append, List.map_map]
  exact ((List.Sublist.refl _).append addressEnv_names).append names

theorem volumeNames_nodup : ((m.volumes args).map (·.name)).Nodup := by
  have names : (m.volumes args).map (·.name) = [dataVolumeName, goString "keys",
    goString "tempdir", goString "ceph-config", defaultCSIConfigName, csiSecretVolumeName] := rfl
  rw [names]
  decide +kernel

theorem CephMover.wellFormed {spec : PodSpec} {volumeEnv : List EnvVar}
    (names : (volumeEnv.map (·.name)).Sublist handleNames)
    (containers : spec.containers = [m.setPrivileged (m.container args volumeEnv)])
    (volumes : spec.volumes = m.volumes args) : spec.WellFormed := by
  obtain ⟨mounts, devices⟩ := @container_volumes m args volumeEnv
  refine ⟨?_, ?_, ?_, ?_, ?_⟩ <;>
    simp only [containers, volumes, List.forall_mem_singleton, mounts, devices]
  · exact volumeNames_nodup
  · cases args.dataPVC.blockMode <;> simp [volumeMounts, CephMover.volumes]
  · cases args.dataPVC.blockMode <;> simp [volumeDevices, CephMover.volumes]
  · cases args.dataPVC.blockMode <;> decide +kernel
  · exact envNames_nodup.sublist (container_names names)

theorem fillPodSpec_wellFormed {volumeEnv : Except MoverErr (List EnvVar)}
    (names : ∀ env, volumeEnv = .ok env → (env.map (·.name)).Sublist handleNames)
    (h : (m.fillPodSpec api args job volumeEnv).2 = none) :
    (m.fillPodSpec api args job volumeEnv).1.template.spec.WellFormed := by
  cases volumeEnv with
  | error err => cases h
  | ok env =>
    unfold CephMover.fillPodSpec at h ⊢
    simp only [] at h ⊢
    split_ifs at h ⊢
    · cases affinity : api.affinity with
      | error message => simp [affinity] at h
      | ok a => exact m.wellFormed (names env rfl) rfl rfl
    · exact m.wellFormed (names env rfl) rfl rfl

end WellFormed

section Callback

variable {m : CephMover} {api : JobApi} {args : JobArgs} {job job' : Job}

theorem fillPodSpec_keeps (m : CephMover) (api : JobApi) (args : JobArgs) (job : Job)
    (volumeEnv : Except MoverErr (List EnvVar)) :
    (m.fillPodSpec api args job volumeEnv).1.backoffLimit = job.backoffLimit ∧
      (m.fillPodSpec api args job volumeEnv).1.status = job.status := by
  cases volumeEnv with
  | error err => exact ⟨rfl, rfl⟩
  | ok env =>
    unfold CephMover.fillPodSpec
    simp only []
    split_ifs
    · cases api.affinity <;> exact ⟨rfl, rfl⟩
    · exact ⟨rfl, rfl⟩

theorem fillPodSpec_eq_none {volumeEnv : Except MoverErr (List EnvVar)} :
    (m.fillPodSpec api args job volumeEnv).2 = none ↔ ¬((∃ err, volumeEnv = .error err) ∨
      m.copyMethodDirect = true ∧ ∃ message, api.affinity = .error message) := by
  cases volumeEnv with
  | error err => simp [CephMover.fillPodSpec]
  | ok env =>
    unfold CephMover.fillPodSpec
    cases direct : m.copyMethodDirect with
    | false => simp
    | true => cases affinity : api.affinity <;> simp

theorem mutate_refused {message : GoString}
    (refused : api.setControllerReference = some message) :
    m.mutate api args job = .ok (job, some (.api message)) := by
  unfold CephMover.mutate
  rw [refused]
  rfl

theorem mutate_owned (owned : api.setControllerReference = none) :
    m.mutate api args job = (m.getVolumeEnvVars api args.dataPVC).map
      (m.fillPodSpec api args (m.setOwnership job)) := by
  unfold CephMover.mutate
  rw [owned]
  cases m.getVolumeEnvVars api args.dataPVC <;> rfl

theorem getVolumeEnvVars_nil {dataPVC : DataPVC} (unnamed : m.mainPVCName = none) :
    m.getVolumeEnvVars api dataPVC = .error .mainPVCName := by
  unfold CephMover.getVolumeEnvVars
  rw [unnamed]

theorem getVolumeEnvVars_named (api : JobApi) (dataPVC : DataPVC) (named : m.mainPVCName ≠ none) :
    ∃ volumeEnv, m.getVolumeEnvVars api dataPVC = .ok volumeEnv := by
  obtain ⟨mainPVCName, named⟩ := Option.ne_none_iff_exists'.mp named
  unfold CephMover.getVolumeEnvVars
  rw [named]
  exact ⟨_, rfl⟩

theorem mutate_named (api : JobApi) (args : JobArgs) (job : Job)
    (owned : api.setControllerReference = none) (named : m.mainPVCName ≠ none) :
    ∃ filled err, m.mutate api args job = .ok (filled, err) ∧ filled.backoffLimit = some 2 ∧
      filled.status = job.status ∧ (err = none ↔ ¬m.Unfilled api args) := by
  obtain ⟨volumeEnv, env⟩ := getVolumeEnvVars_named api args.dataPVC named
  obtain ⟨limit, status⟩ := fillPodSpec_keeps m api args (m.setOwnership job) volumeEnv
  have ran : m.mutate api args job = .ok (m.fillPodSpec api args (m.setOwnership job) volumeEnv) :=
    by rw [mutate_owned owned, env, Except.map]
  refine ⟨_, _, ran, limit, status, fillPodSpec_eq_none.trans ?_⟩
  simp [CephMover.Unfilled, env]

theorem mutate_wellFormed (h : m.mutate api args job = .ok (job', none)) :
    job'.backoffLimit = some 2 ∧ job'.template.spec.WellFormed := by
  cases owned : api.setControllerReference with
  | some message =>
    rw [mutate_refused owned] at h
    cases h
  | none =>
    rw [mutate_owned owned] at h
    cases env : m.getVolumeEnvVars api args.dataPVC with
    | error nil =>
      rw [env] at h
      cases h
    | ok volumeEnv =>
      rw [env] at h
      have filled := Except.ok.inj h
      have wellFormed := fillPodSpec_wellFormed
        (fun names listed => CephMover.getVolumeEnvVars_names (by rw [env, listed]))
        (congrArg Prod.snd filled)
      have limit := (fillPodSpec_keeps m api args (m.setOwnership job) volumeEnv).1
      rw [filled] at wellFormed limit
      exact ⟨limit, wellFormed⟩

end Callback

section Reconcile

def GetAnswer.object (get : GetAnswer) (job : Job) : Job :=
  match get with
  | .found stored _ => stored
  | _ => job

def GetAnswer.write (get : GetAnswer) (job : Job) : Job × Except JobErr OperationResult :=
  match get with
  | .failed message => (job, .error (.api message))
  | .notFound create => create.result job
  | .found _ update => update.result job

/-- The status in memory behind a write that failed, of an object with this status. -/
def GetAnswer.unwritten (get : GetAnswer) (status : JobStatus) : Option JobStatus :=
  match get with
  | .found _ (.deleted left (some _)) => some left
  | .failed _ | .notFound (.failed _) | .found _ (.failed _) | .found _ (.deleteFailed _) =>
    some status
  | _ => none

theorem GetAnswer.write_failed_iff (get : GetAnswer) (job : Job) (limit : ℤ) :
    (∀ err, (get.write job).2 = .error err → (get.write job).1.status.failed < limit) ↔
      ∀ status ∈ get.unwritten job.status, status.failed < limit := by
  match get with
  | .failed message => simp [write, unwritten]
  | .notFound (.created status) | .notFound (.failed message) =>
    simp [write, unwritten, CreateAnswer.result]
  | .found _ .unchanged | .found _ (.updated _) | .found _ (.failed _) | .found _ (.deleteFailed _)
  | .found _ (.deleted _ none) | .found _ (.deleted _ (some _)) =>
    simp [write, unwritten, UpdateAnswer.result]

theorem GetAnswer.write_eq (get : GetAnswer) (job : Job) :
    ∃ status, (get.write job).1 = { job with status := status } := by
  cases get with
  | failed message => exact ⟨job.status, rfl⟩
  | notFound create => cases create <;> exact ⟨_, rfl⟩
  | found stored update =>
    cases update with
    | deleted status err => cases err <;> exact ⟨_, rfl⟩
    | unchanged | updated | failed | deleteFailed => exact ⟨_, rfl⟩

theorem createOrUpdate_eq {get : GetAnswer} (answered : ∀ message, get ≠ .failed message)
    (job : Job) (mutate : Job → Except NilDereference (Job × Option JobErr)) :
    createOrUpdateDeleteOnImmutableErr get job mutate =
      (mutate (get.object job)).map fun
        | (job, some err) => (job, .error err)
        | (job, none) => get.write job := by
  cases get with
  | failed message => exact absurd rfl (answered message)
  | notFound create =>
    simp only [createOrUpdateDeleteOnImmutableErr, GetAnswer.object]
    obtain _ | ⟨job, _ | err⟩ := mutate job <;> rfl
  | found stored update =>
    simp only [createOrUpdateDeleteOnImmutableErr, GetAnswer.object]
    obtain _ | ⟨job, _ | err⟩ := mutate stored <;> rfl

variable {m : CephMover} {api : JobApi} {args : JobArgs}

theorem reconcile_unanswered {message : GoString} (h : api.get = .failed message) :
    m.reconcile api args = .ok (m.newJob, .error (.api message)) := by
  unfold CephMover.reconcile
  rw [h]
  rfl

theorem reconcile_refused (answered : ∀ message, api.get ≠ .failed message) {message : GoString}
    (refused : api.setControllerReference = some message) :
    m.reconcile api args = .ok (api.get.object m.newJob, .error (.api message)) := by
  rw [CephMover.reconcile, createOrUpdate_eq answered, mutate_refused refused]
  rfl

theorem reconcile_nil (answered : ∀ message, api.get ≠ .failed message)
    (owned : api.setControllerReference = none) (unnamed : m.mainPVCName = none) :
    m.reconcile api args = .error .mainPVCName := by
  rw [CephMover.reconcile, createOrUpdate_eq answered, mutate_owned owned,
    getVolumeEnvVars_nil unnamed]
  rfl

theorem reconcile_unfilled (answered : ∀ message, api.get ≠ .failed message)
    (owned : api.setControllerReference = none) (named : m.mainPVCName ≠ none)
    (unfilled : m.Unfilled api args) :
    ∃ job err, m.reconcile api args = .ok (job, .error err) ∧ job.backoffLimit = some 2 ∧
      job.status = (api.get.object m.newJob).status := by
  obtain ⟨job, _ | err, ran, limit, status, complete⟩ :=
    mutate_named api args (api.get.object m.newJob) owned named
  · exact absurd unfilled (complete.mp rfl)
  · refine ⟨job, err, ?_, limit, status⟩
    rw [CephMover.reconcile, createOrUpdate_eq answered, ran]
    rfl

theorem reconcile_filled (answered : ∀ message, api.get ≠ .failed message)
    (owned : api.setControllerReference = none) (named : m.mainPVCName ≠ none)
    (filled : ¬m.Unfilled api args) :
    ∃ job, m.reconcile api args = .ok (api.get.write job) ∧ job.backoffLimit = some 2 ∧
      job.status = (api.get.object m.newJob).status := by
  obtain ⟨job, err, ran, limit, status, complete⟩ :=
    mutate_named api args (api.get.object m.newJob) owned named
  obtain rfl := complete.mpr filled
  refine ⟨job, ?_, limit, status⟩
  rw [CephMover.reconcile, createOrUpdate_eq answered, ran]
  rfl

theorem reconcile_wellFormed {job : Job} {op : OperationResult}
    (h : m.reconcile api args = .ok (job, .ok op)) :
    job.backoffLimit = some 2 ∧ job.template.spec.WellFormed := by
  by_cases answered : ∀ message, api.get ≠ .failed message
  · rw [CephMover.reconcile, createOrUpdate_eq answered] at h
    cases ran : m.mutate api args (api.get.object m.newJob) with
    | error nil =>
      rw [ran] at h
      cases h
    | ok mutated =>
      obtain ⟨job', _ | err⟩ := mutated <;> rw [ran] at h
      · obtain ⟨status, written⟩ := api.get.write_eq job'
        have final : (api.get.write job').1 = job := congrArg Prod.fst (Except.ok.inj h)
        obtain ⟨limit, wellFormed⟩ := mutate_wellFormed ran
        rw [← final, written]
        exact ⟨limit, wellFormed⟩
      · cases h
  · obtain ⟨message, failed⟩ := not_forall_not.mp answered
    rw [reconcile_unanswered failed] at h
    cases h

end Reconcile

section Result

/-- An error of the reconciliation is returned, and the Job is deleted only after a
reconciliation without error and at its limit. -/
structure EnsureJobResult.Heeds (r : EnsureJobResult) (job : Job)
    (reconciled : Except JobErr OperationResult) : Prop where
  error : ∀ err, reconciled = .error err → r.result = .error err
  delete : ∀ name, .delete name ∈ r.effects →
    (∃ op, reconciled = .ok op) ∧ ∃ limit, job.backoffLimit = some limit ∧ limit ≤ job.status.failed

theorem delete_not_mem_started (m : CephMover) (op : OperationResult) (name : GoString) :
    .delete name ∉ started m op := by
  unfold started
  split_ifs <;> simp

theorem handleReconciled_heeds_iff (m : CephMover) (delete : Option GoString) {job : Job}
    {reconciled : Except JobErr OperationResult} :
    (∃ r, handleReconciled m delete job reconciled = .ok r ∧ r.Heeds job reconciled) ↔
      ∃ limit, job.backoffLimit = some limit ∧
        ∀ err, reconciled = .error err → job.status.failed < limit := by
  unfold handleReconciled
  cases hl : job.backoffLimit with
  | none => simp
  | some limit =>
    simp only [Option.some.injEq, exists_eq_left']
    by_cases reached : limit ≤ job.status.failed
    -- at the limit the Job is deleted whatever the reconciliation returned
    · rw [if_pos reached]
      constructor
      · rintro ⟨r, hr, heeds⟩ err failed
        cases hr
        obtain ⟨⟨op, ok⟩, -⟩ := heeds.delete job.name (by simp)
        rw [failed] at ok
        cases ok
      · intro below
        cases reconciled with
        | error err => exact absurd (below err rfl) (not_lt.mpr reached)
        | ok op => exact ⟨_, rfl, nofun, fun _ _ => ⟨⟨op, rfl⟩, limit, hl, reached⟩⟩
    · rw [if_neg reached]
      refine iff_of_true ?_ fun _ _ => not_le.mp reached
      cases reconciled with
      | error err => exact ⟨_, rfl, fun _ eq => congrArg _ (Except.error.inj eq), nofun⟩
      | ok op =>
        simp only []
        split_ifs
        · exact ⟨_, rfl, nofun, fun name sent => absurd sent (delete_not_mem_started m op name)⟩
        · exact ⟨_, rfl, nofun, fun name sent => by simp [delete_not_mem_started] at sent⟩

theorem handleReconciled_some {m : CephMover} {delete : Option GoString} {job done : Job}
    {reconciled : Except JobErr OperationResult} {effects : List JobEffect}
    (h : handleReconciled m delete job reconciled = .ok ⟨effects, .ok (some done)⟩) :
    done = job ∧ (∃ op, reconciled = .ok op) ∧ job.status.succeeded ≠ 0 ∧
      (∃ limit, job.backoffLimit = some limit ∧ job.status.failed < limit) ∧
      ∀ name, .delete name ∉ effects := by
  unfold handleReconciled at h
  cases hl : job.backoffLimit with
  | none =>
    rw [hl] at h
    cases h
  | some limit =>
    simp only [hl] at h
    by_cases reached : job.status.failed ≥ limit
    · rw [if_pos reached] at h
      cases delete <;> cases h
    · rw [if_neg reached] at h
      cases reconciled with
      | error err => cases h
      | ok op =>
        by_cases running : job.status.succeeded = 0
        · simp only [if_pos running] at h
          cases h
        · simp only [if_neg running] at h
          cases h
          exact ⟨rfl, ⟨op, rfl⟩, running, ⟨limit, rfl, not_le.mp reached⟩,
            by simp [delete_not_mem_started]⟩

end Result

namespace CephMover

theorem ensureJob_returns {m : CephMover} {api : JobApi} {args : JobArgs} {job : Job}
    {effects : List JobEffect} (h : m.ensureJob api args = .ok ⟨effects, .ok (some job)⟩) :
    job.template.spec.WellFormed ∧ job.status.failed < 2 ∧ job.status.succeeded ≠ 0 ∧
      ∀ name, .delete name ∉ effects := by
  obtain ⟨⟨reconciledJob, reconciled⟩, done, h⟩ := bind_eq_ok.mp h
  obtain ⟨rfl, ⟨op, rfl⟩, succeeded, ⟨limit, hl, below⟩, kept⟩ := handleReconciled_some h
  obtain ⟨two, wellFormed⟩ := reconcile_wellFormed done
  rw [two] at hl
  cases hl
  exact ⟨wellFormed, below, succeeded, kept⟩

/-- `ensureJob` returns, with the error of the reconciliation where there was one, and deletes
the Job only where there was none and the failures have reached the limit. -/
def Survives (m : CephMover) (api : JobApi) (args : JobArgs) : Prop :=
  ∃ job reconciled r, m.reconcile api args = .ok (job, reconciled) ∧
    m.ensureJob api args = .ok r ∧ r.Heeds job reconciled

theorem survives_iff {m : CephMover} {api : JobApi} {args : JobArgs} :
    m.Survives api args ↔ ∃ job reconciled limit, m.reconcile api args = .ok (job, reconciled) ∧
      job.backoffLimit = some limit ∧
        ∀ err, reconciled = .error err → job.status.failed < limit := by
  unfold Survives ensureJob
  constructor
  · rintro ⟨job, reconciled, r, done, handled, heeds⟩
    rw [done] at handled
    obtain ⟨limit, hl⟩ := (handleReconciled_heeds_iff m api.delete).mp ⟨r, handled, heeds⟩
    exact ⟨job, reconciled, limit, done, hl⟩
  · rintro ⟨job, reconciled, limit, done, hl⟩
    obtain ⟨r, handled, heeds⟩ := (handleReconciled_heeds_iff m api.delete).mpr ⟨limit, hl⟩
    refine ⟨job, reconciled, r, done, ?_, heeds⟩
    rw [done]
    exact handled

theorem survives_refused {m : CephMover} {api : JobApi} {args : JobArgs}
    (answered : ∀ message, api.get ≠ .failed message) {message : GoString}
    (refused : api.setControllerReference = some message) :
    m.Survives api args ↔ ∃ limit, (api.get.object m.newJob).backoffLimit = some limit ∧
      (api.get.object m.newJob).status.failed < limit := by
  rw [survives_iff, reconcile_refused answered refused]
  simp

theorem survives_owned {m : CephMover} {api : JobApi} {args : JobArgs}
    (answered : ∀ message, api.get ≠ .failed message)
    (owned : api.setControllerReference = none) :
    m.Survives api args ↔ m.mainPVCName ≠ none ∧
      (m.Unfilled api args → (api.get.object m.newJob).status.failed < 2) ∧
      (¬m.Unfilled api args → ∀ status ∈ api.get.unwritten (api.get.object m.newJob).status,
        status.failed < 2) := by
  rw [survives_iff]
  by_cases unnamed : m.mainPVCName = none
  · simp [reconcile_nil answered owned unnamed, unnamed]
  by_cases unfilled : m.Unfilled api args
  · obtain ⟨job, err, done, limit, status⟩ := reconcile_unfilled answered owned unnamed unfilled
    rw [done]
    simp [limit, status, unnamed, unfilled]
  · obtain ⟨job, done, limit, status⟩ := reconcile_filled answered owned unnamed unfilled
    obtain ⟨left, written⟩ := api.get.write_eq job
    have limit' : (api.get.write job).1.backoffLimit = some 2 := by
      rw [written]
      exact limit
    have below := api.get.write_failed_iff job 2
    rw [status] at below
    rw [done, ← below]
    constructor
    · rintro ⟨job', reconciled, limit'', same, hl, failed⟩
      rw [Except.ok.inj same] at limit' ⊢
      rw [limit'] at hl
      cases hl
      exact ⟨unnamed, fun h => absurd h unfilled, fun _ => failed⟩
    · exact fun h => ⟨_, _, 2, rfl, limit', h.2.2 unfilled⟩

/-- When `ensureJob` survives what happens around it. The limit that it compares with is nil
unless the controller reference was set or a stored Job was read, and a Job at its limit takes
precedence over the error, whether the callback or the write has failed. -/
theorem ensureJob_survives_iff (m : CephMover) (api : JobApi) (args : JobArgs) :
    m.Survives api args ↔
      match api.get, api.setControllerReference with
      | .failed _, _ => False
      | .notFound _, some _ => False
      | .found stored _, some _ =>
        ∃ limit, stored.backoffLimit = some limit ∧ stored.status.failed < limit
      | .notFound _, none => m.mainPVCName ≠ none
      | .found stored update, none => m.mainPVCName ≠ none ∧
        (m.Unfilled api args → stored.status.failed < 2) ∧
        (¬m.Unfilled api args → match update with
          | .failed _ | .deleteFailed _ => stored.status.failed < 2
          | .deleted status (some _) => status.failed < 2
          | _ => True) := by
  cases hg : api.get with
  | failed message =>
    rw [survives_iff, reconcile_unanswered hg]
    simp [newJob]
  | notFound create =>
    have answered : ∀ message, api.get ≠ .failed message := by simp [hg]
    cases refused : api.setControllerReference with
    | none =>
      rw [survives_owned answered refused, hg]
      cases create <;> simp [GetAnswer.object, GetAnswer.unwritten, newJob]
    | some message =>
      rw [survives_refused answered refused, hg]
      simp [GetAnswer.object, newJob]
  | found stored update =>
    have answered : ∀ message, api.get ≠ .failed message := by simp [hg]
    cases refused : api.setControllerReference with
    | none =>
      rw [survives_owned answered refused, hg]
      match update with
      | .unchanged | .updated _ | .failed _ | .deleteFailed _ | .deleted _ none
      | .deleted _ (some _) => simp [GetAnswer.object, GetAnswer.unwritten]
    | some message =>
      rw [survives_refused answered refused, hg]
      rfl

/-- A source with the Snapshot copy method that has not synchronized yet. -/
def sample : CephMover :=
  ⟨goString "rs", goString "app", goString "mover", .cephfs, some (goString "10.0.0.1"), none, true,
    false, some (goString "data"), false, false, [], [], []⟩

def sampleApi (get : GetAnswer) : JobApi where
  get := get
  setControllerReference := none
  cluster := ⟨fun _ => some (goString "pv"),
    fun name => some ⟨name, true, some (goString "handle")⟩, ⟨[], List.nodup_nil⟩⟩
  lists := .inOrder
  affinity := .ok ⟨[], []⟩
  delete := none

def sampleArgs : JobArgs :=
  ⟨⟨goString "data", goString "pv", false, false⟩, goString "sa", goString "psk",
    goString "csi-config", goString "csi-secret"⟩

def exhausted : GetAnswer :=
  .found { sample.newJob with backoffLimit := some 2, status := ⟨2, 0⟩ }
    (.failed (goString "conflict"))

/-- A failed `Get` and a destination without a claim name end in a nil dereference; the Job at
its limit is deleted and the error of its update is lost. -/
theorem ensureJob_lapses : ¬ (∀ m api args, CephMover.Survives m api args) ∧
    sample.ensureJob (sampleApi (.failed (goString "timeout"))) sampleArgs =
      .error .backoffLimit ∧
    ({ sample with isSource := false, mainPVCName := none }).ensureJob
      (sampleApi (.notFound (.created ⟨0, 0⟩))) sampleArgs = .error .mainPVCName ∧
    ∃ job r, sample.reconcile (sampleApi exhausted) sampleArgs =
        .ok (job, .error (.api (goString "conflict"))) ∧
      sample.ensureJob (sampleApi exhausted) sampleArgs = .ok r ∧
      .delete sample.newJob.name ∈ r.effects ∧ r.result = .ok none := by
  refine ⟨fun survives => ?_, rfl, rfl, _, _, rfl, rfl, .tail _ (.tail _ (.head _)), rfl⟩
  obtain ⟨_, _, _, -, returned, -⟩ :=
    survives sample (sampleApi (.failed (goString "timeout"))) sampleArgs
  cases returned

end CephMover

end CephVolsync.Mover
