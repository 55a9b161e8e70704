import CephVolsync.CephFs.CommitDrainer
import CephVolsync.CephFs.PathSafety
import CephVolsync.Library.IndexedFamily
import CephVolsync.Library.RefTable
import CephVolsync.Library.TransitionSystem

/-! The destination of a CephFS sync: `FileCache` (`internal/worker/cephfs/cephfs_reader.go`),
and the handlers of the `Write` and `Commit` streams that share it (`destination.go`).

One step is a lock section of the cache, an operation on a file or a message of a stream. A
file handle is a number; the system knows which ones are open and under which path they
were opened. `Sync` takes two steps: the writes that are complete when it begins are
durable when it returns. -/

namespace CephVolsync.CephFs

open Function Pipeline RefTable

/-- The entries of all shards, with the file handle as the value and `refCount` as the
count. A handle is open exactly as long as it is in the cache. -/
structure FileCache where
  baseDir : GoString
  files : GoString → Option (Counted ℕ)
  handles : ℕ → Option GoString
  nextHandle : ℕ
  opened : Indexed files handles
  fresh : ∀ f, nextHandle ≤ f → handles f = none

namespace FileCache

def new (baseDir : GoString) : FileCache :=
  ⟨baseDir, fun _ => none, fun _ => none, 0, by simp [Indexed], by simp⟩

def retain (fc : FileCache) (relPath : GoString) : FileCache :=
  { fc with files := RefTable.retain fc.files relPath, opened := fc.opened.retain relPath }

def openFile (fc : FileCache) (relPath : GoString) (absent : fc.files relPath = none) : FileCache :=
  { fc with
    files := RefTable.insert fc.files relPath fc.nextHandle
    handles := update fc.handles fc.nextHandle (some relPath)
    nextHandle := fc.nextHandle + 1
    opened := fc.opened.insert absent (fc.fresh _ le_rfl)
    fresh := fun f hf => by
      rw [update_of_ne (by omega)]
      exact fc.fresh f (by omega) }

def release (fc : FileCache) (relPath : GoString) : FileCache :=
  { fc with
    files := RefTable.release fc.files relPath
    handles := unindex fc.handles (released fc.files relPath)
    opened := fc.opened.release relPath
    fresh := fun f hf => by
      have none := fc.fresh f hf
      cases released fc.files relPath with
      | none => exact none
      | some g =>
        rw [unindex, update_apply, none, ite_self] }

/-- `ok` is the outcome of the system calls. A file that cannot be set to its size is closed
again. -/
def acquire (fc : FileCache) (relPath : GoString) (ok : Bool) : Option ℕ × FileCache :=
  match acquirePath fc.baseDir relPath with
  | .error _ => (none, fc)
  | .ok _ =>
    match h : fc.files relPath with
    | some e => (some e.value, fc.retain relPath)
    | none => if ok then (some fc.nextHandle, fc.openFile relPath h) else (none, fc)

theorem acquire_cases (fc : FileCache) (relPath : GoString) (ok : Bool) :
    (fc.acquire relPath ok = (none, fc)) ∨
    (∃ e, fc.files relPath = some e ∧ fc.acquire relPath ok = (some e.value, fc.retain relPath)) ∨
    ∃ absent : fc.files relPath = none,
      fc.acquire relPath ok = (some fc.nextHandle, fc.openFile relPath absent) := by
  unfold acquire
  split
  · exact .inl rfl
  · split
    · rename_i e entry
      exact .inr (.inl ⟨e, entry, rfl⟩)
    · rename_i absent
      split_ifs
      · exact .inr (.inr ⟨absent, rfl⟩)
      · exact .inl rfl

end FileCache

/-- Where a call of `SyncAndRelease` stands that has found an entry; `covered` are the writes
that were complete when `Sync` began. -/
inductive SyncPC where
  | sync (file : ℕ)
  | syncing (file : ℕ) (covered : List ChangedBlock)
  | releaseGuard (syncErr : Bool)
  | releaseRef (syncErr : Bool)
  | done (err : Bool)
  deriving DecidableEq, Repr

/-- The cache, and the history of the handlers: the completed writes, those followed by a
completed `Sync`, the acknowledged blocks, and the paths whose commit has begun, has given
up its reference, and was answered. -/
structure Store where
  cache : FileCache
  written : List ChangedBlock
  durable : List ChangedBlock
  acked : List ChangedBlock
  begun : List GoString
  committed : List GoString
  answered : List GoString

namespace Store

def new (baseDir : GoString) : Store := ⟨.new baseDir, [], [], [], [], [], []⟩

/-- The first lock section of `SyncAndRelease`. -/
def enter (st : Store) (path : GoString) : Option SyncPC × Store :=
  match st.cache.files path with
  | some e => (some (.sync e.value), { st with cache := st.cache.retain path })
  | none => (none, st)

/-- The rest of it. `ok` is the outcome of `Sync`, which fails on a closed file, or of the
`Close` in `Release`. -/
def sync (st : Store) (path : GoString) (ok : Bool) : SyncPC → Option (Store × SyncPC)
  | .sync file => some (st, .syncing file st.written)
  | .syncing file covered =>
    if ok then
      if (st.cache.handles file).isSome then
        some ({ st with durable := st.durable ++ covered.filter (·.filePath = path) },
          .releaseGuard false)
      else none
    else some (st, .releaseGuard true)
  | .releaseGuard syncErr => some ({ st with cache := st.cache.release path }, .releaseRef syncErr)
  | .releaseRef syncErr =>
    some ({ st with cache := st.cache.release path },
      .done (syncErr || (released st.cache.files path).isSome && !ok))
  | .done _ => none

end Store

inductive StreamPC where
  | recv
  | blocks (todo req : List ChangedBlock)
  | write (file : ℕ) (b : ChangedBlock) (todo req : List ChangedBlock)
  | send (req : List ChangedBlock)
  | cleanup (todo : List GoString) (err : Bool)
  | release (path : GoString) (pc : SyncPC) (todo : List GoString) (err : Bool)
  | returned (err : Bool)
  deriving DecidableEq, Repr

structure Stream where
  files : List (GoString × ℕ)
  pc : StreamPC
  deriving DecidableEq, Repr

/-- `next` is the next step of the handler, and `pick` the choice of the `range` over the
map in the deferred function. -/
inductive StreamAction where
  | recv (req : WriteRequest)
  | close (err : Bool)
  | pick (path : GoString)
  | next (ok : Bool)
  deriving DecidableEq, Repr

def collectRequestIDs (blocks : List ChangedBlock) : List ℕ := blocks.map (·.requestId)

namespace Stream

def start : Stream := ⟨[], .recv⟩

def finish (w : Stream) (err : Bool) : Stream :=
  { w with pc := .cleanup (w.files.map Prod.fst) err }

/-- The next step of the handler, where it does not wait for the peer. -/
def next (st : Store) (w : Stream) (ok : Bool) : StreamPC → Option (Store × Stream)
  | .blocks [] req =>
    some (st, { w with pc := if (collectRequestIDs req).length > 0 then .send req else .recv })
  | .blocks (b :: todo) req =>
    match w.files.lookup b.filePath with
    | some file => some (st, { w with pc := .write file b todo req })
    | none =>
      match st.cache.acquire b.filePath ok with
      | (some file, cache) =>
        some ({ st with cache := cache }, ⟨(b.filePath, file) :: w.files, .write file b todo req⟩)
      | (none, cache) => some ({ st with cache := cache }, w.finish true)
  | .write file b todo req =>
    if ok then
      if (st.cache.handles file).isSome then
        some ({ st with written := st.written ++ [b] }, { w with pc := .blocks todo req })
      else none
    else some (st, w.finish true)
  | .send req =>
    if ok then some ({ st with acked := st.acked ++ req }, { w with pc := .recv })
    else some (st, w.finish true)
  | .cleanup [] err => some (st, { w with pc := .returned err })
  | .release _ (.done e) todo err => some (st, { w with pc := .cleanup todo (err || e) })
  | .release path pc todo err =>
    (st.sync path ok pc).map fun r => (r.1, { w with pc := .release path r.2 todo err })
  | _ => none

def step (st : Store) (w : Stream) : StreamAction → Option (Store × Stream)
  | .recv req =>
    match w.pc with
    | .recv => some (st, { w with pc := .blocks req.blocks req.blocks })
    | _ => none
  | .close err =>
    match w.pc with
    | .recv => some (st, w.finish err)
    | _ => none
  | .pick path =>
    match w.pc with
    | .cleanup todo err =>
      if path ∈ todo then
        match st.enter path with
        | (some pc, st') => some (st', { w with pc := .release path pc (todo.erase path) err })
        | (none, st') => some (st', { w with pc := .cleanup (todo.erase path) err })
      else none
    | _ => none
  | .next ok => w.next st ok w.pc

def pending (w : Stream) : List GoString :=
  match w.pc with
  | .blocks todo _ => todo.map (·.filePath)
  | .write _ b todo _ => (b :: todo).map (·.filePath)
  | _ => []

end Stream

inductive CommitPC where
  | recv
  | entries (todo : List CommitEntry) (paths : List GoString)
  | sync (path : GoString) (pc : SyncPC) (todo : List CommitEntry) (paths : List GoString)
  | send (paths : List GoString)
  | returned (err : Bool)
  deriving DecidableEq, Repr

inductive CommitAction where
  | recv (entries : List CommitEntry)
  | close (err : Bool)
  | next (ok : Bool)
  deriving DecidableEq, Repr

namespace CommitPC

/-- The next step of `Commit`, where it does not wait for the peer. -/
def next (st : Store) (ok : Bool) : CommitPC → Option (Store × CommitPC)
  | .entries [] paths => some (st, .send paths)
  | .entries (e :: todo) paths =>
    match { st with begun := st.begun ++ [e.path] }.enter e.path with
    | (some pc, st') => some (st', .sync e.path pc todo paths)
    | (none, st') => some (st', .entries todo (paths ++ [e.path]))
  | .sync path (.done err) todo paths =>
    some (st, if err then .returned true else .entries todo (paths ++ [path]))
  | .sync path (.releaseRef syncErr) todo paths =>
    (st.sync path ok (.releaseRef syncErr)).map fun r =>
      ({ r.1 with committed := r.1.committed ++ [path] }, .sync path r.2 todo paths)
  | .sync path pc todo paths =>
    (st.sync path ok pc).map fun r => (r.1, .sync path r.2 todo paths)
  | .send paths =>
    if ok then some ({ st with answered := st.answered ++ paths }, .recv)
    else some (st, .returned true)
  | _ => none

def step (st : Store) (c : CommitPC) : CommitAction → Option (Store × CommitPC)
  | .recv todo =>
    match c with
    | .recv => some (st, .entries todo [])
    | _ => none
  | .close err =>
    match c with
    | .recv => some (st, .returned err)
    | _ => none
  | .next ok => c.next st ok

end CommitPC

inductive SyncStep (st : Store) (path : GoString) : Bool → SyncPC → Store → SyncPC → Prop
  | sync {ok : Bool} {file : ℕ} : SyncStep st path ok (.sync file) st (.syncing file st.written)
  | synced {file : ℕ} {covered : List ChangedBlock} : (st.cache.handles file).isSome = true →
      SyncStep st path true (.syncing file covered)
        { st with durable := st.durable ++ covered.filter (·.filePath = path) }
          (.releaseGuard false)
  | failed {file : ℕ} {covered : List ChangedBlock} :
      SyncStep st path false (.syncing file covered) st (.releaseGuard true)
  | releaseGuard {ok e : Bool} : SyncStep st path ok (.releaseGuard e)
      { st with cache := st.cache.release path } (.releaseRef e)
  | releaseRef {ok e e' : Bool} : SyncStep st path ok (.releaseRef e)
      { st with cache := st.cache.release path } (.done e')

theorem Store.sync_cases {st st' : Store} {path : GoString} {ok : Bool} {pc pc' : SyncPC}
    (h : st.sync path ok pc = some (st', pc')) : SyncStep st path ok pc st' pc' := by
  cases pc with
  | sync file =>
    cases h
    exact .sync
  | syncing file covered =>
    cases ok with
    | true =>
      simp only [Store.sync, if_true] at h
      split_ifs at h with opened
      cases h
      exact .synced opened
    | false =>
      cases h
      exact .failed
  | releaseGuard e =>
    cases h
    exact .releaseGuard
  | releaseRef e =>
    cases h
    exact .releaseRef
  | done e => cases h

def StreamPC.active : StreamPC → Bool
  | .recv | .blocks .. | .write .. | .send _ => true
  | _ => false

inductive StreamStep (st : Store) (w : Stream) : StreamAction → Store → Stream → Prop
  | recv {req : WriteRequest} : w.pc = .recv →
      StreamStep st w (.recv req) st { w with pc := .blocks req.blocks req.blocks }
  | finish {a : StreamAction} {err : Bool} :
      w.pc.active = true → StreamStep st w a st (w.finish err)
  | sent {a : StreamAction} {req : List ChangedBlock} {pc : StreamPC} : w.pc = .blocks [] req →
      pc = .send req ∨ pc = .recv → StreamStep st w a st { w with pc := pc }
  | cached {a : StreamAction} {b : ChangedBlock} {todo req : List ChangedBlock} {file : ℕ} :
      w.pc = .blocks (b :: todo) req → (b.filePath, file) ∈ w.files →
      StreamStep st w a st { w with pc := .write file b todo req }
  | acquired {a : StreamAction} {b : ChangedBlock} {todo req : List ChangedBlock} {e : Counted ℕ} :
      w.pc = .blocks (b :: todo) req → st.cache.files b.filePath = some e →
      StreamStep st w a { st with cache := st.cache.retain b.filePath }
        ⟨(b.filePath, e.value) :: w.files, .write e.value b todo req⟩
  | opened {a : StreamAction} {b : ChangedBlock} {todo req : List ChangedBlock} :
      w.pc = .blocks (b :: todo) req → (absent : st.cache.files b.filePath = none) →
      StreamStep st w a { st with cache := st.cache.openFile b.filePath absent }
        ⟨(b.filePath, st.cache.nextHandle) :: w.files, .write st.cache.nextHandle b todo req⟩
  | written {a : StreamAction} {file : ℕ} {b : ChangedBlock} {todo req : List ChangedBlock} :
      w.pc = .write file b todo req → (st.cache.handles file).isSome = true →
      StreamStep st w a { st with written := st.written ++ [b] } { w with pc := .blocks todo req }
  | acked {a : StreamAction} {req : List ChangedBlock} : w.pc = .send req →
      StreamStep st w a { st with acked := st.acked ++ req } { w with pc := .recv }
  | entered {a : StreamAction} {path : GoString} {todo : List GoString} {err : Bool}
      {e : Counted ℕ} : w.pc = .cleanup todo err → path ∈ todo → st.cache.files path = some e →
      StreamStep st w a { st with cache := st.cache.retain path }
        { w with pc := .release path (.sync e.value) (todo.erase path) err }
  | missed {a : StreamAction} {path : GoString} {todo : List GoString} {err : Bool} :
      w.pc = .cleanup todo err → path ∈ todo → st.cache.files path = none →
      StreamStep st w a st { w with pc := .cleanup (todo.erase path) err }
  | sync {ok : Bool} {path : GoString} {pc pc' : SyncPC} {todo : List GoString} {err : Bool}
      {st' : Store} : w.pc = .release path pc todo err → SyncStep st path ok pc st' pc' →
      StreamStep st w (.next ok) st' { w with pc := .release path pc' todo err }
  | left {a : StreamAction} {path : GoString} {e : Bool} {todo : List GoString} {err err' : Bool} :
      w.pc = .release path (.done e) todo err →
      StreamStep st w a st { w with pc := .cleanup todo err' }
  | returned {a : StreamAction} {err : Bool} : w.pc = .cleanup [] err →
      StreamStep st w a st { w with pc := .returned err }

theorem Stream.next_cases {st st' : Store} {w w' : Stream} {ok : Bool}
    (h : w.next st ok w.pc = some (st', w')) : StreamStep st w (.next ok) st' w' := by
  cases hpc : w.pc with
  | recv | returned =>
    rw [hpc] at h
    cases h
  | blocks todo req =>
    rw [hpc] at h
    cases todo with
    | nil =>
      cases h
      refine .sent hpc ?_
      split
      · exact .inl rfl
      · exact .inr rfl
    | cons b todo =>
      simp only [Stream.next] at h
      split at h
      · rename_i file found
        cases h
        obtain ⟨before, after, files, -⟩ := List.lookup_eq_some_iff.mp found
        exact .cached hpc (by simp [files])
      · rcases st.cache.acquire_cases b.filePath ok with failed | ⟨e, entry, got⟩ | ⟨absent, got⟩
        · rw [failed] at h
          cases h
          exact .finish (by rw [hpc]; rfl)
        · rw [got] at h
          cases h
          exact .acquired hpc entry
        · rw [got] at h
          cases h
          exact .opened hpc absent
  | write file b todo req =>
    rw [hpc] at h
    simp only [Stream.next] at h
    split_ifs at h with hok opened
    · cases h
      exact .written hpc opened
    · cases h
      exact .finish (by rw [hpc]; rfl)
  | send req =>
    rw [hpc] at h
    simp only [Stream.next] at h
    split_ifs at h with hok
    · cases h
      exact .acked hpc
    · cases h
      exact .finish (by rw [hpc]; rfl)
  | cleanup todo err =>
    rw [hpc] at h
    cases todo with
    | nil =>
      cases h
      exact .returned hpc
    | cons path todo => cases h
  | release path pc todo err =>
    rw [hpc] at h
    have moved : ∀ {pc}, w.pc = .release path pc todo err → ((st.sync path ok pc).map fun r =>
        (r.1, { w with pc := .release path r.2 todo err })) = some (st', w') →
        StreamStep st w (.next ok) st' w' := by
      intro pc hpc h
      obtain ⟨⟨st₁, pc₁⟩, next, eq⟩ := Option.map_eq_some_iff.mp h
      cases eq
      exact .sync hpc (Store.sync_cases next)
    cases pc with
    | sync | syncing | releaseGuard | releaseRef => exact moved hpc h
    | done e =>
      cases h
      exact .left hpc

theorem Stream.step_cases {st st' : Store} {w w' : Stream} {a : StreamAction}
    (h : w.step st a = some (st', w')) : StreamStep st w a st' w' := by
  cases a with
  | recv req =>
    simp only [Stream.step] at h
    split at h <;> cases h
    exact .recv ‹_›
  | close err =>
    simp only [Stream.step] at h
    split at h <;> cases h
    rename_i hpc
    exact .finish (by rw [hpc]; rfl)
  | pick path =>
    simp only [Stream.step] at h
    split at h
    · rename_i todo err hpc
      split_ifs at h with mem
      unfold Store.enter at h
      cases entry : st.cache.files path with
      | none =>
        rw [entry] at h
        cases h
        exact .missed hpc mem entry
      | some e =>
        rw [entry] at h
        cases h
        exact .entered hpc mem entry
    · cases h
  | next ok => exact Stream.next_cases h

inductive CommitStep (st : Store) : CommitPC → CommitAction → Store → CommitPC → Prop
  | recv {todo : List CommitEntry} : CommitStep st .recv (.recv todo) st (.entries todo [])
  | finish {c : CommitPC} {a : CommitAction} {err : Bool} : c = .recv ∨ (∃ paths, c = .send paths) →
      CommitStep st c a st (.returned err)
  | responds {a : CommitAction} {paths : List GoString} :
      CommitStep st (.entries [] paths) a st (.send paths)
  | entered {ok : Bool} {e : CommitEntry} {todo : List CommitEntry} {paths : List GoString}
      {entry : Counted ℕ} : st.cache.files e.path = some entry →
      CommitStep st (.entries (e :: todo) paths) (.next ok)
        { st with begun := st.begun ++ [e.path], cache := st.cache.retain e.path }
        (.sync e.path (.sync entry.value) todo paths)
  | missed {ok : Bool} {e : CommitEntry} {todo : List CommitEntry} {paths : List GoString} :
      st.cache.files e.path = none →
      CommitStep st (.entries (e :: todo) paths) (.next ok)
        { st with begun := st.begun ++ [e.path] } (.entries todo (paths ++ [e.path]))
  | sync {ok : Bool} {path : GoString} {pc pc' : SyncPC} {todo : List CommitEntry}
      {paths : List GoString} {st' : Store} : (∀ e, pc ≠ .releaseRef e) →
      SyncStep st path ok pc st' pc' →
      CommitStep st (.sync path pc todo paths) (.next ok) st' (.sync path pc' todo paths)
  | releaseRef {a : CommitAction} {path : GoString} {e e' : Bool} {todo : List CommitEntry}
      {paths : List GoString} :
      CommitStep st (.sync path (.releaseRef e) todo paths) a
        { st with cache := st.cache.release path, committed := st.committed ++ [path] }
        (.sync path (.done e') todo paths)
  | failed {a : CommitAction} {path : GoString} {todo : List CommitEntry} {paths : List GoString} :
      CommitStep st (.sync path (.done true) todo paths) a st (.returned true)
  | left {a : CommitAction} {path : GoString} {todo : List CommitEntry} {paths : List GoString} :
      CommitStep st (.sync path (.done false) todo paths) a st (.entries todo (paths ++ [path]))
  | answered {a : CommitAction} {paths : List GoString} :
      CommitStep st (.send paths) a { st with answered := st.answered ++ paths } .recv

theorem CommitPC.next_cases {st st' : Store} {c c' : CommitPC} {ok : Bool}
    (h : c.next st ok = some (st', c')) : CommitStep st c (.next ok) st' c' := by
  cases c with
  | recv | returned => cases h
  | entries todo paths =>
    cases todo with
    | nil =>
      cases h
      exact .responds
    | cons e todo =>
      simp only [CommitPC.next, Store.enter] at h
      cases entry : st.cache.files e.path with
      | none =>
        rw [entry] at h
        cases h
        exact .missed entry
      | some r =>
        rw [entry] at h
        cases h
        exact .entered entry
  | sync path pc todo paths =>
    have moved : (∀ e, pc ≠ .releaseRef e) → ((st.sync path ok pc).map fun r =>
        (r.1, CommitPC.sync path r.2 todo paths)) = some (st', c') →
        CommitStep st (.sync path pc todo paths) (.next ok) st' c' := by
      intro hpc h
      obtain ⟨⟨st₁, pc₁⟩, next, eq⟩ := Option.map_eq_some_iff.mp h
      cases eq
      exact .sync hpc (Store.sync_cases next)
    cases pc with
    | sync | syncing | releaseGuard => exact moved (by simp) h
    | releaseRef e =>
      cases h
      exact .releaseRef
    | done e =>
      cases e with
      | false =>
        cases h
        exact .left
      | true =>
        cases h
        exact .failed
  | send paths =>
    simp only [CommitPC.next] at h
    split_ifs at h with hok
    · cases h
      exact .answered
    · cases h
      exact .finish (.inr ⟨paths, rfl⟩)

theorem CommitPC.step_cases {st st' : Store} {c c' : CommitPC} {a : CommitAction}
    (h : c.step st a = some (st', c')) : CommitStep st c a st' c' := by
  cases a with
  | recv todo =>
    simp only [CommitPC.step] at h
    split at h <;> cases h
    exact .recv
  | close err =>
    simp only [CommitPC.step] at h
    split at h <;> cases h
    exact .finish (.inl rfl)
  | next ok => exact CommitPC.next_cases h

/-- The handlers of any number of streams over one cache. -/
structure Destination (W C : Type) where
  store : Store
  streams : W → Stream
  commits : C → CommitPC

inductive DestinationAction (W C : Type) where
  | stream (i : W) (a : StreamAction)
  | commit (j : C) (a : CommitAction)
  deriving DecidableEq, Repr

namespace Destination

variable {W C : Type} [DecidableEq W] [DecidableEq C]

def start (W C : Type) (baseDir : GoString) : Destination W C :=
  ⟨.new baseDir, fun _ => .start, fun _ => .recv⟩

def step (s : Destination W C) : DestinationAction W C → Option (Destination W C)
  | .stream i a => ((s.streams i).step s.store a).map fun r =>
    { s with store := r.1, streams := update s.streams i r.2 }
  | .commit j a => ((s.commits j).step s.store a).map fun r =>
    { s with store := r.1, commits := update s.commits j r.2 }

end Destination

end CephVolsync.CephFs
