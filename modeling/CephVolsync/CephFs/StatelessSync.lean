import CephVolsync.CephFs.PathConsumers
import CephVolsync.CephFs.PathSafety
import CephVolsync.CephFs.Snapdiff

/-! `runStatelessSync` and the end of `runSnapdiffSync` (`internal/worker/cephfs/source.go`).
A producer walks the directories, lists the snapshot diff of each and routes every entry to
one of three channels. The block pipeline, two pools of rsync workers and the delete consumer
drain the channels at the same time. All of them run in one group, whose first error cancels
the others. Behind the group stand the convergence rsync and the Done signal.

The volume is the clone of a snapshot: what the walk, the diffs and `os.Lstat` find there does
not change during a sync and is a parameter. `find` and rsync are calls that succeed or fail. -/

namespace CephVolsync.CephFs

open BatchWorker Filepath Pipeline TransitionSystem

/-- The capacity of `largeCh`, `smallCh`, `deletedCh` and `committedCh`. -/
def entryChanCap : ℕ := 1000

inductive DType where
  | reg
  | dir
  | other
  deriving DecidableEq, Repr

structure SnapDiffEntry where
  name : GoString
  dtype : DType
  deriving DecidableEq, Repr

/-- What the `SnapDiffIterator` of a directory returns, and whether a read fails behind it. -/
structure DirDiff where
  entries : List SnapDiffEntry
  readErr : Bool
  deriving DecidableEq, Repr

inductive Stat where
  | notExist
  | failed
  | info (size : ℤ)
  deriving DecidableEq, Repr

/-- What a sync finds on the volume: the directories that the walk streams, whether the walk
fails behind them, and the answers of the differ and of `os.Lstat`. -/
structure SyncSource where
  dirs : List GoString
  walkErr : Bool
  newSnapDiffIterator : GoString → Option DirDiff
  lstat : GoString → Stat
  newIter : GoString → Option FileDiff

/-- What becomes of an entry: the channel it goes to, or the note that a directory changed. -/
inductive Changed where
  | large (fe : ChangedFileEntry)
  | special (path : GoString)
  | deleted (path : GoString)
  | directory
  deriving DecidableEq, Repr

namespace Changed

def large? : Changed → Option ChangedFileEntry
  | large fe => some fe
  | _ => none

def special? : Changed → Option GoString
  | special path => some path
  | _ => none

def deleted? : Changed → Option GoString
  | deleted path => some path
  | _ => none

end Changed

/-- The body of the loop in `categorizeDir`; none when it returns the error of `os.Lstat`. For
an entry that is not a regular file only `os.IsNotExist` looks at that error. -/
def SyncSource.route (src : SyncSource) (dirPath : GoString) (entry : SnapDiffEntry) :
    Option Changed :=
  let entryPath := join [dirPath, entry.name]
  let fullP := join [dataMountPath, entryPath]
  if entry.dtype ≠ .reg then
    if src.lstat fullP = .notExist then some (.deleted entryPath)
    else if entry.dtype ≠ .dir then some (.special entryPath)
    else some .directory
  else
    match src.lstat fullP with
    | .notExist => some (.deleted entryPath)
    | .failed => none
    | .info size => if size = 0 then some (.special entryPath) else some (.large ⟨entryPath, size⟩)

inductive ProducerErr where
  | ctx
  | newSnapDiffIterator (dirPath : GoString)
  | read
  | lstat
  | walk
  deriving DecidableEq, Repr

/-- Where `produceEntries` stands. `check` is the test of the context in front of a directory;
`readErr` belongs to the iterator of the directory. -/
inductive ProducerPC where
  | range
  | check (dirPath : GoString)
  | read (dirPath : GoString) (left : List SnapDiffEntry) (readErr : Bool)
  | send (c : Changed) (dirPath : GoString) (left : List SnapDiffEntry) (readErr : Bool)
  | exit (err : Option ProducerErr)
  deriving DecidableEq, Repr

def ProducerPC.exited : ProducerPC → Bool
  | exit _ => true
  | _ => false

inductive BlocksErr where
  | openCommitStream
  | group (err : SnapErr)
  deriving DecidableEq, Repr

inductive BlocksPC where
  | peek
  | openCommit
  | running
  | exit (err : Option BlocksErr)
  deriving DecidableEq, Repr

def BlocksPC.exited : BlocksPC → Bool
  | exit _ => true
  | _ => false

inductive GroupErr where
  | producer (err : ProducerErr)
  | blocks (err : BlocksErr)
  | metaRsync (err : RsyncErr)
  | special (err : RsyncErr)
  | deletes (err : DeletesErr)
  deriving DecidableEq, Repr

inductive SnapdiffSyncErr where
  | stateless (err : GroupErr)
  | convergence
  | signalDone
  deriving DecidableEq, Repr

inductive MainPC where
  | wait
  | convergence
  | signalDone
  | returned (err : Option SnapdiffSyncErr)
  deriving DecidableEq, Repr

/-- `walk` are the directories that the walker has not streamed yet; `metaLeft` and
`specialLeft` say that the consumer has returned to the group. `converged` and `doneSent` record
that the convergence rsync succeeded and that Done was called, `routed` what the producer sent
or noted, `largeTaken` what was received from `largeCh`. -/
structure StatelessSync (R S W : ℕ) where
  walk : List GoString
  producer : ProducerPC
  dirChanged : Bool
  largeCh : Chan ChangedFileEntry
  smallCh : Chan GoString
  deletedCh : Chan GoString
  committedCh : Chan GoString
  blocks : BlocksPC
  snap : Option (Snapdiff R S)
  metaRsync : RsyncPool W
  metaLeft : Bool
  special : RsyncPool W
  specialLeft : Bool
  deletes : DeleteConsumer
  groupErr : Option GroupErr
  ctxDone : Bool
  main : MainPC
  converged : Bool
  doneSent : Bool
  routed : List Changed
  largeTaken : List ChangedFileEntry

inductive StatelessAction (R S W : ℕ) where
  | cancel
  | producer (b : Branch)
  | peek
  | openCommit (ok : Bool)
  | blocks (a : SnapAction R S)
  | blocksReturn
  | metaRsync (i : Fin W) (e : RsyncEvent)
  | metaReturn
  | special (i : Fin W) (e : RsyncEvent)
  | specialReturn
  | deletes (e : DeletesEvent)
  | wait
  | convergence (ok : Bool)
  | signalDone (ok : Bool)
  deriving DecidableEq, Repr

def DrainerPC.exited : DrainerPC → Bool
  | exit _ => true
  | _ => false

def DrainerPC.reports : DrainerPC → DrainEvent → Option GoString
  | notify (path :: _) _ _, .select .ready => some path
  | _, _ => none

variable {R S W : ℕ}

namespace StatelessSync

def gctxDone (s : StatelessSync R S W) : Bool := s.ctxDone || s.groupErr.isSome

def leaveGroup (s : StatelessSync R S W) (err : Option GroupErr) : StatelessSync R S W :=
  { s with groupErr := s.groupErr.or err }

/-- `produceEntries` returns and the deferred calls close its channels. -/
def produced (s : StatelessSync R S W) (err : Option ProducerErr) : StatelessSync R S W :=
  ({ s with
    producer := .exit err
    largeCh := s.largeCh.close
    smallCh := s.smallCh.close
    deletedCh := s.deletedCh.close } : StatelessSync R S W).leaveGroup (err.map .producer)

def room (s : StatelessSync R S W) : Changed → Bool
  | .large _ => s.largeCh.buf.length < entryChanCap
  | .special _ => s.smallCh.buf.length < entryChanCap
  | .deleted _ => s.deletedCh.buf.length < entryChanCap
  | .directory => true

def delivered (s : StatelessSync R S W) (c : Changed) : StatelessSync R S W :=
  let s := { s with routed := s.routed ++ [c] }
  match c with
  | .large fe => { s with largeCh := s.largeCh.send fe }
  | .special path => { s with smallCh := s.smallCh.send path }
  | .deleted path => { s with deletedCh := s.deletedCh.send path }
  | .directory => { s with dirChanged := true }

/-- One step of `produceEntries`. The walker hands a directory over when the producer asks for
one; `dirChan` is closed behind the walker's result. -/
def produce (src : SyncSource) (s : StatelessSync R S W) :
    ProducerPC → Branch → Option (StatelessSync R S W)
  | .range, .ready =>
    match s.walk with
    | dirPath :: rest => some { s with walk := rest, producer := .check dirPath }
    | [] => some (s.produced (if src.walkErr then some .walk else none))
  | .check dirPath, .ready =>
    if s.gctxDone then some (s.produced (some .ctx))
    else
      match src.newSnapDiffIterator dirPath with
      | none => some (s.produced (some (.newSnapDiffIterator dirPath)))
      | some diff => some { s with producer := .read dirPath diff.entries diff.readErr }
  | .read dirPath (entry :: left) readErr, .ready =>
    match src.route dirPath entry with
    | none => some (s.produced (some .lstat))
    | some .directory =>
      some { s.delivered .directory with producer := .read dirPath left readErr }
    | some c => some { s with producer := .send c dirPath left readErr }
  | .read _ [] readErr, .ready =>
    some (if readErr then s.produced (some .read) else { s with producer := .range })
  | .send c dirPath left readErr, .ready =>
    if s.room c then some { s.delivered c with producer := .read dirPath left readErr } else none
  | .send _ _ _ _, .ctxDone => if s.gctxDone then some (s.produced (some .ctx)) else none
  | _, _ => none

/-- `runSnapdiffBlockPipeline` returns and `committedCh` is closed. -/
def blocksLeave (s : StatelessSync R S W) (err : Option BlocksErr) : StatelessSync R S W :=
  ({ s with blocks := .exit err, committedCh := s.committedCh.close } :
    StatelessSync R S W).leaveGroup (err.map .blocks)

/-- The first receive of `runSnapdiffBlockPipeline`, without a look at the context. The proxy
goroutine starts behind it. -/
def peek (s : StatelessSync R S W) : Option (StatelessSync R S W) :=
  match s.blocks, s.largeCh.buf with
  | .peek, first :: rest =>
    some { s with
      largeCh := { s.largeCh with buf := rest }
      largeTaken := s.largeTaken ++ [first]
      blocks := .openCommit
      snap := some (snapInit snapConfig R S first []) }
  | .peek, [] => if s.largeCh.closed then some (s.blocksLeave none) else none
  | _, _ => none

/-- The commit stream; the drainer and the pipeline start behind it. -/
def openCommit (s : StatelessSync R S W) (ok : Bool) : Option (StatelessSync R S W) :=
  match s.blocks with
  | .openCommit =>
    some (if ok then { s with blocks := .running } else s.blocksLeave (some .openCommitStream))
  | _ => none

/-- The proxy takes from `largeCh` as it is now; it ends when the channel is closed and empty. -/
def proxy (s : StatelessSync R S W) (x : Snapdiff R S) (b : Branch) :
    Option (StatelessSync R S W) :=
  if s.largeCh.buf = [] ∧ s.largeCh.closed = false then none
  else
    (Snapdiff.proxy { x with largeCh := s.largeCh.buf } b).map fun x' =>
      { s with
        snap := some { x' with largeCh := [] }
        largeCh := { s.largeCh with buf := x'.largeCh }
        largeTaken := s.largeTaken ++ s.largeCh.buf.take 1 }

def notifies (x : Snapdiff R S) : SnapAction R S → Option GoString
  | .drainer e => x.drainer.pc.reports e
  | _ => none

/-- A step inside `runSnapdiffBlockPipeline`, whose context is the group's. The proxy does not
wait for the commit stream, and nobody waits for the proxy at the end. -/
def runBlocks (src : SyncSource) (s : StatelessSync R S W) (x : Snapdiff R S) :
    SnapAction R S → Option (StatelessSync R S W)
  | .cancel =>
    if s.gctxDone ∧ x.ctxDone = false then
      (snapStep snapConfig src.newIter x .cancel).map fun x' => { s with snap := some x' }
    else none
  | .proxy b => s.proxy x b
  | a =>
    if s.blocks = .running then
      match notifies x a with
      | none =>
        (snapStep snapConfig src.newIter x a).map fun x' => { s with snap := some x' }
      | some path =>
        if s.committedCh.buf.length < entryChanCap then
          (snapStep snapConfig src.newIter x a).map fun x' =>
            { s with snap := some x', committedCh := s.committedCh.send path }
        else none
    else none

def blocksReturn (s : StatelessSync R S W) : Option (StatelessSync R S W) :=
  match s.blocks, s.snap with
  | .running, some x =>
    if x.closer = .exit ∧ x.drainer.pc.exited then
      some (s.blocksLeave (x.groupErr.map .group))
    else none
  | _, _ => none

def allLeft (s : StatelessSync R S W) : Bool :=
  s.producer.exited && s.blocks.exited && s.metaLeft && s.specialLeft && s.deletes.worker.pc.exited

/-- What `g.Wait` returned decides how `runSnapdiffSync` goes on. -/
def afterWait (s : StatelessSync R S W) : MainPC :=
  match s.groupErr with
  | some err => .returned (some (.stateless err))
  | none => if s.dirChanged then .convergence else .signalDone

end StatelessSync

def statelessStep (src : SyncSource) (s : StatelessSync R S W) :
    StatelessAction R S W → Option (StatelessSync R S W)
  | .cancel => some { s with ctxDone := true }
  | .producer b => s.produce src s.producer b
  | .peek => s.peek
  | .openCommit ok => s.openCommit ok
  | .blocks a => s.snap.bind fun x => s.runBlocks src x a
  | .blocksReturn => s.blocksReturn
  | .metaRsync i e =>
    (s.metaRsync.step s.gctxDone s.committedCh i e).map fun r =>
      { s with metaRsync := r.1, committedCh := r.2 }
  | .metaReturn =>
    if s.metaRsync.returned ∧ s.metaLeft = false then
      some (({ s with metaLeft := true } : StatelessSync R S W).leaveGroup
        (s.metaRsync.groupErr.map .metaRsync))
    else none
  | .special i e =>
    (s.special.step s.gctxDone s.smallCh i e).map fun r =>
      { s with special := r.1, smallCh := r.2 }
  | .specialReturn =>
    if s.special.returned ∧ s.specialLeft = false then
      some (({ s with specialLeft := true } : StatelessSync R S W).leaveGroup
        (s.special.groupErr.map .special))
    else none
  | .deletes e =>
    (s.deletes.step s.gctxDone s.deletedCh s.deletes.worker.pc e).map fun r =>
      ({ s with deletes := r.1, deletedCh := r.2 } : StatelessSync R S W).leaveGroup
        (r.1.worker.pc.error.map .deletes)
  | .wait => if s.main = .wait ∧ s.allLeft then some { s with main := s.afterWait } else none
  | .convergence ok =>
    if s.main = .convergence then
      some { s with
        converged := ok, main := if ok then .signalDone else .returned (some .convergence) }
    else none
  | .signalDone ok =>
    if s.main = .signalDone then
      some { s with doneSent := true, main := .returned (if ok then none else some .signalDone) }
    else none

def statelessInit (src : SyncSource) (R S W : ℕ) : StatelessSync R S W where
  walk := src.dirs
  producer := .range
  dirChanged := false
  largeCh := .new
  smallCh := .new
  deletedCh := .new
  committedCh := .new
  blocks := .peek
  snap := none
  metaRsync := .new W
  metaLeft := false
  special := .new W
  specialLeft := false
  deletes := .new
  groupErr := none
  ctxDone := false
  main := .wait
  converged := false
  doneSent := false
  routed := []
  largeTaken := []

inductive Produces (src : SyncSource) (s : StatelessSync R S W) : StatelessSync R S W → Prop
  | next {dirPath : GoString} {rest : List GoString} : s.producer = .range →
      s.walk = dirPath :: rest →
      Produces src s { s with walk := rest, producer := .check dirPath }
  | walked : s.producer = .range → s.walk = [] → src.walkErr = false →
      Produces src s (s.produced none)
  | failed (err : ProducerErr) : s.producer.exited = false → Produces src s (s.produced (some err))
  | opened {dirPath : GoString} {diff : DirDiff} : s.producer = .check dirPath →
      src.newSnapDiffIterator dirPath = some diff →
      Produces src s { s with producer := .read dirPath diff.entries diff.readErr }
  | route {c : Changed} {dirPath : GoString} {entry : SnapDiffEntry} {left : List SnapDiffEntry}
      {readErr : Bool} : s.producer = .read dirPath (entry :: left) readErr →
      src.route dirPath entry = some c →
      Produces src s { s with producer := .send c dirPath left readErr }
  | directory {dirPath : GoString} {entry : SnapDiffEntry} {left : List SnapDiffEntry}
      {readErr : Bool} : s.producer = .read dirPath (entry :: left) readErr →
      src.route dirPath entry = some .directory →
      Produces src s { s.delivered .directory with producer := .read dirPath left readErr }
  | deliver {c : Changed} {dirPath : GoString} {left : List SnapDiffEntry} {readErr : Bool} :
      s.producer = .send c dirPath left readErr → s.room c = true →
      Produces src s { s.delivered c with producer := .read dirPath left readErr }
  | dirEnd {dirPath : GoString} : s.producer = .read dirPath [] false →
      Produces src s { s with producer := .range }

inductive StatelessStep (src : SyncSource) (s : StatelessSync R S W) : StatelessSync R S W → Prop
  | cancel : StatelessStep src s { s with ctxDone := true }
  | produce {s' : StatelessSync R S W} : Produces src s s' → StatelessStep src s s'
  | peek {first : ChangedFileEntry} {rest : List ChangedFileEntry} : s.blocks = .peek →
      s.largeCh.buf = first :: rest →
      StatelessStep src s { s with
        largeCh := { s.largeCh with buf := rest }
        largeTaken := s.largeTaken ++ [first]
        blocks := .openCommit
        snap := some (snapInit snapConfig R S first []) }
  | peekEnd : s.blocks = .peek → s.largeCh.buf = [] → s.largeCh.closed = true →
      StatelessStep src s (s.blocksLeave none)
  | opened : s.blocks = .openCommit → StatelessStep src s { s with blocks := .running }
  | unopened : s.blocks = .openCommit →
      StatelessStep src s (s.blocksLeave (some .openCommitStream))
  | proxy {x x' : Snapdiff R S} {b : Branch} : s.snap = some x →
      (s.largeCh.buf = [] → s.largeCh.closed = true) →
      Snapdiff.proxy { x with largeCh := s.largeCh.buf } b = some x' →
      StatelessStep src s { s with
        snap := some { x' with largeCh := [] }
        largeCh := { s.largeCh with buf := x'.largeCh }
        largeTaken := s.largeTaken ++ s.largeCh.buf.take 1 }
  | cancelBlocks {x x' : Snapdiff R S} : s.snap = some x → s.gctxDone = true →
      snapStep snapConfig src.newIter x .cancel = some x' →
      StatelessStep src s { s with snap := some x' }
  | blocks {x x' : Snapdiff R S} {a : SnapAction R S} : s.blocks = .running → s.snap = some x →
      a ≠ .cancel → (∀ b, a ≠ .proxy b) → StatelessSync.notifies x a = none →
      snapStep snapConfig src.newIter x a = some x' →
      StatelessStep src s { s with snap := some x' }
  | notify {x x' : Snapdiff R S} {a : SnapAction R S} {path : GoString} : s.blocks = .running →
      s.snap = some x → a ≠ .cancel → (∀ b, a ≠ .proxy b) →
      StatelessSync.notifies x a = some path →
      snapStep snapConfig src.newIter x a = some x' →
      StatelessStep src s { s with snap := some x', committedCh := s.committedCh.send path }
  | blocksReturn {x : Snapdiff R S} : s.blocks = .running → s.snap = some x → x.closer = .exit →
      x.drainer.pc.exited = true → StatelessStep src s (s.blocksLeave (x.groupErr.map .group))
  | metaRsync {pool : RsyncPool W} {ch : Chan GoString} {i : Fin W} {e : RsyncEvent} :
      s.metaRsync.step s.gctxDone s.committedCh i e = some (pool, ch) →
      StatelessStep src s { s with metaRsync := pool, committedCh := ch }
  | metaReturn : s.metaRsync.returned = true → s.metaLeft = false →
      StatelessStep src s (({ s with metaLeft := true } : StatelessSync R S W).leaveGroup
        (s.metaRsync.groupErr.map .metaRsync))
  | special {pool : RsyncPool W} {ch : Chan GoString} {i : Fin W} {e : RsyncEvent} :
      s.special.step s.gctxDone s.smallCh i e = some (pool, ch) →
      StatelessStep src s { s with special := pool, smallCh := ch }
  | specialReturn : s.special.returned = true → s.specialLeft = false →
      StatelessStep src s (({ s with specialLeft := true } : StatelessSync R S W).leaveGroup
        (s.special.groupErr.map .special))
  | deletes {d : DeleteConsumer} {ch : Chan GoString} {e : DeletesEvent} :
      s.deletes.step s.gctxDone s.deletedCh s.deletes.worker.pc e = some (d, ch) →
      StatelessStep src s (({ s with deletes := d, deletedCh := ch } :
        StatelessSync R S W).leaveGroup (d.worker.pc.error.map .deletes))
  | wait : s.main = .wait → s.allLeft = true → StatelessStep src s { s with main := s.afterWait }
  | convergence (ok : Bool) : s.main = .convergence →
      StatelessStep src s { s with
        converged := ok, main := if ok then .signalDone else .returned (some .convergence) }
  | signalDone (ok : Bool) : s.main = .signalDone →
      StatelessStep src s { s with
        doneSent := true, main := .returned (if ok then none else some .signalDone) }

namespace StatelessSync

variable {src : SyncSource} {s s' : StatelessSync R S W}

@[simp] theorem delivered_routed (c : Changed) : (s.delivered c).routed = s.routed ++ [c] := by
  cases c <;> rfl

@[simp] theorem delivered_largeCh (c : Changed) :
    (s.delivered c).largeCh.buf = s.largeCh.buf ++ c.large?.toList := by
  cases c <;> simp [delivered, Chan.send, Changed.large?]

@[simp] theorem delivered_smallCh (c : Changed) :
    (s.delivered c).smallCh.buf = s.smallCh.buf ++ c.special?.toList := by
  cases c <;> simp [delivered, Chan.send, Changed.special?]

@[simp] theorem delivered_deletedCh (c : Changed) :
    (s.delivered c).deletedCh.buf = s.deletedCh.buf ++ c.deleted?.toList := by
  cases c <;> simp [delivered, Chan.send, Changed.deleted?]

@[simp] theorem delivered_dirChanged (c : Changed) :
    (s.delivered c).dirChanged = (s.dirChanged || c = .directory) := by
  cases c <;> simp [delivered]

theorem delivered_frame (c : Changed) :
    (s.delivered c).largeTaken = s.largeTaken ∧ (s.delivered c).special = s.special ∧
      (s.delivered c).deletes = s.deletes ∧ (s.delivered c).metaRsync = s.metaRsync ∧
      (s.delivered c).committedCh = s.committedCh ∧ (s.delivered c).snap = s.snap ∧
      (s.delivered c).blocks = s.blocks := by
  cases c <;> exact ⟨rfl, rfl, rfl, rfl, rfl, rfl, rfl⟩

theorem produce_cases {b : Branch} (h : s.produce src s.producer b = some s') :
    Produces src s s' := by
  unfold produce at h
  split at h
  · rename_i at_
    split at h
    · cases h; exact .next at_ ‹_›
    · cases h
      cases hw : src.walkErr
      · exact .walked at_ ‹_› hw
      · exact .failed _ (by rw [at_]; rfl)
  · rename_i at_
    split at h
    · cases h; exact .failed _ (by rw [at_]; rfl)
    · split at h
      · cases h; exact .failed _ (by rw [at_]; rfl)
      · cases h; exact .opened at_ ‹_›
  · rename_i at_
    split at h
    · cases h; exact .failed _ (by rw [at_]; rfl)
    · cases h; exact .directory at_ ‹_›
    · cases h; exact .route at_ ‹_›
  · rename_i readErr at_
    cases h
    cases readErr
    · exact .dirEnd at_
    · exact .failed _ (by rw [at_]; rfl)
  · split at h <;> cases h
    exact .deliver ‹_› ‹_›
  · rename_i at_
    split at h <;> cases h
    exact .failed _ (by rw [at_]; rfl)
  · cases h

theorem peek_cases (h : s.peek = some s') : StatelessStep src s s' := by
  unfold peek at h
  split at h
  · cases h; exact .peek ‹_› ‹_›
  · split at h <;> cases h
    exact .peekEnd ‹_› ‹_› ‹_›
  · cases h

theorem openCommit_cases {ok : Bool} (h : s.openCommit ok = some s') : StatelessStep src s s' := by
  unfold openCommit at h
  split at h
  · cases h
    cases ok
    · exact .unopened ‹_›
    · exact .opened ‹_›
  · cases h

theorem runBlocks_cases {x : Snapdiff R S} {a : SnapAction R S} (hx : s.snap = some x)
    (h : s.runBlocks src x a = some s') : StatelessStep src s s' := by
  unfold runBlocks at h
  split at h
  · split at h
    · obtain ⟨x', next, rfl⟩ := Option.map_eq_some_iff.mp h
      exact .cancelBlocks hx (by simp_all) next
    · cases h
  · unfold proxy at h
    split at h
    · cases h
    · rename_i open_
      obtain ⟨x', next, rfl⟩ := Option.map_eq_some_iff.mp h
      exact .proxy hx (by simpa using open_) next
  · split at h
    · rename_i running
      split at h
      · obtain ⟨x', next, rfl⟩ := Option.map_eq_some_iff.mp h
        exact .blocks running hx ‹_› ‹_› ‹_› next
      · split at h
        · obtain ⟨x', next, rfl⟩ := Option.map_eq_some_iff.mp h
          exact .notify running hx ‹_› ‹_› ‹_› next
        · cases h
    · cases h

theorem blocksReturn_cases (h : s.blocksReturn = some s') : StatelessStep src s s' := by
  unfold blocksReturn at h
  split at h
  · split at h
    · rename_i ended
      cases h
      exact .blocksReturn ‹_› ‹_› ended.1 ended.2
    · cases h
  · cases h

end StatelessSync

theorem statelessStep_cases {src : SyncSource} {s s' : StatelessSync R S W}
    {a : StatelessAction R S W} (h : statelessStep src s a = some s') : StatelessStep src s s' := by
  cases a with
  | cancel => cases h; exact .cancel
  | producer b => exact .produce (StatelessSync.produce_cases h)
  | peek => exact StatelessSync.peek_cases h
  | openCommit ok => exact StatelessSync.openCommit_cases h
  | blocks a =>
    obtain ⟨x, hx, next⟩ := Option.bind_eq_some_iff.mp h
    exact StatelessSync.runBlocks_cases hx next
  | blocksReturn => exact StatelessSync.blocksReturn_cases h
  | metaRsync i e =>
    obtain ⟨⟨pool, ch⟩, next, rfl⟩ := Option.map_eq_some_iff.mp h
    exact .metaRsync next
  | metaReturn =>
    simp only [statelessStep] at h
    split at h
    · rename_i returned
      cases h
      exact .metaReturn returned.1 returned.2
    · cases h
  | special i e =>
    obtain ⟨⟨pool, ch⟩, next, rfl⟩ := Option.map_eq_some_iff.mp h
    exact .special next
  | specialReturn =>
    simp only [statelessStep] at h
    split at h
    · rename_i returned
      cases h
      exact .specialReturn returned.1 returned.2
    · cases h
  | deletes e =>
    obtain ⟨⟨d, ch⟩, next, rfl⟩ := Option.map_eq_some_iff.mp h
    exact .deletes next
  | wait =>
    simp only [statelessStep] at h
    split at h
    · rename_i left
      cases h
      exact .wait left.1 left.2
    · cases h
  | convergence ok =>
    simp only [statelessStep] at h
    split at h <;> cases h
    exact .convergence ok ‹_›
  | signalDone ok =>
    simp only [statelessStep] at h
    split at h <;> cases h
    exact .signalDone ok ‹_›

end CephVolsync.CephFs
