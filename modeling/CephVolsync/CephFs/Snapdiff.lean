import CephVolsync.CephFs.CommitDrainer
import CephVolsync.Pipeline.Delivery

/-! `runSnapdiffBlockPipeline` (`internal/worker/cephfs/source.go`) from the point where its
goroutines start: the proxy that forwards the changed files, the pipeline over the block
iterator, the goroutine around it that closes the iterator, and the commit drainer. The
pipeline and the drainer share the window and the group's context. The iterator watches
the caller's context.

A slow producer of `largeCh` is a schedule in which the proxy waits. `committedCh` is set
and its consumer never blocks for good. -/

namespace CephVolsync.CephFs

open Pipeline TransitionSystem

def proxyCap : ℕ := 1000

/-- The goroutine that runs the pipeline and then, in `iter.Close`, flushes the boundaries
of `todo`. -/
inductive CloserPC where
  | running
  | close
  | flush (todo : List FileBoundary)
  | closeCh
  | exit
  deriving DecidableEq, Repr

inductive SnapErr where
  | drainer (err : DrainErr)
  | pipeline (err : Err)
  deriving DecidableEq, Repr

structure Snapdiff (R S : ℕ) where
  pipe : State R S
  feed : Feed
  largeCh : List ChangedFileEntry
  drainer : CommitDrainer
  closer : CloserPC
  groupErr : Option SnapErr
  ctxDone : Bool

inductive SnapAction (R S : ℕ) where
  | cancel
  | proxy (b : Branch)
  | next (b : Branch)
  | pipe (a : Action R S)
  | drainer (e : DrainEvent)
  | closer (b : Branch)
  deriving DecidableEq, Repr

variable {R S : ℕ}

namespace Snapdiff

def gctxDone (s : Snapdiff R S) : Bool := s.ctxDone || s.groupErr.isSome

/-- A goroutine of the group returns: its error cancels the group's context. -/
def leaveGroup (s : Snapdiff R S) : Option SnapErr → Snapdiff R S
  | none => s
  | some err => { s with
      groupErr := s.groupErr.or (some err), pipe := { s.pipe with ctxDone := true } }

/-- The goroutine that forwards `largeCh`. -/
def proxy (s : Snapdiff R S) : Branch → Option (Snapdiff R S)
  | .ready =>
    if s.feed.fileCh.closed then none
    else
      match s.largeCh with
      | fe :: rest =>
        if s.feed.fileCh.buf.length < proxyCap then
          some { s with largeCh := rest, feed := { s.feed with fileCh := s.feed.fileCh.send fe } }
        else none
      | [] => some { s with feed := { s.feed with fileCh := s.feed.fileCh.close } }
  | .ctxDone =>
    if s.ctxDone ∧ s.feed.fileCh.closed = false ∧ s.largeCh ≠ [] then
      some { s with
        largeCh := s.largeCh.tail
        feed := { s.feed with fileCh := s.feed.fileCh.close } }
    else none

/-- A step of the pipeline. Its iterator is the feed; its context is the group's. -/
def pipeStep (cfg : Config) (s : Snapdiff R S) : Action R S → Option (Snapdiff R S)
  | .cancel => none
  | .takeRelease => none
  | .iterNext b =>
    match s.feed.answer with
    | some (b', feed') =>
      if b = b' then (step cfg s.pipe (.iterNext b)).map fun p =>
        { s with pipe := p, feed := feed' }
      else none
    | none => none
  | a => (step cfg s.pipe a).map fun p => { s with pipe := p }

def exitErr : DrainerPC → Option SnapErr
  | .exit err => err.map .drainer
  | _ => none

def drain (cfg : Config) (s : Snapdiff R S) (e : DrainEvent) : Option (Snapdiff R S) :=
  (s.drainer.run cfg.maxWindow.toNat s.gctxDone s.feed.boundaryCh s.pipe.shared.win
    s.drainer.pc e).map fun r =>
      ({ s with
          drainer := r.1
          feed := { s.feed with boundaryCh := r.2.1 }
          pipe := { s.pipe with shared := { s.pipe.shared with win := r.2.2 } } } :
        Snapdiff R S).leaveGroup (exitErr r.1.pc)

/-- `SetFailed`, `iter.Close` and `close(boundaryCh)` behind the return of the pipeline. Nobody
uses the iterator after its boundaries are flushed, so its last fields stay as they are. -/
def close (opts : IterOptions) (s : Snapdiff R S) : CloserPC → Branch → Option (Snapdiff R S)
  | .running, .ready =>
    if s.pipe.returned then
      some { s with
        closer := .close
        feed := { s.feed with it := { s.feed.it with failed := s.pipe.runErr.isSome } } }
    else none
  | .close, .ready =>
    let feed := if s.feed.it.failed then s.feed else s.feed.emitBoundary opts
    some { s with feed := feed, closer := .flush feed.it.pendingBoundaries }
  | .flush (fb :: todo), .ready =>
    if s.feed.room opts then
      some { s with
        closer := .flush todo, feed := { s.feed with boundaryCh := s.feed.boundaryCh.send fb } }
    else none
  | .flush (_ :: _), .ctxDone => if s.ctxDone then some { s with closer := .closeCh } else none
  | .flush [], .ready => some { s with closer := .closeCh }
  | .closeCh, .ready =>
    some (({ s with
      closer := .exit, feed := { s.feed with boundaryCh := s.feed.boundaryCh.close } } :
        Snapdiff R S).leaveGroup (s.pipe.runErr.map .pipeline))
  | _, _ => none

end Snapdiff

/-- The configuration of `runSnapdiffBlockPipeline`: eight read workers and eight senders. -/
def snapConfig : Config := Config.zero.setDefaults

/-- The options that `runSnapdiffBlockPipeline` gives to its iterator. -/
def iterOptions (cfg : Config) (newIter : GoString → Option FileDiff) : IterOptions :=
  ⟨newIter, cfg.dataBatchMaxBytes, cfg.maxWindow.toNat⟩

def snapStep (cfg : Config) (newIter : GoString → Option FileDiff) (s : Snapdiff R S) :
    SnapAction R S → Option (Snapdiff R S)
  | .cancel => some { s with ctxDone := true, pipe := { s.pipe with ctxDone := true } }
  | .proxy b => s.proxy b
  | .next b =>
    if s.pipe.feeder = .next then
      (s.feed.next (iterOptions cfg newIter) s.ctxDone s.feed.pc b).map fun f =>
        { s with feed := f }
    else none
  | .pipe a => s.pipeStep cfg a
  | .drainer e => s.drain cfg e
  | .closer b => s.close (iterOptions cfg newIter) s.closer b

/-- The goroutines start with the first entry of `largeCh` already in `proxyCh`. -/
def snapInit (cfg : Config) (R S : ℕ) (first : ChangedFileEntry) (rest : List ChangedFileEntry) :
    Snapdiff R S where
  pipe := init cfg R S
  feed := .new (Chan.new.send first)
  largeCh := rest
  drainer := .new
  closer := .running
  groupErr := none
  ctxDone := false

/-- `g.Wait` has returned. -/
def Snapdiff.Returned (s : Snapdiff R S) : Prop :=
  s.closer = .exit ∧ ∃ err, s.drainer.pc = .exit err

def Snapdiff.drained (s : Snapdiff R S) (d : CommitDrainer) (ch : Chan FileBoundary)
    (win : WindowSemaphore (Fin R)) : Snapdiff R S :=
  { s with
    drainer := d
    feed := { s.feed with boundaryCh := ch }
    pipe := { s.pipe with shared := { s.pipe.shared with win := win } } }

inductive SnapStep (cfg : Config) (opts : IterOptions) (s : Snapdiff R S) :
    SnapAction R S → Snapdiff R S → Prop
  | cancel : SnapStep cfg opts s .cancel
      { s with ctxDone := true, pipe := { s.pipe with ctxDone := true } }
  | forward {fe : ChangedFileEntry} {rest : List ChangedFileEntry} :
      s.feed.fileCh.closed = false → s.largeCh = fe :: rest →
      SnapStep cfg opts s (.proxy .ready) { s with
        largeCh := rest, feed := { s.feed with fileCh := s.feed.fileCh.send fe } }
  | proxyEnd : s.feed.fileCh.closed = false → s.largeCh = [] →
      SnapStep cfg opts s (.proxy .ready) { s with
        feed := { s.feed with fileCh := s.feed.fileCh.close } }
  | proxyStop : s.ctxDone = true →
      SnapStep cfg opts s (.proxy .ctxDone) { s with
        largeCh := s.largeCh.tail, feed := { s.feed with fileCh := s.feed.fileCh.close } }
  | next {b : Branch} {f : Feed} : s.pipe.feeder = .next → FeedStep opts s.ctxDone s.feed f →
      SnapStep cfg opts s (.next b) { s with feed := f }
  | answer {b : Option ChangeBlock} {f : Feed} {p : State R S} : s.feed.answer = some (b, f) →
      step cfg s.pipe (.iterNext b) = some p →
      SnapStep cfg opts s (.pipe (.iterNext b)) { s with pipe := p, feed := f }
  | pipe {a : Action R S} {p : State R S} : (∀ b, a ≠ .iterNext b) → step cfg s.pipe a = some p →
      SnapStep cfg opts s (.pipe a) { s with pipe := p }
  | drainer {e : DrainEvent} {d : CommitDrainer} {ch : Chan FileBoundary}
      {win : WindowSemaphore (Fin R)} :
      DrainStep cfg.maxWindow.toNat s.gctxDone s.drainer s.feed.boundaryCh s.pipe.shared.win
        d ch win →
      SnapStep cfg opts s (.drainer e) ((s.drained d ch win).leaveGroup (Snapdiff.exitErr d.pc))
  | closeStart : s.closer = .running → s.pipe.returned = true →
      SnapStep cfg opts s (.closer .ready) { s with
        closer := .close
        feed := { s.feed with it := { s.feed.it with failed := s.pipe.runErr.isSome } } }
  | closeIter {f : Feed} : s.closer = .close →
      f = (if s.feed.it.failed then s.feed else s.feed.emitBoundary opts) →
      SnapStep cfg opts s (.closer .ready) { s with
        feed := f, closer := .flush f.it.pendingBoundaries }
  | flush {fb : FileBoundary} {todo : List FileBoundary} : s.closer = .flush (fb :: todo) →
      SnapStep cfg opts s (.closer .ready) { s with
        closer := .flush todo, feed := { s.feed with boundaryCh := s.feed.boundaryCh.send fb } }
  | flushStop {todo : List FileBoundary} : s.closer = .flush todo → s.ctxDone = true →
      SnapStep cfg opts s (.closer .ctxDone) { s with closer := .closeCh }
  | flushEnd : s.closer = .flush [] →
      SnapStep cfg opts s (.closer .ready) { s with closer := .closeCh }
  | closeCh : s.closer = .closeCh →
      SnapStep cfg opts s (.closer .ready) (({ s with
        closer := .exit, feed := { s.feed with boundaryCh := s.feed.boundaryCh.close } } :
          Snapdiff R S).leaveGroup (s.pipe.runErr.map .pipeline))

theorem Snapdiff.pipeStep_cases {cfg : Config} {opts : IterOptions} {s s' : Snapdiff R S}
    {a : Action R S} (h : s.pipeStep cfg a = some s') : SnapStep cfg opts s (.pipe a) s' := by
  cases a with
  | cancel | takeRelease => cases h
  | iterNext b =>
    simp only [Snapdiff.pipeStep] at h
    split at h
    · rename_i ha
      split at h
      · rename_i hb
        obtain ⟨p, hp, rfl⟩ := Option.map_eq_some_iff.mp h
        subst hb
        exact .answer ha hp
      · cases h
    · cases h
  | _ =>
    obtain ⟨p, hp, rfl⟩ := Option.map_eq_some_iff.mp h
    exact .pipe (by simp) hp

theorem Snapdiff.close_cases {cfg : Config} {opts : IterOptions} {s s' : Snapdiff R S} {b : Branch}
    (h : s.close opts s.closer b = some s') : SnapStep cfg opts s (.closer b) s' := by
  cases hpc : s.closer with
  | running =>
    cases b <;> simp only [hpc, Snapdiff.close, reduceCtorEq] at h
    split at h <;> cases h
    exact .closeStart hpc ‹_›
  | close =>
    cases b <;> simp only [hpc, Snapdiff.close, reduceCtorEq] at h
    cases h
    exact .closeIter hpc rfl
  | flush todo =>
    cases todo <;> cases b <;> simp only [hpc, Snapdiff.close, reduceCtorEq] at h
    · cases h; exact .flushEnd hpc
    · split at h <;> cases h
      exact .flush hpc
    · split at h <;> cases h
      exact .flushStop hpc ‹_›
  | closeCh =>
    cases b <;> simp only [hpc, Snapdiff.close, reduceCtorEq] at h
    cases h
    exact .closeCh hpc
  | exit => cases b <;> simp only [hpc, Snapdiff.close, reduceCtorEq] at h

theorem snapStep_cases {cfg : Config} {newIter : GoString → Option FileDiff} {s s' : Snapdiff R S}
    {a : SnapAction R S} (h : snapStep cfg newIter s a = some s') :
    SnapStep cfg (iterOptions cfg newIter) s a s' := by
  cases a with
  | cancel => cases h; exact .cancel
  | proxy b =>
    cases b with
    | ready =>
      simp only [snapStep, Snapdiff.proxy] at h
      split at h
      · cases h
      · rename_i hc
        split at h
        · split at h <;> cases h
          exact .forward (by simpa using hc) ‹_›
        · cases h; exact .proxyEnd (by simpa using hc) ‹_›
    | ctxDone =>
      simp only [snapStep, Snapdiff.proxy] at h
      split at h <;> cases h
      rename_i hc
      exact .proxyStop hc.1
  | next b =>
    simp only [snapStep] at h
    split at h
    · obtain ⟨f, hf, rfl⟩ := Option.map_eq_some_iff.mp h
      exact .next ‹_› (Feed.next_cases hf)
    · cases h
  | pipe a => exact Snapdiff.pipeStep_cases h
  | drainer e =>
    obtain ⟨⟨d, ch, win⟩, hr, rfl⟩ := Option.map_eq_some_iff.mp h
    exact .drainer (CommitDrainer.run_cases hr)
  | closer b => exact Snapdiff.close_cases h

end CephVolsync.CephFs
