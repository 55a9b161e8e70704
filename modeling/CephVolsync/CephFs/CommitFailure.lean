import CephVolsync.CephFs.FileDelivery
import CephVolsync.Pipeline.Solo

/-! What happens after the drainer has failed. The group's context is cancelled, so the
pipeline returns. The goroutine behind it then flushes the boundaries that the iterator
still holds into `boundaryCh`, from which nobody receives any more: this ends if they fit,
and hangs as long as the caller's context lives if they do not. -/

namespace CephVolsync.CephFs

open Pipeline TransitionSystem

variable {R S : ℕ} {cfg : Config} {newIter : GoString → Option FileDiff} {opts : IterOptions}

/-- A step of a goroutine of `runSnapdiffBlockPipeline`, in which a call that it waits for may
return. The caller's context, the destination and failures of its streams are others. -/
def SnapAction.own : SnapAction R S → Bool
  | .cancel => false
  | .pipe (.worker _ .handler) | .pipe (.worker _ .handlerFail) | .pipe (.worker _ .recvErr) =>
      false
  | _ => true

theorem SnapAction.pipe_own {a : Action R S} (h : a.own = true) :
    (SnapAction.pipe a).own = true := by
  cases a with
  | worker i e => cases e <;> first | rfl | exact h
  | _ => rfl

theorem Snapdiff.pipeStep_own {s : Snapdiff R S} {a : Action R S} {p : State R S}
    (h : a.own = true) (hs : step cfg s.pipe a = some p) :
    snapStep cfg newIter s (.pipe a) = some { s with pipe := p } := by
  cases a with
  | cancel | iterNext | takeRelease => simp [Action.own] at h
  | _ => simp only [snapStep, Snapdiff.pipeStep, hs, Option.map_some]

theorem Snapdiff.lift {s : Snapdiff R S} {p : State R S}
    (h : Reach (restrict (fun _ a => a.own) (step cfg)) s.pipe p) :
    Reach (snapStep cfg newIter) s { s with pipe := p } := by
  induction h with
  | refl => exact .refl
  | tail a _ next ih =>
    obtain ⟨own, hs⟩ := restrict_eq_some.mp next
    exact .tail (.pipe a) ih (Snapdiff.pipeStep_own (s := { s with pipe := _ }) own hs)

def Snapdiff.Cancels (s : Snapdiff R S) : Prop := s.groupErr ≠ none → s.pipe.ctxDone = true

theorem Snapdiff.Cancels.leaveGroup {s : Snapdiff R S} (h : s.Cancels) (err : Option SnapErr) :
    (s.leaveGroup err).Cancels := by
  cases err with
  | none => exact h
  | some e => exact fun _ => rfl

theorem SnapStep.cancels {s s' : Snapdiff R S} {a : SnapAction R S} (h : SnapStep cfg opts s a s')
    (hs : s.Cancels) : s'.Cancels := by
  cases h with
  | cancel => exact fun _ => rfl
  | answer _ hp | pipe _ hp => exact fun he => step_ctxDone hp (hs he)
  | drainer | closeCh =>
    refine Snapdiff.Cancels.leaveGroup ?_ _
    exact hs
  | _ => exact hs

theorem reach_cancels {first : ChangedFileEntry} {rest : List ChangedFileEntry} {s : Snapdiff R S}
    (h : Reach (snapStep cfg newIter) (snapInit cfg R S first rest) s) : s.Cancels :=
  h.invariant (by simp [Snapdiff.Cancels, snapInit]) fun _ _ _ _ hs next =>
    (snapStep_cases next).cancels hs

theorem Snapdiff.feed_progress {s : Snapdiff R S} (hf : s.pipe.feeder = .next) :
    ∃ a s', a.own = true ∧ snapStep cfg newIter s a = some s' := by
  -- as long as the feeder asks for a block, somebody can take a step: a file that the iterator
  -- waits for comes from the proxy
  rcases s.feed.progress (iterOptions cfg newIter) s.ctxDone with ⟨b, f, ha⟩ | ⟨f, hn⟩ | ⟨hb, hc⟩
  · obtain ⟨p, hp⟩ : ∃ p, step cfg s.pipe (.iterNext b) = some p := by
      cases b <;> exact ⟨_, by simp only [step, hf, iterNext]; rfl⟩
    exact ⟨.pipe (.iterNext b), { s with pipe := p, feed := f }, rfl, by
      simp only [snapStep, Snapdiff.pipeStep, ha, if_true, hp, Option.map_some]⟩
  · exact ⟨.next .ready, { s with feed := f }, rfl,
      by simp only [snapStep, hf, if_true, hn, Option.map_some]⟩
  · refine ⟨.proxy .ready, ?_⟩
    cases hl : s.largeCh with
    | nil => exact ⟨_, rfl, by simp only [snapStep, Snapdiff.proxy, hc, hl]; rfl⟩
    | cons fe rest => exact ⟨_, rfl, by simp only [snapStep, Snapdiff.proxy, hc, hl, hb]; rfl⟩

def Snapdiff.backlog (s : Snapdiff R S) : ℕ := s.feed.boundaryCh.buf.length + s.unsent.length

/-- After the drainer has returned, some goroutine can take a step until
`runSnapdiffBlockPipeline` returns, in every state in which the boundaries that were not
received fit into `boundaryCh`. -/
theorem failed_commit_progress (newIter : GoString → Option FileDiff) (first : ChangedFileEntry)
    (rest : List ChangedFileEntry) (s : Snapdiff 8 8)
    (h : Reach (snapStep snapConfig newIter) (snapInit snapConfig 8 8 first rest) s)
    (err : Option DrainErr) (hdr : s.drainer.pc = .exit err)
    (hfit : s.backlog ≤ snapConfig.maxWindow.toNat) (hret : ¬ s.Returned) :
    ∃ a s', a.own = true ∧ snapStep snapConfig newIter s a = some s' := by
  have notExit : s.closer ≠ .exit := fun hc => hret ⟨hc, err, hdr⟩
  have cancelled : s.pipe.ctxDone = true := by
    refine reach_cancels h ?_
    cases err with
    | some e => exact (reach_accounted h).drainer e hdr
    | none =>
      have flushing := ((reach_booked h).receiving notExit).2
      simp [hdr, DrainerPC.flushing] at flushing
  cases hc : s.closer with
  | running =>
    by_cases hf : s.pipe.feeder = .next
    · exact Snapdiff.feed_progress hf
    · by_cases hr : s.pipe.returned = true
      · exact ⟨.closer .ready, _, rfl,
          by simp only [snapStep, hc, Snapdiff.close, hr, if_true]; rfl⟩
      · obtain ⟨a, p, own, hp, -⟩ := @wind_step 8 8 snapConfig s.pipe cancelled hf
          (by simpa using hr)
        exact ⟨.pipe a, _, SnapAction.pipe_own own, Snapdiff.pipeStep_own own hp⟩
  | close => exact ⟨.closer .ready, _, rfl, by simp only [snapStep, hc, Snapdiff.close]; rfl⟩
  | flush todo =>
    cases todo with
    | nil => exact ⟨.closer .ready, _, rfl, by simp only [snapStep, hc, Snapdiff.close]; rfl⟩
    | cons fb todo =>
      have room : s.feed.room (iterOptions snapConfig newIter) = true := by
        simp only [Snapdiff.backlog, Snapdiff.unsent, hc, List.length_cons] at hfit
        exact decide_eq_true (by simp only [iterOptions]; omega)
      exact ⟨.closer .ready, _, rfl,
        by simp only [snapStep, hc, Snapdiff.close, room, if_true]; rfl⟩
  | closeCh => exact ⟨.closer .ready, _, rfl, by simp only [snapStep, hc, Snapdiff.close]; rfl⟩
  | exit => exact absurd hc notExit

/-- Number of files of the run: the drainer receives `1027` boundaries, `1024` fill the channel
and one more waits in the iterator. -/
def manyCount : ℕ := 2052

def manyPath (k : ℕ) : GoString := [UInt8.ofNat (k / 256), UInt8.ofNat (k % 256)]

def manyFile (k : ℕ) : ChangedFileEntry := ⟨manyPath k, 1⟩

def manyBlock (k : ℕ) : ChangeBlock := ⟨manyPath k, 0, 1, k, 1, false⟩

def manyBoundary (k : ℕ) : FileBoundary := ⟨manyPath k, k, 1⟩

def filesFrom (k : ℕ) : List ChangedFileEntry := (List.range' k (manyCount - k)).map manyFile

/-- File `k` is in the file channel: the iterator enters it, returns its block and emits its
boundary. -/
def feedFile (k : ℕ) : List (SnapAction 8 8) :=
  repeats [(1, .next .ready), (1, .pipe (.iterNext (some (manyBlock k)))),
    (1, .pipe (.feeder .ready)), (3, .next .ready)]

def readFile : List (SnapAction 8 8) := readZeros.map fun e => .pipe (.reader 0 e)

def receiveBoundary : List (SnapAction 8 8) := repeats [(2, .drainer (.select .ready))]

/-- The sixteen blocks of the first request are written, acknowledged and released. -/
def ackBatch : List (SnapAction 8 8) :=
  repeats [(18, .pipe (.worker 0 .handler)), (18, .pipe (.worker 0 (.ack .ready)))]

def headSchedule : List (SnapAction 8 8) :=
  List.flatten [repeats [(3, .next .ready), (1, .pipe (.worker 0 (.open true)))],
    feedFile 0, readFile, [.pipe (.worker 0 (.sender .ready))], receiveBoundary,
    (List.range' 1 15).flatMap fun k => List.flatten [[.proxy .ready], feedFile k, readFile,
      [.pipe (.worker 0 (.sender .ready))], receiveBoundary],
    [.proxy .ready], feedFile 16, readFile,
    repeats [(1, .pipe (.worker 0 (.sender .ready))), (1, .pipe (.worker 0 (.send true))),
      (17, .pipe (.worker 0 (.sender .ready)))], receiveBoundary, ackBatch]

/-- The pipeline is empty up to the batch of its first send worker, and the first sixteen
blocks have been acknowledged. -/
structure Idle (p : State 8 8) : Prop where
  reader : p.readers 0 = .recv
  chunkCh : p.shared.chunkCh.buf = []
  readCh : p.shared.readCh.buf = []
  capacity : p.shared.mem.capacity = snapConfig.maxRawMemoryBytes
  cur : p.shared.mem.cur = 0
  waiters : p.shared.mem.waiters = []
  base : p.shared.win.base = 16
  limit : p.shared.win.limit = 2048
  worker : (p.workers 0).Ready

theorem Idle.of_eq {p p' : State 8 8} (h : Idle p) (hr : p'.readers = p.readers)
    (hw : p'.workers = p.workers) (hsh : p'.shared = { p.shared with log := p'.shared.log }) :
    Idle p' := by
  have chunkCh : p'.shared.chunkCh = p.shared.chunkCh := by rw [hsh]
  have readCh : p'.shared.readCh = p.shared.readCh := by rw [hsh]
  have mem : p'.shared.mem = p.shared.mem := by rw [hsh]
  have win : p'.shared.win = p.shared.win := by rw [hsh]
  constructor
  all_goals simp only [hr, hw, chunkCh, readCh, mem, win]
  exacts [h.reader, h.chunkCh, h.readCh, h.capacity, h.cur, h.waiters, h.base, h.limit, h.worker]

structure Pumped (k : ℕ) (s : Snapdiff 8 8) : Prop where
  feeder : s.pipe.feeder = .next
  pc : s.feed.pc = .nextFile
  curIter : s.feed.it.curIter = none
  reqID : s.feed.it.reqID = k
  fileCh : s.feed.fileCh = ⟨[], false⟩
  largeCh : s.largeCh = filesFrom k
  idle : Idle s.pipe
  closer : s.closer = .running
  ctx : s.ctxDone = false

theorem Pumped.drain {k : ℕ} {s : Snapdiff 8 8} (h : Pumped k s) (d : CommitDrainer)
    (ch : Chan FileBoundary) :
    Pumped k { s with drainer := d, feed := { s.feed with boundaryCh := ch } } :=
  ⟨h.feeder, h.pc, h.curIter, h.reqID, h.fileCh, h.largeCh, h.idle, h.closer, h.ctx⟩

theorem feed_file {opts : IterOptions} (ht : 0 < opts.smallFileThreshold) {f : Feed} {k : ℕ}
    (hcur : f.it.curIter = none) (hid : f.it.reqID = k) (hfile : f.fileCh = ⟨[manyFile k], false⟩)
    (hpend : f.it.pendingBoundaries = []) :
    ∃ f₁ f₂ f₃ f₄ f₅, f.next opts false .nextFile .ready = some f₁ ∧ f₁.pc = .scan ∧
      f₁.answer = some (some (manyBlock k), f₂) ∧ f₂.pc = .scan ∧
      f₂.next opts false .scan .ready = some f₃ ∧ f₃.pc = .boundary ∧
      f₃.next opts false .boundary .ready = some f₄ ∧ f₄.pc = .drain ∧
      f₄.next opts false .drain .ready = some f₅ ∧ f₅.pc = .nextFile ∧
      f₅.it.curIter = none ∧ f₅.it.reqID = k + 1 ∧ f₅.fileCh = ⟨[], false⟩ ∧
      if f.room opts then
        f₅.boundaryCh = f.boundaryCh.send (manyBoundary k) ∧ f₅.it.pendingBoundaries = []
      else f₅.boundaryCh = f.boundaryCh ∧ f₅.it.pendingBoundaries = [manyBoundary k] := by
  have split : splitLargeBlocks ⟨[⟨0, uint64 1⟩], 1, le_rfl⟩ maxBlockLen = [⟨0, 1⟩] := by decide
  let f₁ : Feed := { f with
    it := { f.it with
      totalSize := 1, curFile := manyPath k, fileStartReqID := f.it.reqID, buf := [⟨0, 1⟩] }
    pc := .scan, fileCh := ⟨[], false⟩, entered := f.entered ++ [manyFile k] }
  let f₂ : Feed := { f₁ with it := { f₁.it with buf := [], reqID := f₁.it.reqID + 1 } }
  let f₃ : Feed := { f₂ with pc := .boundary }
  let f₄ : Feed := { f₃.emitBoundary opts with pc := .drain }
  have entered : f.next opts false .nextFile .ready = some f₁ := by
    have small : (1 : ℤ) ≤ opts.smallFileThreshold := ht
    simp [Feed.next, hfile, CephFSBlockIterator.closeCurrentIter, hcur, CephFSBlockIterator.enter,
      manyFile, ht, small, split, f₁]
  have emits : f₃.it.emitted = true := by simp [CephFSBlockIterator.emitted, f₁, f₂, f₃, manyPath]
  have boundary : f₃.it.boundary = manyBoundary k := by
    simp [CephFSBlockIterator.boundary, manyBoundary, f₁, f₂, f₃, hid]
  have answered : f₁.answer = some (some (manyBlock k), f₂) := by
    simp [Feed.answer, CephFSBlockIterator.changeBlock, manyBlock, f₁, f₂, hid]
  have scanned : f₂.next opts false .scan .ready = some f₃ := by simp [Feed.next, f₁, f₂, f₃, hcur]
  by_cases room : f.room opts = true
  · have f₄_eq : f₄ = { f₃ with
        boundaryCh := f.boundaryCh.send (manyBoundary k), emitted := f.emitted ++ [manyBoundary k],
          pc := .drain } := by
      have room₃ : f₃.room opts = true := room
      simp only [f₄, Feed.emitBoundary, emits, room₃, boundary, if_true]
      rfl
    have drained : f₄.next opts false .drain .ready = some { f₄ with pc := .nextFile } := by
      simp [Feed.next, f₄_eq, f₁, f₂, f₃, hpend]
    refine ⟨f₁, f₂, f₃, f₄, { f₄ with pc := .nextFile }, entered, rfl, answered, rfl, scanned, rfl,
      rfl, rfl, drained, rfl, ?_, ?_, ?_, ?_⟩
    all_goals simp [f₄_eq, room, f₁, f₂, f₃, hcur, hid, hpend]
  · have full : f.room opts = false := by simpa using room
    have f₄_eq : f₄ = { f₃ with
        it := { f₃.it with pendingBoundaries := [manyBoundary k] }
        emitted := f.emitted ++ [manyBoundary k], pc := .drain } := by
      have room₃ : f₃.room opts = false := full
      simp only [f₄, Feed.emitBoundary, emits, room₃, boundary, if_true]
      simp [f₁, f₂, f₃, hpend]
    have drained : f₄.next opts false .drain .ready = some { f₄ with pc := .nextFile } := by
      have room₄ : f₄.room opts = false := by rw [f₄_eq]; exact full
      simp only [Feed.next, room₄]
      simp [f₄_eq]
    refine ⟨f₁, f₂, f₃, f₄, { f₄ with pc := .nextFile }, entered, rfl, answered, rfl, scanned, rfl,
      rfl, rfl, drained, rfl, ?_, ?_, ?_, ?_⟩
    all_goals simp [f₄_eq, room, f₁, f₂, f₃, hcur, hid]

theorem filesFrom_cons {k : ℕ} (hk : k < manyCount) :
    filesFrom k = manyFile k :: filesFrom (k + 1) := by
  have count : manyCount - k = manyCount - (k + 1) + 1 := by omega
  rw [filesFrom, count, List.range'_succ, List.map_cons]
  rfl

theorem absorb_own (w : SendWorker) (cc : ReadChunk) :
    ∀ e ∈ w.absorb snapConfig cc, (Action.worker 0 e : Action 8 8).own = true := by
  unfold SendWorker.absorb
  split
  · simp only [List.mem_cons, List.mem_replicate]
    rintro e (rfl | rfl | ⟨-, rfl⟩) <;> rfl
  · simp only [List.mem_singleton]
    rintro e rfl
    rfl

theorem Idle.block {p : State 8 8} (hp : Idle p) {k : ℕ} (hk : 16 ≤ k) (hk' : k < manyCount)
    (hf : p.feeder = .send (feederChunk (manyBlock k))) :
    ∃ p', Reach (restrict (fun _ a => a.own) (step snapConfig)) p p' ∧ p'.feeder = .next ∧
      Idle p' := by
  let c : Chunk := feederChunk (manyBlock k)
  let p₁ : State 8 8 := { p with
    feeder := .next, shared := { p.shared with chunkCh := p.shared.chunkCh.send c } }
  let p₂ : State 8 8 := { p₁ with
    shared := { p₁.shared with
      chunkCh := { p₁.shared.chunkCh with buf := [] }
      readCh := p.shared.readCh.send (zeroChunk c)
      win := { p.shared.win with inFlight := p.shared.win.inFlight + 1 }
      log := { p.shared.log with reads := p.shared.log.reads ++ [(c.reqID, [0])] } } }
  have fed : step snapConfig p (.feeder .ready) = some p₁ := by
    simp only [step, hf, feeder, hp.chunkCh, p₁]
    rfl
  have reading : Reach (restrict (fun _ a => a.own) (step snapConfig)) p₁ p₂ := by
    have inWindow : WindowSemaphore.inWindow p.shared.win.base p.shared.win.limit k = true := by
      rw [WindowSemaphore.inWindow_iff, hp.base, hp.limit]
      exact ⟨hk, by simp only [manyCount] at hk'; omega⟩
    have fits : p.shared.mem.cur + acquireSize snapConfig c ≤ p.shared.mem.capacity := by
      rw [show acquireSize snapConfig c = 1 from rfl, hp.cur, hp.capacity]
      decide
    have read := @readerAlone_readZeros 8 snapConfig p₁.readDone 0 p₁.shared c
      (by simp [p₁, Chan.send, hp.chunkCh]) rfl hp.waiters fits inWindow
      (by simp only [p₁, hp.readCh]; decide)
    rw [← show p₁.readers 0 = .recv from hp.reader] at read
    have reached := reach_readerAlone read
    rwa [Function.update_eq_self] at reached
  obtain ⟨w, log, absorbed, ready, -, -⟩ := @workerAlone_absorb 8 snapConfig p₂.sendDone
    (p₂.workers 0)
    p₂.shared (zeroChunk c) hp.worker (by simp [p₂, Chan.send, hp.readCh]) rfl
  have sending := reach_workerAlone (absorb_own (p₂.workers 0) (zeroChunk c)) absorbed
  refine ⟨_, .head (restrict_eq_some.mpr ⟨rfl, fed⟩) (reading.trans sending), rfl, ?_⟩
  exact ⟨hp.reader, rfl, rfl, hp.capacity, hp.cur, hp.waiters, hp.base,
    hp.limit, by simpa using ready⟩

theorem Snapdiff.next_reach {s : Snapdiff 8 8} {f : Feed} {pc : NextPC} (hf : s.pipe.feeder = .next)
    (hctx : s.ctxDone = false) (hpc : s.feed.pc = pc)
    (hn : s.feed.next (iterOptions snapConfig newIter) false pc .ready = some f) :
    Reach (snapStep snapConfig newIter) s { s with feed := f } := by
  refine .single (a := .next .ready) ?_
  simp only [snapStep, hf, if_true, hctx, hpc, hn, Option.map_some]

theorem Pumped.file {k : ℕ} {s : Snapdiff 8 8} (hs : Pumped k s) (hk : 16 ≤ k) (hk' : k < manyCount)
    (hpend : s.feed.it.pendingBoundaries = []) :
    ∃ s', Reach (snapStep snapConfig newIter) s s' ∧ Pumped (k + 1) s' ∧ s'.drainer = s.drainer ∧
      if s.feed.boundaryCh.buf.length < 1024 then
        s'.feed.boundaryCh = s.feed.boundaryCh.send (manyBoundary k) ∧
          s'.feed.it.pendingBoundaries = []
      else
        s'.feed.boundaryCh = s.feed.boundaryCh ∧
          s'.feed.it.pendingBoundaries = [manyBoundary k] := by
  let s₀ : Snapdiff 8 8 := { s with
    largeCh := filesFrom (k + 1), feed := { s.feed with fileCh := ⟨[manyFile k], false⟩ } }
  have forwarded : snapStep snapConfig newIter s (.proxy .ready) = some s₀ := by
    simp [snapStep, Snapdiff.proxy, hs.fileCh, hs.largeCh, filesFrom_cons hk', proxyCap,
      Chan.send, s₀]
  obtain ⟨f₁, f₂, f₃, f₄, f₅, h₁, pc₁, ha, pc₂, h₃, pc₃, h₄, pc₄, h₅, pc₅, cur₅, id₅, file₅,
    boundary₅⟩ :=
    @feed_file (iterOptions snapConfig newIter)
      (show (0 : ℤ) < snapConfig.dataBatchMaxBytes by decide)
      s₀.feed k hs.curIter hs.reqID rfl hpend
  have entered := @Snapdiff.next_reach newIter s₀ f₁ _ hs.feeder hs.ctx hs.pc h₁
  let p₁ : State 8 8 := { s.pipe with
    feeder := .send (feederChunk (manyBlock k))
    shared := { s.pipe.shared with
      log := { s.pipe.shared.log with fed := s.pipe.shared.log.fed ++ [manyBlock k] } } }
  have answered :
      snapStep snapConfig newIter { s₀ with feed := f₁ } (.pipe (.iterNext (some (manyBlock k)))) =
        some { s₀ with feed := f₂, pipe := p₁ } := by
    simp only [snapStep, Snapdiff.pipeStep, ha, step, hs.feeder, s₀, iterNext, if_true,
      Option.map_some, p₁]
  have idle₁ : Idle p₁ := hs.idle.of_eq rfl rfl rfl
  obtain ⟨p₂, carried, feeder₂, idle₂⟩ := idle₁.block hk hk' rfl
  have lifted := @Snapdiff.lift 8 8 snapConfig newIter { s₀ with feed := f₂, pipe := p₁ } p₂ carried
  have scanned := @Snapdiff.next_reach newIter { s₀ with feed := f₂, pipe := p₂ } f₃ _ feeder₂
    hs.ctx pc₂ h₃
  have emitted := @Snapdiff.next_reach newIter { s₀ with feed := f₃, pipe := p₂ } f₄ _ feeder₂
    hs.ctx pc₃ h₄
  have drained := @Snapdiff.next_reach newIter { s₀ with feed := f₄, pipe := p₂ } f₅ _ feeder₂
    hs.ctx pc₄ h₅
  refine ⟨{ s₀ with feed := f₅, pipe := p₂ }, ?_,
    ⟨feeder₂, pc₅, cur₅, id₅, file₅, rfl, idle₂, hs.closer, hs.ctx⟩, rfl, ?_⟩
  · exact (Reach.head forwarded entered).trans ((Reach.head answered lifted).trans
      (scanned.trans (emitted.trans drained)))
  · have cap : (iterOptions snapConfig newIter).boundaryCap = 1024 := rfl
    simpa [Feed.room, cap, s₀] using boundary₅

theorem Snapdiff.drain_reach {s : Snapdiff 8 8} {d : CommitDrainer} {ch : Chan FileBoundary}
    {e : DrainEvent}
    {pc : DrainerPC} (hpc : s.drainer.pc = pc)
    (h : s.drainer.run 1024 s.gctxDone s.feed.boundaryCh s.pipe.shared.win pc e =
      some (d, ch, s.pipe.shared.win)) (hd : Snapdiff.exitErr d.pc = none) :
    Reach (snapStep snapConfig newIter) s
      { s with drainer := d, feed := { s.feed with boundaryCh := ch } } := by
  refine .single (a := .drainer e) ?_
  have window : snapConfig.maxWindow.toNat = 1024 := rfl
  simp only [snapStep, Snapdiff.drain, hpc, window, h, Option.map_some, hd, Snapdiff.leaveGroup]

def boundariesTo (k : ℕ) : List FileBoundary := (List.range k).map manyBoundary

theorem boundariesTo_succ (k : ℕ) : boundariesTo (k + 1) = boundariesTo k ++ [manyBoundary k] := by
  simp [boundariesTo, List.range_succ]

/-- The drainer has received the boundaries of the first `k` files and found none to commit. -/
structure Draining (k : ℕ) (s : Snapdiff 8 8) : Prop where
  pumped : Pumped k s
  boundaryCh : s.feed.boundaryCh.buf = []
  unsent : s.feed.it.pendingBoundaries = []
  pc : s.drainer.pc = .recv
  batch : s.drainer.batch = []
  pending : s.drainer.pending = boundariesTo k

theorem boundariesTo_cons (k : ℕ) :
    ∃ rest, boundariesTo (k + 2) = manyBoundary 0 :: manyBoundary 1 :: rest :=
  ⟨(List.range k).map fun i => manyBoundary (i + 2), by simp [boundariesTo, List.range_succ_eq_map]⟩

theorem Draining.receive {k : ℕ} {s : Snapdiff 8 8} (hs : Draining k s) (hk : 16 ≤ k)
    (hk' : k < manyCount) :
    ∃ s', Reach (snapStep snapConfig newIter) s s' ∧ Pumped (k + 1) s' ∧
      s'.feed.boundaryCh.buf = [] ∧ s'.feed.it.pendingBoundaries = [] ∧
      s'.drainer.pc = .loop .drainQualified ∧ s'.drainer.batch = [] ∧
      s'.drainer.pending = boundariesTo (k + 1) ∧ s'.drainer.currentReqID = k := by
  obtain ⟨s₁, reached, pumped, drainer, boundary⟩ := @Pumped.file newIter k s hs.pumped hk hk'
    hs.unsent
  rw [hs.boundaryCh, if_pos (by decide)] at boundary
  obtain ⟨hch, hunsent⟩ := boundary
  have buf : s₁.feed.boundaryCh.buf = [manyBoundary k] := by simp [hch, Chan.send, hs.boundaryCh]
  have received := @Snapdiff.drain_reach newIter s₁ (s₁.drainer.receive (manyBoundary k))
    { s₁.feed.boundaryCh with buf := [] } (.select .ready) .recv (drainer ▸ hs.pc)
    (by simp only [CommitDrainer.run, buf]) rfl
  refine ⟨_, reached.trans received,
    pumped.drain _ _, rfl, hunsent, rfl, ?_, ?_, rfl⟩
  · simp only [CommitDrainer.receive, drainer, hs.batch]
  · simp only [CommitDrainer.receive, drainer, hs.pending, boundariesTo_succ]

theorem Draining.next {k : ℕ} {s : Snapdiff 8 8} (hs : Draining k s) (hk : 16 ≤ k)
    (hk' : k < 1026) :
    ∃ s', Reach (snapStep snapConfig newIter) s s' ∧ Draining (k + 1) s' := by
  obtain ⟨s₁, reached, pumped, buf, unsent, pc, batch, pending, current⟩ :=
    @Draining.receive newIter k s hs hk (by simp only [manyCount]; omega)
  have waits :
      s₁.drainer.turn 1024 s₁.pipe.shared.win.isReleased .drainQualified s₁.drainer.pending =
      { s₁.drainer with pc := .recv } := by
    obtain ⟨rest, cons⟩ := boundariesTo_cons (k - 1)
    have far : k < (manyBoundary 0).lastReqID + 1024 + 2 := by simp only [manyBoundary]; omega
    rw [pending, show k + 1 = k - 1 + 2 by omega, cons]
    simp [CommitDrainer.turn, CommitDrainer.qualified, current, far,
      CommitDrainer.finish, batch, CommitDrainer.leave]
  have left := @Snapdiff.drain_reach newIter s₁ { s₁.drainer with pc := .recv } s₁.feed.boundaryCh
    (.select .ready) _ pc (by simp only [CommitDrainer.run, waits]) rfl
  refine ⟨_, reached.trans left,
    ⟨pumped.drain _ _, buf, unsent, rfl, batch, pending⟩⟩

theorem Draining.upto {k : ℕ} {s : Snapdiff 8 8} (hs : Draining 17 s) (hk : 17 ≤ k)
    (hk' : k ≤ 1026) :
    ∃ s', Reach (snapStep snapConfig newIter) s s' ∧ Draining k s' := by
  induction k, hk using Nat.le_induction with
  | base => exact ⟨s, .refl, hs⟩
  | succ k hk ih =>
    obtain ⟨s₁, reached, hs₁⟩ := ih (by omega)
    obtain ⟨s₂, step, hs₂⟩ := @Draining.next newIter k s₁ hs₁ (by omega) (by omega)
    exact ⟨s₂, reached.trans step, hs₂⟩

/-- The drainer waits for the answer to its first commit request; `n` boundaries fill the
channel behind it. -/
structure Waiting (n : ℕ) (s : Snapdiff 8 8) : Prop where
  pumped : Pumped (1027 + n) s
  boundaryCh : s.feed.boundaryCh.buf.length = n
  unsent : s.feed.it.pendingBoundaries = []
  pc : s.drainer.pc = .recvAck .drainQualified false

theorem Draining.commit {s : Snapdiff 8 8} (hs : Draining 1026 s) :
    ∃ s', Reach (snapStep snapConfig newIter) s s' ∧ Waiting 0 s' := by
  -- with the boundary of file `1026` the first file qualifies and its commit is sent
  obtain ⟨s₁, reached, pumped, buf, unsent, pc, batch, pending, current⟩ :=
    @Draining.receive newIter 1026 s hs (by decide) (by decide)
  obtain ⟨rest, cons⟩ := boundariesTo_cons 1025
  let d₁ : CommitDrainer := s₁.drainer.take .drainQualified (manyBoundary 0)
    (manyBoundary 1 :: rest)
  have takes : s₁.drainer.turn 1024 s₁.pipe.shared.win.isReleased .drainQualified
      s₁.drainer.pending = d₁ := by
    rw [pending, cons]
    simp [CommitDrainer.turn, CommitDrainer.qualified, current, manyBoundary,
      WindowSemaphore.isReleased, pumped.idle.base, d₁]
  have pc₁ : d₁.pc = .loop .drainQualified := by
    simp [d₁, CommitDrainer.take, batch, commitBatchSize]
  have stops : d₁.turn 1024 s₁.pipe.shared.win.isReleased .drainQualified d₁.pending =
      { d₁ with pc := .send .drainQualified false } := by
    have early : d₁.qualified 1024 s₁.pipe.shared.win.isReleased (manyBoundary 1) = false := by
      simp [CommitDrainer.qualified, manyBoundary, d₁, CommitDrainer.take, current]
    rw [show d₁.pending = manyBoundary 1 :: rest from rfl, CommitDrainer.turn, early,
      if_neg Bool.false_ne_true]
    simp [CommitDrainer.finish, d₁, CommitDrainer.take]
  have taken := @Snapdiff.drain_reach newIter s₁ d₁ s₁.feed.boundaryCh (.select .ready) _ pc
    (by simp only [CommitDrainer.run, takes]) (by rw [pc₁]; rfl)
  have stopped := @Snapdiff.drain_reach newIter { s₁ with drainer := d₁ }
    { d₁ with pc := .send .drainQualified false } s₁.feed.boundaryCh (.select .ready) _ pc₁
    (by simp only [CommitDrainer.run, stops]) rfl
  have sent := @Snapdiff.drain_reach newIter
    { s₁ with drainer := { d₁ with pc := .send .drainQualified false } }
    { d₁ with
      pc := .recvAck .drainQualified false, batch := [], requests := d₁.requests ++ [d₁.batch] }
    s₁.feed.boundaryCh (.rpc true) _ rfl rfl rfl
  refine ⟨_, reached.trans (taken.trans (stopped.trans sent)),
    ⟨pumped.drain _ _, congrArg List.length buf, unsent, rfl⟩⟩

theorem Waiting.next {n : ℕ} {s : Snapdiff 8 8} (hs : Waiting n s) (hn : n < 1024) :
    ∃ s', Reach (snapStep snapConfig newIter) s s' ∧ Waiting (n + 1) s' := by
  obtain ⟨s₁, reached, pumped, drainer, boundary⟩ := @Pumped.file newIter _ s hs.pumped (by omega)
    (by simp only [manyCount]; omega) hs.unsent
  rw [hs.boundaryCh, if_pos hn] at boundary
  exact ⟨s₁, reached, pumped, by simp [boundary.1, Chan.send, hs.boundaryCh], boundary.2,
    drainer ▸ hs.pc⟩

theorem Waiting.upto {n : ℕ} {s : Snapdiff 8 8} (hs : Waiting 0 s) (hn : n ≤ 1024) :
    ∃ s', Reach (snapStep snapConfig newIter) s s' ∧ Waiting n s' := by
  induction n with
  | zero => exact ⟨s, .refl, hs⟩
  | succ n ih =>
    obtain ⟨s₁, reached, hs₁⟩ := ih (by omega)
    obtain ⟨s₂, step, hs₂⟩ := @Waiting.next newIter n s₁ hs₁ (by omega)
    exact ⟨s₂, reached.trans step, hs₂⟩

/-- The drainer is gone, the pipeline has returned, and the goroutine behind it waits for room
in the full `boundaryCh`. -/
structure Hung (err : DrainErr) (s : Snapdiff R S) : Prop where
  drainer : s.drainer.pc = .exit (some err)
  returned : s.pipe.returned = true
  fileCh : s.feed.fileCh.closed = true
  ctx : s.ctxDone = false
  closer : ∃ fb todo, s.closer = .flush (fb :: todo)

theorem Hung.stuck {s : Snapdiff R S} {err : DrainErr} (hs : Hung err s) (hp : s.pipe.Coherent)
    (full : s.feed.room (iterOptions cfg newIter) = false) {a : SnapAction R S}
    (ha : a.own = true) :
    snapStep cfg newIter s a = none := by
  obtain ⟨⟨ferr, hf⟩, hsr, hss⟩ := hp.returned hs.returned
  have exitedReaders := (hp.stageRead hsr).1
  have exitedWorkers := (hp.stageSend hss).1
  obtain ⟨fb, todo, hc⟩ := hs.closer
  cases a with
  | cancel => cases ha
  | proxy b => cases b <;> simp [snapStep, Snapdiff.proxy, hs.fileCh]
  | next b => simp [snapStep, hf]
  | drainer e => simp [snapStep, Snapdiff.drain, hs.drainer, CommitDrainer.run]
  | closer b => cases b <;> simp [snapStep, hc, Snapdiff.close, full, hs.ctx]
  | pipe a =>
    cases a with
    | cancel | takeRelease => rfl
    | iterNext b =>
      have none : step cfg s.pipe (.iterNext b) = none := by cases b <;> simp [step, hf, iterNext]
      simp only [snapStep, Snapdiff.pipeStep, none, Option.map_none, ite_self]
      split <;> rfl
    | feeder b => cases b <;> simp [snapStep, Snapdiff.pipeStep, step, hf, feeder]
    | reader r e =>
      cases hr : s.pipe.readers r with
      | exit => simp [snapStep, Snapdiff.pipeStep, step, hr, readWorker]
      | _ => simpa [hr, ReaderPC.exited] using exitedReaders r
    | worker i e =>
      cases hw : (s.pipe.workers i).pc with
      | exit =>
        cases e <;> first
          | simp [SnapAction.own] at ha; done
          | simp [snapStep, Snapdiff.pipeStep, step, hw, sendWorker]
      | _ => simpa [hw, SendWorker.exited] using exitedWorkers i
    | stageRead => simp [snapStep, Snapdiff.pipeStep, step, hsr]
    | stageSend => simp [snapStep, Snapdiff.pipeStep, step, hss]
    | run => simp [snapStep, Snapdiff.pipeStep, step, hf, hs.returned]

theorem Pumped.recvFails {k : ℕ} {s : Snapdiff 8 8} (hs : Pumped k s)
    (pc : s.drainer.pc = .recvAck .drainQualified false) :
    ∃ s', Reach (snapStep snapConfig newIter) s s' ∧ Pumped k s' ∧ s'.feed = s.feed ∧
      s'.drainer.pc = .exit (some .recvCommitAck) ∧ s'.pipe.ctxDone = true := by
  have failed : snapStep snapConfig newIter s (.drainer (.rpc false)) =
      some { s with
        drainer := { s.drainer with pc := .exit (some .recvCommitAck) }
        groupErr := s.groupErr.or (some (.drainer .recvCommitAck))
        pipe := { s.pipe with ctxDone := true } } := by
    simp only [snapStep, Snapdiff.drain, pc]
    rfl
  have idle : Idle { s.pipe with ctxDone := true } := hs.idle.of_eq rfl rfl rfl
  exact ⟨_, .single failed, ⟨hs.feeder, hs.pc, hs.curIter, hs.reqID, hs.fileCh, hs.largeCh, idle,
    hs.closer, hs.ctx⟩, rfl, rfl, rfl⟩

theorem Pumped.hang {s : Snapdiff 8 8} {err : DrainErr} (hs : Pumped manyCount s)
    (full : s.feed.boundaryCh.buf.length = 1024) {fb : FileBoundary} {todo : List FileBoundary}
    (unsent : s.feed.it.pendingBoundaries = fb :: todo)
    (drainer : s.drainer.pc = .exit (some err)) (ctx : s.pipe.ctxDone = true) :
    ∃ s', Reach (snapStep snapConfig newIter) s s' ∧ Hung err s' ∧
      s'.feed.room (iterOptions snapConfig newIter) = false := by
  -- with no file left the pipeline returns, and `iter.Close` stops at the full channel
  let s₁ : Snapdiff 8 8 := { s with feed := { s.feed with fileCh := ⟨[], true⟩ } }
  have closed : snapStep snapConfig newIter s (.proxy .ready) = some s₁ := by
    have nil : s.largeCh = [] := hs.largeCh
    simp [snapStep, Snapdiff.proxy, hs.fileCh, nil, Chan.close, s₁]
  have exhausted := @Snapdiff.next_reach newIter s₁ s₁.feed.exhaust _ hs.feeder hs.ctx hs.pc rfl
  let s₂ : Snapdiff 8 8 := { s₁ with feed := s₁.feed.exhaust, pipe := s.pipe.exitFeeder none }
  have answered :
      snapStep snapConfig newIter { s₁ with feed := s₁.feed.exhaust } (.pipe (.iterNext none)) =
        some s₂ := by
    simp [snapStep, Snapdiff.pipeStep, Feed.answer, Feed.exhaust, step, hs.feeder, iterNext, s₁, s₂]
  obtain ⟨p, wound, returned⟩ := @winds_down 8 8 snapConfig s₂.pipe ctx
    (by simp [s₂, State.exitFeeder])
  have lifted := @Snapdiff.lift 8 8 snapConfig newIter s₂ p wound
  let f₃ : Feed := { s₂.feed with it := { s₂.feed.it with failed := p.runErr.isSome } }
  have closing : snapStep snapConfig newIter { s₂ with pipe := p } (.closer .ready) =
      some { s₂ with pipe := p, closer := .close, feed := f₃ } := by
    have running : s₂.closer = .running := hs.closer
    simp only [snapStep, running, Snapdiff.close, returned, if_true, f₃]
  have emitted : f₃.emitBoundary (iterOptions snapConfig newIter) = f₃ := by
    simp [Feed.emitBoundary, CephFSBlockIterator.emitted, f₃, s₂, s₁, Feed.exhaust]
  have flushing : snapStep snapConfig newIter
      { s₂ with pipe := p, closer := .close, feed := f₃ } (.closer .ready) =
      some { s₂ with pipe := p, closer := .flush f₃.it.pendingBoundaries, feed := f₃ } := by
    simp only [snapStep, Snapdiff.close, emitted, ite_self]
  have pending : f₃.it.pendingBoundaries = fb :: todo := by
    simp [f₃, s₂, s₁, Feed.exhaust, CephFSBlockIterator.closeCurrentIter, hs.curIter, unsent]
  refine ⟨_, (Reach.head closed exhausted).trans ((Reach.head answered lifted).trans
    (Reach.head closing (.single flushing))), 
    ⟨drainer, returned, rfl, hs.ctx, fb, todo, by rw [pending]⟩, ?_⟩
  have cap : (iterOptions snapConfig newIter).boundaryCap = 1024 := rfl
  simp [Feed.room, cap, f₃, s₂, s₁, Feed.exhaust, full]

theorem headSchedule_draining : ∃ s, Reach (snapStep snapConfig fun _ => none)
    (snapInit snapConfig 8 8 (manyFile 0) (filesFrom 1)) s ∧ Draining 17 s := by
  have run : (exec (snapStep snapConfig fun _ => none)
      (snapInit snapConfig 8 8 (manyFile 0) (filesFrom 1)) headSchedule).any (fun s =>
        ((s.pipe.feeder = .next ∧ s.feed.pc = .nextFile ∧ s.feed.it.curIter.isNone ∧
          s.feed.it.reqID = 17 ∧ s.feed.fileCh = ⟨[], false⟩ ∧ s.largeCh = filesFrom 17 ∧
          s.closer = .running ∧ s.ctxDone = false) ∧
        (s.pipe.readers 0 = .recv ∧ s.pipe.shared.chunkCh.buf = [] ∧ s.pipe.shared.readCh.buf = [] ∧
          s.pipe.shared.mem.capacity = snapConfig.maxRawMemoryBytes ∧ s.pipe.shared.mem.cur = 0 ∧
          s.pipe.shared.mem.waiters.length = 0 ∧ s.pipe.shared.win.base = 16 ∧
          s.pipe.shared.win.limit = 2048) ∧
        ((s.pipe.workers 0).pc = .running ∧ (s.pipe.workers 0).sender = .recv ∧
          ∀ e ∈ (s.pipe.workers 0).batch.entries, e.2.hasMem = false) ∧
        (s.feed.boundaryCh.buf = [] ∧ s.feed.it.pendingBoundaries = [] ∧ s.drainer.pc = .recv ∧
          s.drainer.batch = [] ∧ s.drainer.pending = boundariesTo 17) : Bool)) = true := by
    decide +kernel
  obtain ⟨s, reached, facts⟩ := Reach.of_exec_any run
  simp only [Option.isNone_iff_eq_none, List.length_eq_zero_iff, decide_eq_true_eq] at facts
  obtain ⟨⟨feeder, pc, curIter, reqID, fileCh, largeCh, closer, ctx⟩,
    ⟨reader, chunkCh, readCh, capacity, cur, waiters, base, limit⟩, ⟨running, recv, free⟩,
    boundaryCh, unsent, drainer, batch, pending⟩ := facts
  have idle : Idle s.pipe :=
    ⟨reader, chunkCh, readCh, capacity, cur, waiters, base, limit, ⟨running, recv, free⟩⟩
  exact ⟨s, reached, ⟨feeder, pc, curIter, reqID, fileCh, largeCh, idle, closer, ctx⟩, boundaryCh,
    unsent, drainer, batch, pending⟩

theorem reach_waiting : ∃ s, Reach (snapStep snapConfig fun _ => none)
    (snapInit snapConfig 8 8 (manyFile 0) (filesFrom 1)) s ∧ Waiting 0 s := by
  obtain ⟨s₁, h₁, start⟩ := headSchedule_draining
  obtain ⟨s₂, h₂, draining⟩ := start.upto (k := 1026) (by decide) (by decide)
  obtain ⟨s, h₃, waiting⟩ := draining.commit
  exact ⟨s, h₁.trans (h₂.trans h₃), waiting⟩

theorem failed_commit_progress_manyFiles : ∃ s, Reach (snapStep snapConfig fun _ => none)
    (snapInit snapConfig 8 8 (manyFile 0) (filesFrom 1)) s ∧
      s.drainer.pc = .exit (some .recvCommitAck) ∧ s.ctxDone = false ∧
      ∃ a s', a.own = true ∧ snapStep snapConfig (fun _ => none) s a = some s' := by
  obtain ⟨s₁, h₁, waiting⟩ := reach_waiting
  obtain ⟨s, h₂, pumped, feed, drainer, -⟩ := waiting.pumped.recvFails waiting.pc
  have fits : s.backlog ≤ snapConfig.maxWindow.toNat := by
    simp [Snapdiff.backlog, Snapdiff.unsent, pumped.closer, feed, waiting.boundaryCh,
      waiting.unsent]
  have running : ¬ s.Returned := by simp [Snapdiff.Returned, pumped.closer]
  exact ⟨s, h₁.trans h₂, drainer, pumped.ctx,
    failed_commit_progress _ _ _ s (h₁.trans h₂) _ drainer fits running⟩

/-- With `2052` changed files the answer to the first commit request can fail when
`boundaryCh` is full and the iterator holds one more boundary: the pipeline returns, and
`iter.Close` waits for a receiver that is gone. -/
theorem failed_commit_hangs : ∃ s, Reach (snapStep snapConfig fun _ => none)
    (snapInit snapConfig 8 8 (manyFile 0) (filesFrom 1)) s ∧
      s.drainer.pc = .exit (some .recvCommitAck) ∧ s.ctxDone = false ∧ ¬ s.Returned ∧
      ∀ a, a.own = true → snapStep snapConfig (fun _ => none) s a = none := by
  obtain ⟨s₁, h₁, start⟩ := reach_waiting
  obtain ⟨s₂, h₂, waiting⟩ := start.upto (n := 1024) (by decide)
  obtain ⟨s₃, h₃, last, drainer₃, boundary⟩ := waiting.pumped.file (by decide) (by decide)
    waiting.unsent
  rw [waiting.boundaryCh, if_neg (by decide)] at boundary
  obtain ⟨s₄, h₄, pumped, feed, drainer, ctx⟩ := last.recvFails (drainer₃ ▸ waiting.pc)
  have full : s₄.feed.boundaryCh.buf.length = 1024 := by rw [feed, boundary.1, waiting.boundaryCh]
  obtain ⟨s, h₅, hung, noRoom⟩ := pumped.hang full (feed ▸ boundary.2) drainer ctx
  have reached := h₁.trans (h₂.trans (h₃.trans (h₄.trans h₅)))
  have coherent := reach_coherent (snap_reach reached)
  refine ⟨s, reached, hung.drainer, hung.ctx, ?_, fun a ha => hung.stuck coherent noRoom ha⟩
  rintro ⟨exited, -⟩
  obtain ⟨fb, todo, flushing⟩ := hung.closer
  exact absurd (exited.symm.trans flushing) (by simp)

end CephVolsync.CephFs
