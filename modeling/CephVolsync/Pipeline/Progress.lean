import CephVolsync.Pipeline.Custody

/-! Progress of the pipeline when nothing fails: the iterator, the reader, the streams and
the destination do what is asked of them and nobody cancels. A sender keeps the window
slots and the memory of its batch until another chunk arrives, so the pipeline goes on as
long as the window takes all blocks and the batches cannot hold all memory, and may
deadlock otherwise. -/

namespace CephVolsync.Pipeline

open Function TransitionSystem IndexedFamily WaitQueue

variable {R S : ℕ} {cfg : Config} {blocks : List ChangeBlock}

def WorkerEvent.obliging : WorkerEvent → Bool
  | .open ok | .send ok => ok
  | .recvErr | .handlerFail => false
  | _ => true

/-- Nothing fails: the iterator returns `blocks`, every read succeeds, every stream opens and
takes its requests, the destination acknowledges them, and nobody cancels. -/
def obliging (blocks : List ChangeBlock) (s : State R S) : Action R S → Bool
  | .cancel => false
  | .iterNext b => b = blocks[s.log.fed.length]?
  | .reader _ e => e ≠ .data none
  | .worker _ e => e.obliging
  | _ => true

def Batch.loaded (b : Batch) : ℕ := b.entries.countP (·.2.hasMem)

/-- The most data chunks that a batch holds while its sender waits. -/
def Config.batchHold (c : Config) : ℕ :=
  max 1 (min c.dataBatchMaxCount.toNat (c.dataBatchMaxBytes - 1).toNat)

structure Batch.Bounded (cfg : Config) (b : Batch) : Prop where
  accum : b.accum = (b.entries.map (·.1.data.length)).sum
  limit : b.entries.length ≤ 1 ∨
    ((b.accum : ℤ) < cfg.dataBatchMaxBytes ∧ (b.entries.length : ℤ) ≤ cfg.dataBatchMaxCount)

theorem Delivers.loaded_le {log : Log} {rc : ReadChunk} (h : Delivers cfg log rc) :
    (if rc.held.hasMem then 1 else 0) ≤ rc.data.length := by
  cases h with
  | marked | zeros => simp [zeroChunk, feederChunk]
  | @data b bytes hb hz hr ha =>
    have ne : bytes ≠ [] := by
      rintro rfl
      simp [isAllZero] at ha
    have pos : 1 ≤ bytes.length := List.length_pos_iff.mpr ne
    simpa [dataChunk] using pos

theorem countP_hasMem_le {log : Log} {entries : List (ChangedBlock × Held)}
    (h : ∀ e ∈ entries, EntryOf cfg log e) :
    entries.countP (·.2.hasMem) ≤ (entries.map (·.1.data.length)).sum := by
  induction entries with
  | nil => exact le_rfl
  | cons e rest ih =>
    obtain ⟨rc, delivers, rfl⟩ := h e List.mem_cons_self
    have head : (if rc.held.hasMem then 1 else 0) ≤ (changedBlock rc).data.length :=
      delivers.loaded_le
    have tail := ih fun f hf => h f (List.mem_cons_of_mem _ hf)
    rw [List.countP_cons, List.map_cons, List.sum_cons, add_comm]
    exact add_le_add head tail

theorem Batch.Bounded.loaded_le {log : Log} {b : Batch} (h : b.Bounded cfg)
    (entries : ∀ e ∈ b.entries, EntryOf cfg log e) : b.loaded ≤ cfg.batchHold := by
  have count : b.loaded ≤ b.entries.length := List.countP_le_length
  have bytes : b.loaded ≤ b.accum := h.accum ▸ countP_hasMem_le entries
  unfold Config.batchHold
  rcases h.limit with one | ⟨accum, length⟩
  · omega
  · omega

theorem Batch.Bounded.append {b : Batch} {cc : ReadChunk} (h : b.Bounded cfg)
    (ho : b.overflows cfg cc = false) : (b.append cc).Bounded cfg := by
  refine ⟨by simp [Batch.append, h.accum, changedBlock], ?_⟩
  simp only [Batch.overflows, decide_eq_false_iff_not, not_and, not_or] at ho
  by_cases empty : b.entries.length = 0
  · left
    simp [Batch.append, empty]
  · obtain ⟨bytes, count⟩ := ho (by omega)
    right
    simp only [Batch.append, List.length_append, List.length_singleton]
    omega

theorem Batch.Bounded.empty : Batch.empty.Bounded cfg := ⟨rfl, .inl (by simp [Batch.empty])⟩

structure SendWorker.Healthy (cfg : Config) (w : SendWorker) : Prop where
  group : w.groupErr = none
  pc : ∀ err, w.pc ≠ .exit (some err)
  abort : ∀ todo err, w.sender ≠ .abort todo err
  sender : ∀ err, w.sender ≠ .exit (some err)
  closed : w.sender = .exit none → w.stream.closeSend = true
  ack : ∀ err, w.ack ≠ .exit (some err)
  handler : w.stream.handler ≠ .ended false
  batch : w.sender = .recv → w.batch.Bounded cfg

def MemSemaphore.Fronted {γ : Type} (m : MemSemaphore γ) : Prop :=
  ∀ w ∈ m.waiters.head?, m.capacity < m.cur + w.key

structure State.Healthy (cfg : Config) (s : State R S) : Prop where
  ctx : s.ctxDone = false
  runErr : s.runErr = none
  readErr : s.readErr = none
  sendErr : s.sendErr = none
  feeder : ∀ err, s.feeder ≠ .exit (some err)
  readers : ∀ r, (s.readers r).tainted = false
  workers : ∀ i, (s.workers i).Healthy cfg
  front : s.shared.mem.Fronted
  limit : s.shared.win.limit = 2 * cfg.maxWindow.toNat

theorem MemSemaphore.fits_none {capacity cur n : ℤ} (h : fits capacity cur n = none) :
    capacity < cur + n := by
  by_contra room
  rw [MemSemaphore.fits, if_neg room] at h
  simp at h

theorem MemSemaphore.fronted_release {γ : Type} (m : MemSemaphore γ) (n : ℤ) :
    (m.release n).Fronted := by
  intro w hw
  obtain ⟨rest, hrest⟩ := List.head?_eq_some_iff.mp hw
  exact fits_none (wake_head (MemSemaphore.fits m.capacity) (m.cur - n) m.waiters hrest)

theorem WindowSemaphore.release_limit {γ : Type} (w : WindowSemaphore γ) (id : ℕ) :
    (w.release id).limit = w.limit := by
  unfold WindowSemaphore.release
  split <;> rfl

theorem afterWin_tainted (c : Chunk) :
    (afterWin c).tainted = false ∧ (afterWin c).exitErr = none := by
  unfold afterWin
  split <;> exact ⟨rfl, rfl⟩

structure ReaderStep.Sound (pc' : ReaderPC) (sh sh' : Shared R) : Prop where
  tainted : pc'.tainted = false
  exitErr : pc'.exitErr = none
  front : sh'.mem.Fronted
  limit : sh'.win.limit = sh.win.limit

theorem ReaderStep.sound {r : Fin R} {pc pc' : ReaderPC} {sh sh' : Shared R} {re : ReaderEvent}
    (h : ReaderStep cfg false r pc sh re pc' sh') (he : re ≠ .data none)
    (hp : pc.tainted = false) (hf : sh.mem.Fronted) : ReaderStep.Sound pc' sh sh' := by
  cases h with
  | recvDone hd | memGiveUp hd | winGiveUp hd | emitDone hd => cases hd
  | readFail => exact absurd rfl he
  | relMem | relWin | relExit => simp [ReaderPC.tainted] at hp
  | memTake hg =>
    obtain ⟨empty, eq⟩ := MemSemaphore.acquire_granted hg
    refine ⟨rfl, rfl, ?_, rfl⟩
    simp only [eq]
    simp [MemSemaphore.Fronted, empty]
  | memQueue hq =>
    obtain ⟨full, eq⟩ := MemSemaphore.acquire_queued hq
    refine ⟨rfl, rfl, ?_, rfl⟩
    simp only [eq]
    intro w hw
    rw [List.head?_append, Option.mem_def, Option.or_eq_some_iff] at hw
    rcases hw with hw | ⟨empty, hw⟩
    · exact hf w hw
    · cases hw
      exact full (List.head?_eq_none_iff.mp empty)
  | winTake =>
    exact ⟨(afterWin_tainted _).1, (afterWin_tainted _).2, hf, WindowSemaphore.acquire_frame.2⟩
  | winQueue => exact ⟨rfl, rfl, hf, WindowSemaphore.acquire_frame.2⟩
  | winWoken => exact ⟨(afterWin_tainted _).1, (afterWin_tainted _).2, hf, rfl⟩
  | freeMem => exact ⟨rfl, rfl, MemSemaphore.fronted_release _ _, rfl⟩
  | _ => exact ⟨rfl, rfl, hf, rfl⟩

structure WorkerStep.Sound (cfg : Config) (w' : SendWorker) (sh sh' : Shared R) : Prop where
  healthy : w'.Healthy cfg
  exitErr : w'.exitErr = none
  front : sh'.mem.Fronted
  limit : sh'.win.limit = sh.win.limit

theorem WorkerStep.sound {w w' : SendWorker} {sh sh' : Shared R} {we : WorkerEvent}
    (h : WorkerStep cfg false w sh we w' sh') (he : we.obliging = true) (hw : w.Healthy cfg)
    (hf : sh.mem.Fronted) : WorkerStep.Sound cfg w' sh sh' := by
  have calm : w.exitErr = none := by
    unfold SendWorker.exitErr
    split
    · rename_i err hp
      cases err with
      | none => rfl
      | some e => exact absurd hp (hw.pc e)
    · rfl
  obtain ⟨group, pc, abort, sender, closed, ack, handler, batch⟩ := hw
  cases h with
  | opened hp =>
    exact ⟨⟨group, by simp, abort, sender, closed, ack, handler, batch⟩, rfl, hf, rfl⟩
  | openFail | sendFail | handlerFail | handlerLose => simp [WorkerEvent.obliging] at he
  | take hp hr hb ho =>
    have bounded := (batch hr).append ho
    exact ⟨⟨group, pc, abort, sender, closed, ack, handler, fun _ => bounded⟩, calm, hf, rfl⟩
  | overflow hp | closeFlush hp =>
    exact ⟨⟨group, pc, by simp, by simp, by simp, ack, handler, by simp⟩, calm, hf, rfl⟩
  | closeEmpty hp =>
    exact ⟨⟨by simp [SendWorker.exitSender, group], pc, by simp [SendWorker.exitSender],
      by simp [SendWorker.exitSender], fun _ => rfl, ack, handler, by simp [SendWorker.exitSender]⟩,
      calm, hf, rfl⟩
  | senderDone hp hr hd | ackDone hp hr hd => simp [group] at hd
  | @free hd todo next hp =>
    refine ⟨⟨group, pc, by simp, by simp, by simp, ack, handler, by simp⟩, calm, ?_, ?_⟩
    · split
      · exact MemSemaphore.fronted_release _ _
      · exact hf
    · split <;> rfl
  | @refill cc hp hr =>
    have bounded : (Batch.empty.append cc).Bounded cfg :=
      Batch.Bounded.empty.append (by simp [Batch.overflows, Batch.empty])
    exact ⟨⟨group, pc, by simp, by simp, by simp, ack, handler, fun _ => bounded⟩, calm, hf, rfl⟩
  | finish hp =>
    exact ⟨⟨by simp [SendWorker.exitSender, group], pc, by simp [SendWorker.exitSender],
      by simp [SendWorker.exitSender], fun _ => rfl, ack, handler, by simp [SendWorker.exitSender]⟩,
      calm, hf, rfl⟩
  | abortMem hp hr | abortWin hp hr | abortSkip hp hr | abortExit hp hr =>
      exact absurd hr (abort _ _)
  | sendOk hp hr =>
    exact ⟨⟨group, pc, by simp [sendBatch], by simp [sendBatch], by simp [sendBatch], ack, handler,
      by simp [sendBatch]⟩, calm, hf, rfl⟩
  | ackTake hp | ackLoop hp =>
    exact ⟨⟨group, pc, abort, sender, closed, by simp, handler, batch⟩, calm, hf, rfl⟩
  | ackRelease hp =>
    exact ⟨⟨group, pc, abort, sender, closed, by simp, handler, batch⟩, calm, hf,
      WindowSemaphore.release_limit _ _⟩
  | ackEof hp =>
    exact ⟨⟨by simp [SendWorker.exitAck, group], pc, abort, sender, closed,
      by simp [SendWorker.exitAck], handler, batch⟩, calm, hf, rfl⟩
  | ackFail hp ha hfail =>
    rcases hfail with rfl | ⟨-, -, ended⟩
    · simp [WorkerEvent.obliging] at he
    · exact absurd ended handler
  | ret =>
    exact ⟨⟨group, by simp [group], abort, sender, closed, ack, handler, batch⟩,
      by simp [SendWorker.exitErr, group], hf, rfl⟩
  | handlerTake | handlerWrite | handlerAck | handlerEof =>
    exact ⟨⟨group, pc, abort, sender, closed, ack, by simp, batch⟩, calm, hf, rfl⟩

theorem PipelineStep.healthy {s s' : State R S} {a : Action R S} (h : PipelineStep cfg s a s')
    (ha : obliging blocks s a = true) (hs : s.Healthy cfg) : s'.Healthy cfg := by
  have read : s.readDone = false := by
    simp [State.readDone, State.runDone, hs.ctx, hs.runErr, hs.readErr]
  have send : s.sendDone = false := by
    simp [State.sendDone, State.runDone, hs.ctx, hs.runErr, hs.sendErr]
  cases h with
  | cancel => simp [obliging] at ha
  | next | feed =>
    exact ⟨hs.ctx, hs.runErr, hs.readErr, hs.sendErr, by simp, hs.readers, hs.workers, hs.front,
      hs.limit⟩
  | nextEnd =>
    exact ⟨hs.ctx, by simp [State.exitFeeder, hs.runErr], hs.readErr, hs.sendErr,
      by simp [State.exitFeeder], hs.readers, hs.workers, hs.front, hs.limit⟩
  | feedDone hf hd => simp [State.runDone, hs.ctx, hs.runErr] at hd
  | @reader r e pc sh hr =>
    rw [read] at hr
    have sound := hr.sound (by simpa [obliging] using ha) (hs.readers r) hs.front
    exact ⟨hs.ctx, hs.runErr, by simp [hs.readErr, sound.exitErr], hs.sendErr, hs.feeder,
      forall_update (P := fun _ pc => ReaderPC.tainted pc = false) sound.tainted
        fun j _ => hs.readers j,
      hs.workers, sound.front, sound.limit.trans hs.limit⟩
  | @worker i e w sh hw =>
    rw [send] at hw
    have sound := hw.sound ha (hs.workers i) hs.front
    exact ⟨hs.ctx, hs.runErr, hs.readErr, by simp [hs.sendErr, sound.exitErr], hs.feeder,
      hs.readers, forall_update (P := fun _ w => SendWorker.Healthy cfg w) sound.healthy fun j _ =>
      hs.workers j, sound.front, sound.limit.trans hs.limit⟩
  | stageRead =>
    exact ⟨hs.ctx, by simp [hs.runErr, hs.readErr], hs.readErr, hs.sendErr, hs.feeder, hs.readers,
      hs.workers, hs.front, hs.limit⟩
  | stageSend =>
    exact ⟨hs.ctx, by simp [hs.runErr, hs.sendErr], hs.readErr, hs.sendErr, hs.feeder, hs.readers,
      hs.workers, hs.front, hs.limit⟩
  | run | takeRelease =>
    exact ⟨hs.ctx, hs.runErr, hs.readErr, hs.sendErr, hs.feeder, hs.readers, hs.workers, hs.front,
      hs.limit⟩

section Kept

def need (cfg : Config) (blocks : List ChangeBlock) (id : ℕ) : ℤ :=
  match blocks[id]? with
  | some b => if b.isZero then 0 else acquireSize cfg (feederChunk b)
  | none => 0

def Log.FullReads (cfg : Config) (blocks : List ChangeBlock) (log : Log) : Prop :=
  ∀ p ∈ log.reads, (p.2.length : ℤ) = need cfg blocks p.1

/-- The most memory that the batch of a waiting sender keeps when all reads are full. -/
def Config.batchMemory (c : Config) : ℤ := max c.chunkSize (c.dataBatchMaxBytes - 1)

/-- Blocks that can lie in the batches of waiting senders at one time. -/
structure Config.Keeps (c : Config) (blocks : List ChangeBlock) (full : Bool) (kept : Finset ℕ) :
    Prop where
  count : kept.card ≤ c.dataSendWorkers.toNat * c.batchHold
  fits : ∑ id ∈ kept, need c blocks id ≤ c.maxRawMemoryBytes
  bytes : full = true →
    ∑ id ∈ kept, need c blocks id ≤ (c.dataSendWorkers.toNat : ℤ) * c.batchMemory

/-- The window takes all blocks, and whatever the batches keep, memory is left for any other
block. -/
structure Config.Roomy (c : Config) (blocks : List ChangeBlock) (full : Bool) : Prop where
  window : blocks.length ≤ 2 * c.maxWindow.toNat
  memory : ∀ kept : Finset ℕ, c.Keeps blocks full kept → ∀ id ∉ kept,
    ∑ i ∈ kept, need c blocks i + need c blocks id ≤ c.maxRawMemoryBytes

theorem need_nonneg (hc : 0 ≤ cfg.chunkSize) (id : ℕ) : 0 ≤ need cfg blocks id := by
  unfold need
  split
  · split
    · exact le_rfl
    · exact acquireSize_nonneg hc _
  · exact le_rfl

theorem Config.Roomy.of_total {c : Config} {full : Bool} (hc : 0 ≤ c.chunkSize)
    (window : blocks.length ≤ 2 * c.maxWindow.toNat)
    (total : ∑ id ∈ Finset.range blocks.length, need c blocks id ≤ c.maxRawMemoryBytes) :
    c.Roomy blocks full := by
  refine ⟨window, fun kept _ id fresh => le_trans ?_ total⟩
  rw [add_comm, ← Finset.sum_insert fresh]
  have inside : ∀ i ∈ insert id kept, need c blocks i ≠ 0 → i ∈ Finset.range blocks.length := by
    intro i _ pos
    by_contra out
    refine pos ?_
    simp only [Finset.mem_range, not_lt] at out
    simp [need, List.getElem?_eq_none out]
  rw [← Finset.sum_filter_of_ne fun i hi ne => inside i hi ne]
  refine Finset.sum_le_sum_of_subset_of_nonneg (fun i hi => ?_) fun i _ _ => need_nonneg hc i
  exact (Finset.mem_filter.mp hi).2

example : smallConfig.Roomy [⟨[100], 0, 1, 0, 0, true⟩, ⟨[100], 1, 1, 1, 0, true⟩] false :=
  .of_total (by decide) (by decide) (by decide)

def SendWorker.loadedIds (w : SendWorker) : List ℕ :=
  match w.sender with
  | .recv => (w.batch.entries.filter (·.2.hasMem)).map (·.1.requestId)
  | _ => []

def State.kept (s : State R S) : Multiset ℕ := ∑ i, ((s.workers i).loadedIds : Multiset ℕ)

theorem EntryOf.length_eq {log : Log} {e : ChangedBlock × Held} (h : EntryOf cfg log e)
    (reads : log.FullReads cfg blocks) (loaded : e.2.hasMem = true) :
    (e.1.data.length : ℤ) = need cfg blocks e.1.requestId := by
  obtain ⟨rc, delivers, rfl⟩ := h
  cases delivers with
  | marked | zeros => simp [zeroChunk] at loaded
  | data hb data read => exact reads _ read

def SendWorker.waits (w : SendWorker) : Prop := w.sender = .recv ∨ w.sender = .exit none

end Kept

def ReaderPC.asleep (sh : Shared R) (r : Fin R) : ReaderPC → Bool
  | .exit _ => true
  | .memWait _ => r ∉ sh.mem.closed
  | .winWait _ => r ∉ sh.win.closed
  | _ => false

def SendWorker.idle (w : SendWorker) : Bool :=
  w.pc = .running ∧ w.sender = .recv ∧ w.ack = .recv ∧ w.groupErr = none ∧
    w.stream = ⟨[], false, .recv, []⟩

theorem ReaderStep.awake {r : Fin R} {pc pc' : ReaderPC} {sh sh' : Shared R} {e : ReaderEvent}
    (h : ReaderStep cfg false r pc sh e pc' sh') : pc.asleep sh r = false := by
  cases h with
  | memWoken woken | winWoken woken => simp [ReaderPC.asleep, woken]
  | memGiveUp cancelled | winGiveUp cancelled => cases cancelled
  | _ => rfl

end CephVolsync.Pipeline
