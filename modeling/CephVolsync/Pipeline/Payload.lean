import CephVolsync.Pipeline.Steps

/-! What travels through the pipeline: every chunk comes from a block the iterator
returned, and every chunk behind the read stage carries that block's bytes as they were
read, or none when they are zeros. -/

namespace CephVolsync.Pipeline

open Function TransitionSystem

variable {R S : ℕ} {cfg : Config} {done : Bool} {re : ReaderEvent} {we : WorkerEvent}
  {a : Action R S} {log log' : Log}

inductive Delivers (cfg : Config) (log : Log) : ReadChunk → Prop
  | marked {b} : b ∈ log.fed → b.isZero = true → Delivers cfg log (zeroChunk (feederChunk b))
  | zeros {b bytes} : b ∈ log.fed → b.isZero = false → (b.reqID, bytes) ∈ log.reads →
      isAllZero bytes = true → Delivers cfg log (zeroChunk (feederChunk b))
  | data {b bytes} : b ∈ log.fed → b.isZero = false → (b.reqID, bytes) ∈ log.reads →
      isAllZero bytes = false → Delivers cfg log (dataChunk cfg (feederChunk b) bytes)

def ChunkOf (log : Log) (c : Chunk) : Prop := ∃ b ∈ log.fed, feederChunk b = c

def EntryOf (cfg : Config) (log : Log) (e : ChangedBlock × Held) : Prop :=
  ∃ rc, Delivers cfg log rc ∧ e = (changedBlock rc, rc.held)

structure Log.Extends (log' log : Log) : Prop where
  fed : log.fed ⊆ log'.fed
  reads : log.reads ⊆ log'.reads

theorem Log.Extends.of_eq (hf : log'.fed = log.fed) (hr : log'.reads = log.reads) :
    log'.Extends log :=
  ⟨by rw [hf]; exact List.Subset.refl _, by rw [hr]; exact List.Subset.refl _⟩

theorem Delivers.extend {rc : ReadChunk} (h : Delivers cfg log rc) (hl : log'.Extends log) :
    Delivers cfg log' rc := by
  cases h with
  | marked hb hz => exact .marked (hl.fed hb) hz
  | zeros hb hz hr ha => exact .zeros (hl.fed hb) hz (hl.reads hr) ha
  | data hb hz hr ha => exact .data (hl.fed hb) hz (hl.reads hr) ha

theorem ChunkOf.extend {c : Chunk} (h : ChunkOf log c) (hl : log'.Extends log) :
    ChunkOf log' c := by
  obtain ⟨b, hb, hc⟩ := h
  exact ⟨b, hl.fed hb, hc⟩

theorem EntryOf.extend {e : ChangedBlock × Held} (h : EntryOf cfg log e) (hl : log'.Extends log) :
    EntryOf cfg log' e := by
  obtain ⟨rc, hrc, he⟩ := h
  exact ⟨rc, hrc.extend hl, he⟩

theorem Delivers.held_reqID {rc : ReadChunk} (h : Delivers cfg log rc) :
    rc.held.reqID = rc.reqID := by
  cases h <;> rfl

theorem Delivers.hasWin {rc : ReadChunk} (h : Delivers cfg log rc) : rc.held.hasWin = true := by
  cases h <;> rfl

theorem EntryOf.requestId {e : ChangedBlock × Held} (h : EntryOf cfg log e) :
    e.1.requestId = e.2.reqID := by
  obtain ⟨rc, hrc, rfl⟩ := h
  exact hrc.held_reqID.symm

theorem EntryOf.hasWin {e : ChangedBlock × Held} (h : EntryOf cfg log e) : e.2.hasWin = true := by
  obtain ⟨rc, hrc, rfl⟩ := h
  exact Delivers.hasWin hrc

def ReaderPC.Carries (cfg : Config) (log : Log) : ReaderPC → Prop
  | .recv | .releasing _ _ | .exit _ => True
  | .memAcquire c | .memWait c | .read c => ChunkOf log c ∧ c.isZero = false
  | .winAcquire c | .winWait c => ChunkOf log c
  | .freeMem c =>
    ChunkOf log c ∧ c.isZero = false ∧ ∃ bytes, (c.reqID, bytes) ∈ log.reads ∧
      isAllZero bytes = true
  | .emit rc => Delivers cfg log rc

def FeederPC.Carries (log : Log) : FeederPC → Prop
  | .send c => ChunkOf log c
  | _ => True

def SenderPC.next : SenderPC → Option ReadChunk
  | .send next | .sent _ next => next
  | _ => none

structure SendWorker.Carries (cfg : Config) (log : Log) (w : SendWorker) : Prop where
  entries : ∀ e ∈ w.batch.entries, EntryOf cfg log e
  next : ∀ rc ∈ w.sender.next, Delivers cfg log rc

structure Shared.Carries (cfg : Config) (sh : Shared R) : Prop where
  chunkCh : ∀ c ∈ sh.chunkCh.buf, ChunkOf sh.log c
  readCh : ∀ rc ∈ sh.readCh.buf, Delivers cfg sh.log rc
  sent : ∀ req ∈ sh.log.sent, ∀ b ∈ req.blocks, ∃ rc, Delivers cfg sh.log rc ∧ b = changedBlock rc

structure State.Carries (cfg : Config) (s : State R S) : Prop where
  feeder : s.feeder.Carries s.log
  readers : ∀ r, (s.readers r).Carries cfg s.log
  workers : ∀ i, (s.workers i).Carries cfg s.log
  shared : s.shared.Carries cfg

theorem FeederPC.Carries.extend {pc : FeederPC} (h : pc.Carries log) (hl : log'.Extends log) :
    pc.Carries log' := by
  cases pc with
  | send c => exact ChunkOf.extend h hl
  | _ => trivial

theorem ReaderPC.Carries.extend {pc : ReaderPC} (h : pc.Carries cfg log) (hl : log'.Extends log) :
    pc.Carries cfg log' := by
  cases pc with
  | recv | releasing | exit => trivial
  | memAcquire c | memWait c | read c => exact ⟨h.1.extend hl, h.2⟩
  | winAcquire c | winWait c => exact ChunkOf.extend h hl
  | freeMem c =>
    obtain ⟨hc, hz, bytes, hr, ha⟩ := h
    exact ⟨hc.extend hl, hz, bytes, hl.reads hr, ha⟩
  | emit rc => exact Delivers.extend h hl

theorem SendWorker.Carries.extend {w : SendWorker} (h : w.Carries cfg log) (hl : log'.Extends log) :
    w.Carries cfg log' :=
  ⟨fun e he => (h.entries e he).extend hl, fun rc hrc => (h.next rc hrc).extend hl⟩

theorem Shared.Carries.extend {sh sh' : Shared R} (h : sh.Carries cfg)
    (hl : sh'.log.Extends sh.log) (hc : sh'.chunkCh.buf ⊆ sh.chunkCh.buf)
    (hr : sh'.readCh.buf ⊆ sh.readCh.buf) (hs : sh'.log.sent = sh.log.sent) : sh'.Carries cfg := by
  refine ⟨fun c hm => (h.chunkCh c (hc hm)).extend hl, fun rc hm => (h.readCh rc (hr hm)).extend hl,
    ?_⟩
  intro req hreq b hb
  obtain ⟨rc, hrc, he⟩ := h.sent req (hs ▸ hreq) b hb
  exact ⟨rc, hrc.extend hl, he⟩

theorem afterWin_carries {c : Chunk} (h : ChunkOf log c) : (afterWin c).Carries cfg log := by
  obtain ⟨b, hb, rfl⟩ := h
  cases hz : b.isZero
  · rw [afterWin, if_neg (by simp [feederChunk, hz])]
    exact ⟨⟨b, hb, rfl⟩, hz⟩
  · rw [afterWin, if_pos (by simp [feederChunk, hz])]
    exact .marked hb hz

theorem ReaderStep.extends {r : Fin R} {pc pc' : ReaderPC} {sh sh' : Shared R}
    (h : ReaderStep cfg done r pc sh re pc' sh') : sh'.log.Extends sh.log := by
  cases h with
  | readZero | readData =>
    exact ⟨List.Subset.refl _, List.subset_append_left _ _⟩
  | _ => exact .of_eq rfl rfl

theorem ReaderStep.carries {r : Fin R} {pc pc' : ReaderPC} {sh sh' : Shared R}
    (h : ReaderStep cfg done r pc sh re pc' sh') (hp : pc.Carries cfg sh.log)
    (hs : sh.Carries cfg) :
    pc'.Carries cfg sh'.log ∧ sh'.Carries cfg := by
  have ext := h.extends
  have keep : sh'.chunkCh.buf ⊆ sh.chunkCh.buf → sh'.readCh.buf ⊆ sh.readCh.buf →
      sh'.log.sent = sh.log.sent → sh'.Carries cfg := hs.extend ext
  cases h with
  | recvZero hb hz =>
    have hc := hs.chunkCh _ (by rw [hb]; exact List.mem_cons_self)
    exact ⟨hc, keep (by simp [hb]) (List.Subset.refl _) rfl⟩
  | recvData hb hz =>
    have hc := hs.chunkCh _ (by rw [hb]; exact List.mem_cons_self)
    exact ⟨⟨hc, hz⟩, keep (by simp [hb]) (List.Subset.refl _) rfl⟩
  | recvClosed | recvDone | emitDone | relExit => exact ⟨trivial, hs⟩
  | memTake | memWoken => exact ⟨hp.1, keep (List.Subset.refl _) (List.Subset.refl _) rfl⟩
  | memQueue => exact ⟨hp, keep (List.Subset.refl _) (List.Subset.refl _) rfl⟩
  | winTake | winWoken =>
    exact ⟨afterWin_carries hp, keep (List.Subset.refl _) (List.Subset.refl _) rfl⟩
  | winQueue => exact ⟨hp, keep (List.Subset.refl _) (List.Subset.refl _) rfl⟩
  | memGiveUp | winGiveUp | readFail | relMem | relWin =>
    exact ⟨trivial, keep (List.Subset.refl _) (List.Subset.refl _) rfl⟩
  | readZero ha =>
    refine ⟨⟨hp.1.extend ext, hp.2, _, ?_, ha⟩, keep (List.Subset.refl _) (List.Subset.refl _) rfl⟩
    exact List.mem_append_right _ List.mem_cons_self
  | readData ha =>
    obtain ⟨⟨b, hb, rfl⟩, hz⟩ := hp
    refine ⟨.data (ext.fed hb) hz ?_ ha, keep (List.Subset.refl _) (List.Subset.refl _) rfl⟩
    exact List.mem_append_right _ List.mem_cons_self
  | freeMem =>
    obtain ⟨⟨b, hb, rfl⟩, hz, bytes, hr, ha⟩ := hp
    exact ⟨.zeros hb hz hr ha, keep (List.Subset.refl _) (List.Subset.refl _) rfl⟩
  | emit =>
    refine ⟨trivial, hs.chunkCh, ?_, hs.sent⟩
    intro rc hrc
    rcases List.mem_append.mp hrc with hrc | hrc
    · exact hs.readCh rc hrc
    · exact List.mem_singleton.mp hrc ▸ hp

theorem WorkerStep.extends {w w' : SendWorker} {sh sh' : Shared R}
    (h : WorkerStep cfg done w sh we w' sh') : sh'.log.Extends sh.log := by
  cases h with
  | @free hd => cases hm : hd.hasMem <;> exact .of_eq rfl rfl
  | _ => exact .of_eq rfl rfl

theorem entries_append {b : Batch} {cc : ReadChunk}
    (h : ∀ e ∈ b.entries, EntryOf cfg log e) (hc : Delivers cfg log cc) :
    ∀ e ∈ (b.append cc).entries, EntryOf cfg log e := by
  intro e he
  rcases List.mem_append.mp he with he | he
  · exact h e he
  · exact ⟨cc, hc, List.mem_singleton.mp he⟩

theorem WorkerStep.carries {w w' : SendWorker} {sh sh' : Shared R}
    (h : WorkerStep cfg done w sh we w' sh') (hw : w.Carries cfg sh.log) (hs : sh.Carries cfg) :
    w'.Carries cfg sh'.log ∧ sh'.Carries cfg := by
  have ext := h.extends
  have keep : sh'.chunkCh.buf ⊆ sh.chunkCh.buf → sh'.readCh.buf ⊆ sh.readCh.buf →
      sh'.log.sent = sh.log.sent → sh'.Carries cfg := hs.extend ext
  have idle : ∀ {w'' : SendWorker}, w''.batch = w.batch → w''.sender.next = none →
      w''.Carries cfg sh'.log := by
    intro w'' hb hn
    exact ⟨fun e he => (hw.entries e (hb ▸ he)).extend ext, by simp [hn]⟩
  have same : ∀ {w'' : SendWorker}, w''.batch = w.batch → w''.sender.next = w.sender.next →
      w''.Carries cfg sh'.log := by
    intro w'' hb hn
    exact ⟨fun e he => (hw.entries e (hb ▸ he)).extend ext,
      fun rc hrc => (hw.next rc (hn ▸ hrc)).extend ext⟩
  cases h with
  | opened | openFail | ackTake | ackEof | ackFail | ackDone | ackLoop | ret | handlerTake
  | handlerEof | handlerFail => exact ⟨same rfl rfl, hs⟩
  | take hp hsn hb ho =>
    have hc := hs.readCh _ (by rw [hb]; exact List.mem_cons_self)
    refine ⟨⟨entries_append hw.entries hc, by simp [hsn, SenderPC.next]⟩, ?_⟩
    exact keep (List.Subset.refl _) (by simp [hb]) rfl
  | overflow hp hsn hb ho =>
    have hc := hs.readCh _ (by rw [hb]; exact List.mem_cons_self)
    refine ⟨⟨hw.entries, ?_⟩, keep (List.Subset.refl _) (by simp [hb]) rfl⟩
    intro rc hrc
    simp only [SenderPC.next, Option.mem_def, Option.some.injEq] at hrc
    exact hrc ▸ hc
  | closeEmpty | closeFlush | senderDone | abortExit => exact ⟨idle rfl rfl, hs⟩
  | @free hd todo next hp hsn =>
    refine ⟨same rfl (by rw [hsn]; rfl), ?_⟩
    cases hm : hd.hasMem
    · exact hs
    · exact ⟨hs.chunkCh, hs.readCh, hs.sent⟩
  | refill hp hsn =>
    have hc := hw.next _ (by rw [hsn]; rfl)
    exact ⟨⟨entries_append (by simp [Batch.empty]) hc, by simp [SenderPC.next]⟩, hs⟩
  | finish => exact ⟨⟨by simp [SendWorker.exitSender, Batch.empty], by
      simp [SendWorker.exitSender, SenderPC.next]⟩, hs⟩
  | abortMem | abortWin =>
    exact ⟨idle rfl rfl, keep (List.Subset.refl _) (List.Subset.refl _) rfl⟩
  | abortSkip => exact ⟨idle rfl rfl, hs⟩
  | sendOk hp hsn =>
    refine ⟨same rfl (by rw [hsn]; rfl), fun c hc => (hs.chunkCh c hc).extend ext,
      fun rc hrc => (hs.readCh rc hrc).extend ext, ?_⟩
    intro req hreq b hb
    rcases List.mem_append.mp hreq with hreq | hreq
    · obtain ⟨rc, hrc, he⟩ := hs.sent req hreq b hb
      exact ⟨rc, hrc.extend ext, he⟩
    · rw [List.mem_singleton.mp hreq] at hb
      obtain ⟨e, he, rfl⟩ := List.mem_map.mp hb
      obtain ⟨rc, hrc, rfl⟩ := hw.entries e he
      exact ⟨rc, hrc.extend ext, rfl⟩
  | sendFail => exact ⟨idle rfl rfl, hs⟩
  | ackRelease | handlerWrite | handlerAck | handlerLose =>
    exact ⟨same rfl rfl, keep (List.Subset.refl _) (List.Subset.refl _) rfl⟩

theorem PipelineStep.extends {s s' : State R S} (h : PipelineStep cfg s a s') :
    s'.log.Extends s.log := by
  cases h with
  | next => exact ⟨List.subset_append_left _ _, List.Subset.refl _⟩
  | reader hr => exact hr.extends
  | worker hw => exact hw.extends
  | _ => exact .of_eq rfl rfl

theorem PipelineStep.carries {s s' : State R S} (h : PipelineStep cfg s a s') (hs : s.Carries cfg) :
    s'.Carries cfg := by
  have ext := h.extends
  have readers := fun r => (hs.readers r).extend ext
  have workers := fun i => (hs.workers i).extend ext
  have keep : s'.shared.chunkCh.buf ⊆ s.shared.chunkCh.buf →
      s'.shared.readCh.buf ⊆ s.shared.readCh.buf → s'.log.sent = s.log.sent →
      s'.shared.Carries cfg := hs.shared.extend ext
  cases h with
  | cancel | stageSend | run => exact ⟨hs.feeder, hs.readers, hs.workers, hs.shared⟩
  | @next b =>
    refine ⟨⟨b, ?_, rfl⟩, readers, workers, keep (List.Subset.refl _) (List.Subset.refl _) rfl⟩
    exact List.mem_append_right _ List.mem_cons_self
  | nextEnd => exact ⟨trivial, readers, workers, keep (List.Subset.refl _) (List.Subset.refl _) rfl⟩
  | @feed d hf =>
    have hc : ChunkOf s.log d := by simpa only [hf, FeederPC.Carries] using hs.feeder
    refine ⟨trivial, readers, workers, ?_, hs.shared.readCh, hs.shared.sent⟩
    intro c hm
    rcases List.mem_append.mp hm with hm | hm
    · exact hs.shared.chunkCh c hm
    · exact List.mem_singleton.mp hm ▸ hc
  | feedDone => exact ⟨trivial, readers, workers,
      keep (List.Subset.refl _) (List.Subset.refl _) rfl⟩
  | reader hr =>
    obtain ⟨hpc, hsh⟩ := hr.carries (hs.readers _) hs.shared
    exact ⟨hs.feeder.extend ext,
      IndexedFamily.forall_update (P := fun _ pc => ReaderPC.Carries cfg _ pc) hpc fun j _ =>
      readers j, workers, hsh⟩
  | stageRead =>
    exact ⟨hs.feeder, readers, workers, keep (List.Subset.refl _) (List.Subset.refl _) rfl⟩
  | takeRelease =>
    exact ⟨hs.feeder, readers, workers, keep (List.Subset.refl _) (List.Subset.refl _) rfl⟩
  | worker hw =>
    obtain ⟨hwk, hsh⟩ := hw.carries (hs.workers _) hs.shared
    exact ⟨hs.feeder.extend ext, readers,
      IndexedFamily.forall_update (P := fun _ w => SendWorker.Carries cfg _ w) hwk fun j _ =>
      workers j, hsh⟩

theorem init_carries : (init cfg R S).Carries cfg :=
  ⟨trivial, fun _ => trivial, fun _ => ⟨by simp [init, SendWorker.init, Batch.empty],
    by simp [init, SendWorker.init, SenderPC.next]⟩,
    ⟨by simp [init, Chan.new], by simp [init, Chan.new], by simp [init, Log.empty]⟩⟩

theorem reach_carries {s : State R S} (h : Reach (step cfg) (init cfg R S) s) : s.Carries cfg :=
  h.invariant init_carries fun _ _ _ _ hs next => (step_cases next).carries hs

end CephVolsync.Pipeline
