import CephVolsync.Pipeline.Ledger

/-! How the goroutines end and how their errors travel. `Run` returns nil only when every
goroutine has returned nil; then nothing was given up on the way and no channel, batch or
stream holds an id any more. -/

namespace CephVolsync.Pipeline

open Function TransitionSystem IndexedFamily

variable {R S : ℕ} {cfg : Config} {done : Bool} {re : ReaderEvent} {we : WorkerEvent}
  {a : Action R S}

structure SendWorker.Coherent (w : SendWorker) : Prop where
  closed : w.stream.closeSend = true → ∃ err, w.sender = .exit err
  eof : w.stream.handler = .ended true → w.stream.reqs = [] ∧ w.stream.closeSend = true
  acked : w.ack = .exit none → w.stream.handler = .ended true ∧ w.stream.acks = []
  sender_err : ∀ err, w.sender = .exit (some err) → w.groupErr ≠ none
  ack_err : ∀ err, w.ack = .exit (some err) → w.groupErr ≠ none
  returned : w.pc = .exit none →
    w.groupErr = none ∧ (∃ err, w.sender = .exit err) ∧ ∃ err, w.ack = .exit err

namespace SendWorker.Coherent

variable {w : SendWorker}

theorem unfinished (h : w.Coherent) (sending : ∀ e, w.sender ≠ .exit e) :
    w.stream.closeSend ≠ true ∧ w.stream.handler ≠ .ended true ∧ w.ack ≠ .exit none := by
  have unclosed : w.stream.closeSend ≠ true := fun hc =>
    let ⟨e, he⟩ := h.closed hc
    sending e he
  have handling : w.stream.handler ≠ .ended true := fun he => unclosed (h.eof he).2
  exact ⟨unclosed, handling, fun ha => handling (h.acked ha).1⟩

theorem unreturned (running : w.pc = .running) : w.pc ≠ .exit none := by
  rw [running]
  nofun

theorem sender (h : w.Coherent) (running : w.pc = .running) (sending : ∀ e, w.sender ≠ .exit e)
    {pc : SenderPC} (goes : ∀ e, pc ≠ .exit e) (batch : Batch) (reqs : List WriteRequest) :
    Coherent { w with sender := pc, batch := batch, stream := { w.stream with reqs := reqs } } := by
  obtain ⟨unclosed, handling, receiving⟩ := h.unfinished sending
  exact ⟨fun hc => absurd hc unclosed, fun he => absurd he handling, fun ha => absurd ha receiving,
    fun e he => absurd he (goes _), h.ack_err, fun hr => absurd hr (unreturned running)⟩

theorem exitSender (h : w.Coherent) (running : w.pc = .running) (sending : ∀ e, w.sender ≠ .exit e)
    (err : Option Err) : (w.exitSender err).Coherent := by
  obtain ⟨-, handling, receiving⟩ := h.unfinished sending
  refine ⟨fun _ => ⟨err, rfl⟩, fun he => absurd he handling, fun ha => absurd ha receiving, ?_, ?_,
    fun hr => absurd hr (unreturned running)⟩
  · rintro e ⟨⟩
    simp [SendWorker.exitSender]
  · intro e he
    simp [SendWorker.exitSender, h.ack_err e he]

theorem receiver (h : w.Coherent) (running : w.pc = .running) {pc : AckPC}
    (goes : ∀ e, pc ≠ .exit e)
    (acks : List (List ℕ)) :
    Coherent { w with ack := pc, stream := { w.stream with acks := acks } } :=
  ⟨h.closed, h.eof, fun ha => absurd ha (goes _), h.sender_err, fun _ ha => absurd ha (goes _),
    fun hr => absurd hr (unreturned running)⟩

theorem exitAck (h : w.Coherent) (running : w.pc = .running) {err : Option Err}
    (eof : err = none → w.stream.handler = .ended true ∧ w.stream.acks = []) :
    (w.exitAck err).Coherent := by
  refine ⟨h.closed, h.eof, ?_, fun e he => ?_, ?_, fun hr => absurd hr (unreturned running)⟩
  · rintro ⟨⟩
    exact eof rfl
  · simp [SendWorker.exitAck, h.sender_err e he]
  · rintro e ⟨⟩
    simp [SendWorker.exitAck]

theorem handler (h : w.Coherent) (handling : w.stream.handler ≠ .ended true) {st : Stream}
    (closeSend : st.closeSend = w.stream.closeSend)
    (eof : st.handler = .ended true → st.reqs = [] ∧ st.closeSend = true) :
    Coherent { w with stream := st } := by
  refine ⟨fun hc => h.closed (closeSend ▸ hc), eof, fun ha => absurd (h.acked ha).1 handling,
    h.sender_err, h.ack_err, h.returned⟩

theorem goroutine (h : w.Coherent) {pc : WorkerPC} (returned : pc = .exit none →
    w.groupErr = none ∧ (∃ err, w.sender = .exit err) ∧ ∃ err, w.ack = .exit err) :
    Coherent { w with pc := pc } :=
  ⟨h.closed, h.eof, h.acked, h.sender_err, h.ack_err, returned⟩

end SendWorker.Coherent

theorem WorkerStep.coherent {w w' : SendWorker} {sh sh' : Shared R}
    (h : WorkerStep cfg done w sh we w' sh') (hw : w.Coherent) : w'.Coherent := by
  cases h with
  | opened | openFail => exact hw.goroutine nofun
  | take run hs | refill run hs | overflow run hs | closeFlush run hs | senderDone run hs
    | free run hs | abortMem run hs | abortWin run hs | abortSkip run hs | sendOk run hs
    | sendFail run hs =>
    exact hw.sender run (by simp [hs]) (by simp [hs]) _ _
  | closeEmpty run hs | abortExit run hs => exact hw.exitSender run (by simp [hs]) _
  | finish run hs =>
    exact (hw.sender run (by simp [hs]) (by simp [hs]) .empty _).exitSender run (by simp [hs]) _
  | ackTake run | ackRelease run | ackLoop run => exact hw.receiver run (by simp) _
  | ackEof run _ none ended => exact hw.exitAck run fun _ => ⟨ended, none⟩
  | ackFail run | ackDone run => exact hw.exitAck run nofun
  | ret _ hs ha => exact hw.goroutine fun he => ⟨by simpa using he, ⟨_, hs⟩, ⟨_, ha⟩⟩
  | handlerTake hh | handlerWrite hh | handlerAck hh | handlerFail hh | handlerLose hh =>
    exact hw.handler (by simp [hh]) rfl nofun
  | handlerEof hh none closed => exact hw.handler (by simp [hh]) rfl fun _ => ⟨none, closed⟩

def SenderPC.draining : SenderPC → Bool
  | .send none | .sent _ none | .exit none => true
  | _ => false

def Chan.Drained {α : Type} (c : Chan α) : Prop := c.closed = true ∧ c.buf = []

structure State.Coherent (s : State R S) : Prop where
  workers : ∀ i, (s.workers i).Coherent
  chunk_closed : s.shared.chunkCh.closed = true ↔ ∃ err, s.feeder = .exit err
  feeder_err : ∀ err, s.feeder = .exit (some err) → s.runErr ≠ none
  reader_end : ∀ r, s.readers r = .exit none → Chan.Drained s.shared.chunkCh
  reader_err : ∀ r err, s.readers r = .exit (some err) → s.readErr ≠ none
  stageRead : s.stageRead ≠ none →
    (∀ r, (s.readers r).exited = true) ∧ (s.readErr ≠ none → s.runErr ≠ none)
  read_closed : s.shared.readCh.closed = true ↔ s.stageRead ≠ none
  sender_end : ∀ i, (s.workers i).sender.draining = true → Chan.Drained s.shared.readCh
  worker_err : ∀ i err, (s.workers i).pc = .exit (some err) → s.sendErr ≠ none
  stageSend : s.stageSend ≠ none →
    (∀ i, (s.workers i).exited = true) ∧ (s.sendErr ≠ none → s.runErr ≠ none)
  returned : s.returned = true → (∃ err, s.feeder = .exit err) ∧ s.stageRead ≠ none ∧
    s.stageSend ≠ none

structure ReaderStep.Channels (pc pc' : ReaderPC) (sh sh' : Shared R) : Prop where
  running : pc.exited = false
  chunk_closed : sh'.chunkCh.closed = sh.chunkCh.closed
  read_closed : sh'.readCh.closed = sh.readCh.closed
  chunk_empty : sh.chunkCh.buf = [] → sh'.chunkCh.buf = []
  ended : pc' = .exit none → Chan.Drained sh'.chunkCh

theorem ReaderStep.channels {r : Fin R} {pc pc' : ReaderPC} {sh sh' : Shared R}
    (h : ReaderStep cfg done r pc sh re pc' sh') : ReaderStep.Channels pc pc' sh sh' := by
  have after : ∀ c : Chunk, afterWin c ≠ .exit none := by
    intro c
    unfold afterWin
    split <;> simp
  cases h with
  | recvZero hb | recvData hb => exact ⟨rfl, rfl, rfl, by simp [hb], by simp⟩
  | recvClosed hb hc => exact ⟨rfl, rfl, rfl, id, fun _ => ⟨hc, hb⟩⟩
  | winTake | winWoken => exact ⟨rfl, rfl, rfl, id, fun he => absurd he (after _)⟩
  | _ => exact ⟨rfl, rfl, rfl, id, by simp⟩

structure WorkerStep.Channels (w w' : SendWorker) (sh sh' : Shared R) : Prop where
  chunkCh : sh'.chunkCh = sh.chunkCh
  read_closed : sh'.readCh.closed = sh.readCh.closed
  read_empty : sh.readCh.buf = [] → sh'.readCh.buf = []
  draining : w'.sender.draining = true → w.sender.draining = true ∨ Chan.Drained sh'.readCh
  exited : w.exited = true → w'.pc = w.pc

theorem WorkerStep.channels {w w' : SendWorker} {sh sh' : Shared R}
    (h : WorkerStep cfg done w sh we w' sh') : WorkerStep.Channels w w' sh sh' := by
  have live : w.pc = .running → w.exited = true → False := by
    intro hp he
    simp [SendWorker.exited, hp] at he
  cases h with
  | opened hp | openFail hp =>
    exact ⟨rfl, rfl, id, Or.inl, fun he => by simp [SendWorker.exited, hp] at he⟩
  | take hp hs hb => exact ⟨rfl, rfl, by simp [hb], Or.inl, fun he => (live hp he).elim⟩
  | overflow hp hs hb =>
    exact ⟨rfl, rfl, by simp [hb], by simp [SenderPC.draining], fun he => (live hp he).elim⟩
  | closeEmpty hp hs hb hc | closeFlush hp hs hb hc =>
    exact ⟨rfl, rfl, id, fun _ => .inr ⟨hc, hb⟩, fun he => (live hp he).elim⟩
  | @free hd todo next hp hs =>
    refine ⟨?_, ?_, ?_, fun hd => .inl ?_, fun he => (live hp he).elim⟩
    · cases hm : hd.hasMem <;> rfl
    · cases hm : hd.hasMem <;> rfl
    · cases hm : hd.hasMem <;> exact id
    · cases next <;> simp_all [SenderPC.draining]
  | finish hp hs =>
    exact ⟨rfl, rfl, id, fun _ => .inl (by simp [hs, SenderPC.draining]), fun he =>
      (live hp he).elim⟩
  | @sendOk next hp hs =>
    refine ⟨rfl, rfl, id, fun hd => .inl ?_, fun he => (live hp he).elim⟩
    cases next <;> simp_all [SenderPC.draining, sendBatch]
  | senderDone hp | refill hp | abortMem hp | abortWin hp | abortSkip hp | abortExit hp
  | sendFail hp =>
    exact ⟨rfl, rfl, id, by simp [SenderPC.draining, SendWorker.exitSender, sendBatch],
      fun he => (live hp he).elim⟩
  | ackTake hp | ackEof hp | ackFail hp | ackDone hp | ackRelease hp | ackLoop hp | ret hp =>
    exact ⟨rfl, rfl, id, Or.inl, fun he => (live hp he).elim⟩
  | handlerTake | handlerEof | handlerWrite | handlerAck | handlerFail | handlerLose =>
    exact ⟨rfl, rfl, id, Or.inl, fun _ => rfl⟩

theorem SendWorker.exited_iff (w : SendWorker) : w.exited = true ↔ ∃ err, w.pc = .exit err := by
  cases hp : w.pc <;> simp [SendWorker.exited, hp]

theorem groupErr_keeps {err : Option Err} (new : Option Err) (h : err ≠ none) :
    err.or new ≠ none :=
  fun none => h (Option.or_eq_none_iff.mp none).1

theorem groupErr_takes (err : Option Err) {new : Option Err} (h : new ≠ none) :
    err.or new ≠ none :=
  fun none => h (Option.or_eq_none_iff.mp none).2

theorem State.Coherent.reader {s : State R S} (hs : s.Coherent) {r : Fin R} {pc : ReaderPC}
    {sh : Shared R} (h : ReaderStep cfg s.readDone r (s.readers r) s.shared re pc sh) :
    State.Coherent { s with
      readers := update s.readers r pc, readErr := s.readErr.or pc.exitErr, shared := sh } := by
  have ch := h.channels
  have open_read : s.stageRead = none := by
    by_contra hne
    exact absurd ((hs.stageRead hne).1 r) (by simp [ch.running])
  constructor
  · exact hs.workers
  · simpa only [ch.chunk_closed] using hs.chunk_closed
  · exact hs.feeder_err
  · refine forall_update (P := fun _ pc => pc = ReaderPC.exit none → _) ch.ended fun j _ hj => ?_
    obtain ⟨hc, hb⟩ := hs.reader_end j hj
    exact ⟨ch.chunk_closed.trans hc, ch.chunk_empty hb⟩
  · refine forall_update (P := fun _ pc' => ∀ err, pc' = ReaderPC.exit (some err) → _) ?_ ?_
    · rintro err rfl
      exact groupErr_takes _ (by simp [ReaderPC.exitErr])
    · intro j _ err hj
      exact groupErr_keeps _ (hs.reader_err j err hj)
  · intro hne
    exact absurd open_read hne
  · simpa only [ch.read_closed] using hs.read_closed
  · intro i hi
    have closed := (hs.sender_end i hi).1
    exact absurd open_read (hs.read_closed.mp closed)
  · exact hs.worker_err
  · exact hs.stageSend
  · exact hs.returned

theorem State.Coherent.worker {s : State R S} (hs : s.Coherent) {i : Fin S} {w : SendWorker}
    {sh : Shared R} (h : WorkerStep cfg s.sendDone (s.workers i) s.shared we w sh) :
    State.Coherent { s with
      workers := update s.workers i w, sendErr := s.sendErr.or w.exitErr, shared := sh } := by
  have ch := h.channels
  constructor
  · exact forall_update (P := fun _ w => SendWorker.Coherent w) (h.coherent (hs.workers i))
      fun j _ => hs.workers j
  · simpa only [ch.chunkCh] using hs.chunk_closed
  · exact hs.feeder_err
  · simpa only [ch.chunkCh] using hs.reader_end
  · exact hs.reader_err
  · exact hs.stageRead
  · simpa only [ch.read_closed] using hs.read_closed
  · have keep : Chan.Drained s.shared.readCh → Chan.Drained sh.readCh := fun hd =>
      ⟨ch.read_closed.trans hd.1, ch.read_empty hd.2⟩
    refine forall_update (P := fun _ w => SenderPC.draining (SendWorker.sender w) = true → _) ?_ ?_
    · intro hd
      rcases ch.draining hd with hd | hd
      · exact keep (hs.sender_end i hd)
      · exact hd
    · exact fun j _ hj => keep (hs.sender_end j hj)
  · refine forall_update (P := fun _ w => ∀ err, SendWorker.pc w = .exit (some err) → _) ?_ ?_
    · intro err he
      exact groupErr_takes _ (by simp [SendWorker.exitErr, he])
    · intro j _ err hj
      exact groupErr_keeps _ (hs.worker_err j err hj)
  · intro hne
    obtain ⟨exited, err⟩ := hs.stageSend hne
    have same := ch.exited (exited i)
    refine ⟨forall_update (P := fun _ w => SendWorker.exited w = true) ?_ fun j _ => exited j, ?_⟩
    · rw [SendWorker.exited_iff, same, ← SendWorker.exited_iff]
      exact exited i
    · intro hor
      apply err
      cases hse : s.sendErr with
      | some e => simp
      | none =>
        obtain ⟨e, he⟩ := (SendWorker.exited_iff _).mp (exited i)
        cases e with
        | none => simp [hse, SendWorker.exitErr, same, he] at hor
        | some e => exact absurd hse (hs.worker_err i e he)
  · exact hs.returned

theorem PipelineStep.coherent {s s' : State R S} (h : PipelineStep cfg s a s') (hs : s.Coherent) :
    s'.Coherent := by
  have open_chunk : ∀ pc, s.feeder = pc → (∀ err, pc ≠ .exit err) →
    s.shared.chunkCh.closed ≠ true := by
    rintro pc rfl hne hc
    obtain ⟨err, he⟩ := hs.chunk_closed.mp hc
    exact hne err he
  obtain ⟨workers, chunk_closed, feeder_err, reader_end, reader_err, stageRead, read_closed,
    sender_end, worker_err, stageSend, returned⟩ := id hs
  cases h with
  | cancel | takeRelease =>
    exact ⟨workers, chunk_closed, feeder_err, reader_end, reader_err, stageRead, read_closed,
      sender_end, worker_err, stageSend, returned⟩
  | next hf =>
    have closed := open_chunk _ hf (by simp)
    exact ⟨workers, by simp [closed], by simp, reader_end, reader_err, stageRead, read_closed,
      sender_end, worker_err, stageSend, fun hr => absurd (returned hr).1 (by simp [hf])⟩
  | nextEnd hf =>
    refine ⟨workers, by simp [State.exitFeeder, Chan.close], by simp [State.exitFeeder],
      fun r hr => ⟨rfl, (reader_end r hr).2⟩, reader_err, fun hne => ⟨(stageRead hne).1, fun he =>
        groupErr_keeps _ ((stageRead hne).2 he)⟩, read_closed, sender_end, worker_err, fun hne =>
        ⟨(stageSend hne).1, fun he => groupErr_keeps _ ((stageSend hne).2 he)⟩, ?_⟩
    exact fun hr => absurd (returned hr).1 (by simp [hf])
  | feed hf =>
    have closed := open_chunk _ hf (by simp)
    refine ⟨workers, by simp [Chan.send, closed], by simp, ?_, reader_err, stageRead, read_closed,
      sender_end, worker_err, stageSend, fun hr => absurd (returned hr).1 (by simp [hf])⟩
    exact fun r hr => absurd (reader_end r hr).1 closed
  | feedDone hf =>
    refine ⟨workers, by simp [State.exitFeeder, Chan.close], ?_,
      fun r hr => ⟨rfl, (reader_end r hr).2⟩, reader_err, fun hne => ⟨(stageRead hne).1, fun he =>
        groupErr_keeps _ ((stageRead hne).2 he)⟩, read_closed, sender_end, worker_err, fun hne =>
        ⟨(stageSend hne).1, fun he => groupErr_keeps _ ((stageSend hne).2 he)⟩, ?_⟩
    · intro err _
      exact groupErr_takes _ (by simp)
    · exact fun hr => absurd (returned hr).1 (by simp [hf])
  | reader hstep => exact hs.reader hstep
  | stageRead hn hall =>
    refine ⟨workers, chunk_closed, fun err he => groupErr_keeps _ (feeder_err err he), reader_end,
      reader_err, fun _ => ⟨hall, fun he => ?_⟩, by simp [Chan.close], ?_, worker_err,
      fun hne => ⟨(stageSend hne).1, fun he => groupErr_keeps _ ((stageSend hne).2 he)⟩,
      fun hr => absurd hn (returned hr).2.1⟩
    · exact groupErr_takes _ he
    · exact fun i hi => ⟨rfl, (sender_end i hi).2⟩
  | worker hstep => exact hs.worker hstep
  | stageSend hn hall =>
    refine ⟨workers, chunk_closed, fun err he => groupErr_keeps _ (feeder_err err he), reader_end,
      reader_err, fun hne => ⟨(stageRead hne).1, fun he => groupErr_keeps _ ((stageRead hne).2 he)⟩,
      read_closed,
      sender_end, worker_err, fun _ => ⟨hall, fun he => ?_⟩, fun hr => absurd hn (returned hr).2.2⟩
    exact groupErr_takes _ he
  | run hf hr hsr hss =>
    exact ⟨workers, chunk_closed, feeder_err, reader_end, reader_err, stageRead, read_closed,
      sender_end, worker_err, stageSend, fun _ => ⟨⟨_, hf⟩, Option.isSome_iff_ne_none.mp hsr,
        Option.isSome_iff_ne_none.mp hss⟩⟩

theorem reach_coherent {s : State R S} (h : Reach (step cfg) (init cfg R S) s) : s.Coherent := by
  refine h.invariant ?_ fun _ _ _ _ hs next => (step_cases next).coherent hs
  constructor <;> simp [init, SendWorker.init, Chan.new, SenderPC.draining]
  intro i
  constructor <;> simp

structure Log.Clean (log : Log) : Prop where
  dropped : log.dropped = []
  forfeited : log.forfeited = []
  lost : log.lost = []
  unapplied : log.unapplied = []

def ReaderPC.tainted : ReaderPC → Bool
  | .releasing _ _ | .exit (some _) => true
  | _ => false

def SendWorker.Tainted (w : SendWorker) : Prop :=
  (∃ todo err, w.sender = .abort todo err) ∨ (∃ err, w.sender = .exit (some err)) ∨
    w.stream.handler = .ended false

def State.Tainted (s : State R S) : Prop :=
  (∃ err, s.feeder = .exit (some err)) ∨ (∃ r, (s.readers r).tainted = true) ∨
    ∃ i, (s.workers i).Tainted

theorem ReaderStep.tainted {r : Fin R} {pc pc' : ReaderPC} {sh sh' : Shared R}
    (h : ReaderStep cfg done r pc sh re pc' sh') (hp : pc.tainted = true) : pc'.tainted = true := by
  cases h <;> first | rfl | simp [ReaderPC.tainted] at hp

theorem ReaderStep.clean {r : Fin R} {pc pc' : ReaderPC} {sh sh' : Shared R}
    (h : ReaderStep cfg done r pc sh re pc' sh') (hc : sh.log.Clean) :
    sh'.log.Clean ∨ pc'.tainted = true := by
  cases h with
  | memGiveUp | winGiveUp | relWin | relMem | relExit | readFail | emitDone => exact .inr rfl
  | _ => exact .inl ⟨hc.dropped, hc.forfeited, hc.lost, hc.unapplied⟩

theorem WorkerStep.tainted {w w' : SendWorker} {sh sh' : Shared R}
    (h : WorkerStep cfg done w sh we w' sh') (hw : w.Tainted) : w'.Tainted := by
  rcases hw with ⟨todo, err, hs⟩ | ⟨err, hs⟩ | ended
  · cases h with
    | take _ hr | overflow _ hr | closeEmpty _ hr | closeFlush _ hr | senderDone _ hr | free _ hr
    | refill _ hr | finish _ hr | sendOk _ hr | sendFail _ hr => simp [hs] at hr
    | abortMem | abortWin | abortSkip => exact .inl ⟨_, _, rfl⟩
    | abortExit => exact .inr (.inl ⟨_, rfl⟩)
    | _ => exact .inl ⟨todo, err, hs⟩
  · cases h with
    | take _ hr | overflow _ hr | closeEmpty _ hr | closeFlush _ hr | senderDone _ hr | free _ hr
    | refill _ hr | finish _ hr | sendOk _ hr | sendFail _ hr | abortMem _ hr | abortWin _ hr
    | abortSkip _ hr | abortExit _ hr => simp [hs] at hr
    | _ => exact .inr (.inl ⟨err, hs⟩)
  · cases h with
    | handlerTake hh | handlerEof hh | handlerWrite hh | handlerAck hh => simp [ended] at hh
    | handlerFail | handlerLose => exact .inr (.inr rfl)
    | _ => exact .inr (.inr ended)

theorem WorkerStep.clean {w w' : SendWorker} {sh sh' : Shared R}
    (h : WorkerStep cfg done w sh we w' sh') (hc : sh.log.Clean) : sh'.log.Clean ∨ w'.Tainted := by
  cases h with
  | abortWin => exact .inr (.inl ⟨_, _, rfl⟩)
  | handlerLose => exact .inr (.inr (.inr rfl))
  | @free hd =>
    cases hm : hd.hasMem <;> exact .inl ⟨hc.dropped, hc.forfeited, hc.lost, hc.unapplied⟩
  | _ => exact .inl ⟨hc.dropped, hc.forfeited, hc.lost, hc.unapplied⟩

theorem PipelineStep.tainted {s s' : State R S} (h : PipelineStep cfg s a s') (hs : s.Tainted) :
    s'.Tainted := by
  rcases hs with ⟨err, hf⟩ | ⟨r, hr⟩ | ⟨i, hi⟩
  · cases h with
    | next hn | nextEnd hn | feed hn | feedDone hn => simp [hf] at hn
    | _ => exact .inl ⟨err, hf⟩
  · cases h with
    | @reader r' e pc sh hstep =>
      refine .inr (.inl ⟨r, ?_⟩)
      by_cases hrr : r = r'
      · subst hrr
        simpa using hstep.tainted hr
      · simpa [update_of_ne hrr] using hr
    | _ => exact .inr (.inl ⟨r, hr⟩)
  · cases h with
    | @worker i' e w sh hstep =>
      refine .inr (.inr ⟨i, ?_⟩)
      by_cases hii : i = i'
      · subst hii
        simpa using hstep.tainted hi
      · simpa [update_of_ne hii] using hi
    | _ => exact .inr (.inr ⟨i, hi⟩)

theorem reach_clean_or_tainted {s : State R S} (h : Reach (step cfg) (init cfg R S) s) :
    s.log.Clean ∨ s.Tainted := by
  refine h.invariant (P := fun s => s.log.Clean ∨ s.Tainted) (.inl ⟨rfl, rfl, rfl, rfl⟩) ?_
  intro s a s' _ hs next
  have hstep := step_cases next
  rcases hs with hc | ht
  · cases hstep with
    | feedDone => exact .inr (.inl ⟨_, rfl⟩)
    | @reader r e pc sh hr =>
      refine (hr.clean hc).imp id fun ht => .inr (.inl ⟨r, ?_⟩)
      simpa using ht
    | @worker i e w sh hw =>
      refine (hw.clean hc).imp id fun ht => .inr (.inr ⟨i, ?_⟩)
      simpa using ht
    | _ => exact .inl ⟨hc.dropped, hc.forfeited, hc.lost, hc.unapplied⟩
  · exact .inr (hstep.tainted ht)

def State.Succeeded (s : State R S) : Prop := s.returned = true ∧ s.runErr = none

structure State.Finished (s : State R S) : Prop where
  feeder : s.feeder = .exit none
  readers : ∀ r, s.readers r = .exit none
  senders : ∀ i, (s.workers i).sender = .exit none
  underway : ∀ i, (s.workers i).underway = []
  unwritten : ∀ i, (s.workers i).unwritten = []
  clean : s.log.Clean

theorem SendWorker.Coherent.finished {w : SendWorker} (h : w.Coherent) (hp : w.pc = .exit none) :
    w.sender = .exit none ∧ w.ack = .exit none ∧ w.stream = ⟨[], true, .ended true, []⟩ := by
  obtain ⟨group, ⟨err, hs⟩, ⟨err', ha⟩⟩ := h.returned hp
  cases err with
  | some e => exact absurd group (h.sender_err e hs)
  | none =>
    cases err' with
    | some e => exact absurd group (h.ack_err e ha)
    | none =>
      obtain ⟨handler, acks⟩ := h.acked ha
      obtain ⟨reqs, closed⟩ := h.eof handler
      refine ⟨hs, ha, ?_⟩
      change (⟨w.stream.reqs, w.stream.closeSend, w.stream.handler, w.stream.acks⟩ : Stream) = _
      rw [reqs, closed, handler, acks]

theorem State.Succeeded.workers {s : State R S} (hs : s.Succeeded)
    (h : Reach (step cfg) (init cfg R S) s) (i : Fin S) : (s.workers i).pc = .exit none := by
  have co := reach_coherent h
  have stage := (co.returned hs.1).2.2
  obtain ⟨err, he⟩ := (SendWorker.exited_iff _).mp ((co.stageSend stage).1 i)
  cases err with
  | none => exact he
  | some e => exact absurd hs.2 ((co.stageSend stage).2 (co.worker_err i e he))

theorem State.Succeeded.finished {s : State R S} (hs : s.Succeeded)
    (h : Reach (step cfg) (init cfg R S) s) : s.Finished := by
  have co := reach_coherent h
  obtain ⟨⟨err, hf⟩, hsr, -⟩ := co.returned hs.1
  have feeder : s.feeder = .exit none := by
    cases err with
    | none => exact hf
    | some e => exact absurd hs.2 (co.feeder_err e hf)
  have readers : ∀ r, s.readers r = .exit none := by
    intro r
    have exited := (co.stageRead hsr).1 r
    cases hr : s.readers r with
    | exit err =>
      cases err with
      | none => rfl
      | some e => exact absurd hs.2 ((co.stageRead hsr).2 (co.reader_err r e hr))
    | _ => simp [hr, ReaderPC.exited] at exited
  have ended := fun i => (co.workers i).finished (hs.workers h i)
  refine ⟨feeder, readers, fun i => (ended i).1, fun i => ?_, fun i => ?_, ?_⟩
  · simp [SendWorker.underway, (ended i).2.1, (ended i).2.2, Handler.ids, AckPC.ids]
  · simp [SendWorker.unwritten, (ended i).2.2, Handler.todo]
  · refine (reach_clean_or_tainted h).resolve_right ?_
    rintro (⟨err, hf'⟩ | ⟨r, hr⟩ | ⟨i, hi⟩)
    · simp [feeder] at hf'
    · simp [readers r, ReaderPC.tainted] at hr
    · simp [SendWorker.Tainted, (ended i).1, (ended i).2.2] at hi

theorem State.Succeeded.counts {s : State R S} (hs : s.Succeeded)
    (h : Reach (step cfg) (init cfg R S) s) (hR : 0 < R) (hS : 0 < S) (x : ℕ) :
    s.log.sentIds.count x = s.log.fedIds.count x ∧
      s.log.released.count x = s.log.fedIds.count x := by
  have co := reach_coherent h
  have fin := hs.finished h
  have chunk := (co.reader_end ⟨0, hR⟩ (fin.readers _)).2
  have read := (co.sender_end ⟨0, hS⟩ (by rw [fin.senders]; rfl)).2
  have placed := reach_placed h x
  have settled := reach_settled h x
  obtain ⟨dropped, forfeited, lost, -⟩ := fin.clean
  simp only [State.log] at dropped forfeited lost
  simp only [fin.feeder, fin.readers, SendWorker.unsent, fin.senders, fin.underway, FeederPC.ids,
    ReaderPC.ids, Shared.placed, Log.gone, Log.left, State.log, chunk, read, dropped, forfeited,
    lost, List.map_nil, List.count_append, List.count_nil,
    Finset.sum_const_zero] at placed settled ⊢
  omega

section GivingUp

/-- A read fails, or the worker sees its context done where no grant has come first. -/
def ReaderPC.givesUp (r : Fin R) (sh : Shared R) (e : ReaderEvent) : ReaderPC → Bool
  | .read _ => e = .data none
  | .recv | .emit _ => e = .select .ctxDone
  | .memWait _ => e = .select .ctxDone ∧ r ∉ sh.mem.closed
  | .winWait _ => e = .select .ctxDone ∧ r ∉ sh.win.closed
  | _ => false

/-- A stream cannot be opened, a `Send` or a `Recv` fails, the destination ends the stream with
an error, or the context is seen done. -/
def WorkerEvent.givesUp : WorkerEvent → Bool
  | .open ok | .send ok => !ok
  | .sender b | .ack b => b = .ctxDone
  | .recvErr | .handlerFail => true
  | .handler | .ret => false

def State.givesUp (s : State R S) : Action R S → Bool
  | .feeder b => b = .ctxDone
  | .reader r e => (s.readers r).givesUp r s.shared e
  | .worker _ e => e.givesUp
  | _ => false

def SenderPC.failed : SenderPC → Bool
  | .abort _ _ | .exit (some _) => true
  | _ => false

def SendWorker.failed (w : SendWorker) : Bool :=
  w.exitErr.isSome || w.groupErr.isSome || w.stream.handler = .ended false || w.sender.failed

/-- Some goroutine has given up, whether it has returned yet or not. -/
def State.Failed (s : State R S) : Prop :=
  (∃ err, s.feeder = .exit (some err)) ∨ (∃ r, (s.readers r).tainted = true) ∨
    ∃ i, (s.workers i).failed = true

theorem ReaderStep.failed {r : Fin R} {pc pc' : ReaderPC} {sh sh' : Shared R}
    (h : ReaderStep cfg done r pc sh re pc' sh') :
    pc'.tainted = (pc.tainted || pc.givesUp r sh re) := by
  have sound : ∀ c : Chunk, (afterWin c).tainted = false := by
    intro c
    unfold afterWin
    split <;> rfl
  cases h with
  | winTake => exact sound _
  | winWoken woken =>
    rw [sound]
    simp [ReaderPC.tainted, ReaderPC.givesUp, woken]
  | _ => simp [ReaderPC.tainted, ReaderPC.givesUp, *]

theorem WorkerStep.failed {w w' : SendWorker} {sh sh' : Shared R}
    (h : WorkerStep cfg done w sh we w' sh') : w'.failed = (w.failed || we.givesUp) := by
  cases h with
  | ackFail _ _ which =>
    rcases which with rfl | ⟨rfl, -, ended⟩ <;>
      simp [SendWorker.failed, WorkerEvent.givesUp, SendWorker.exitAck, *]
  | ret =>
    simp [SendWorker.failed, SendWorker.exitErr, WorkerEvent.givesUp, *]
  | _ =>
    simp [SendWorker.failed, WorkerEvent.givesUp, SendWorker.exitErr, SenderPC.failed,
      SendWorker.exitSender, SendWorker.exitAck, sendBatch, *]

theorem PipelineStep.failed {s s' : State R S} (h : PipelineStep cfg s a s') :
    s'.Failed ↔ s.Failed ∨ s.givesUp a = true := by
  unfold State.Failed
  cases h with
  | feedDone => exact iff_of_true (.inl ⟨_, rfl⟩) (.inr rfl)
  | next hf | nextEnd hf | feed hf => simp [State.givesUp, State.exitFeeder, hf]
  | @reader r e pc sh hr =>
    have readers := exists_update (P := fun pc : ReaderPC => pc.tainted = true) (f := s.readers)
      (by rw [hr.failed, Bool.or_eq_true])
    simp only [readers, State.givesUp]
    tauto
  | @worker i e w sh hw =>
    have workers := exists_update (P := fun w : SendWorker => w.failed = true) (f := s.workers)
      (by rw [hw.failed, Bool.or_eq_true])
    simp only [workers, State.givesUp]
    tauto
  | _ => simp [State.givesUp]

theorem reach_error_failed {s : State R S} (h : Reach (step cfg) (init cfg R S) s)
    (err : s.runErr ≠ none ∨ s.readErr ≠ none ∨ s.sendErr ≠ none) : s.Failed := by
  revert err
  refine h.invariant
    (P := fun s => s.runErr ≠ none ∨ s.readErr ≠ none ∨ s.sendErr ≠ none → s.Failed) ?_ ?_
  · simp [init]
  · intro s a s' _ hs next err
    have hstep := step_cases next
    by_cases before : s.runErr ≠ none ∨ s.readErr ≠ none ∨ s.sendErr ≠ none
    · exact hstep.failed.mpr (.inl (hs before))
    · simp only [not_or, not_not] at before
      obtain ⟨run, read, send⟩ := before
      cases hstep with
      | feedDone => exact .inl ⟨_, rfl⟩
      | @reader r e pc sh hr =>
        refine .inr (.inl ⟨r, ?_⟩)
        simp only [run, read, send, Option.none_or, ne_eq, not_true, or_false, false_or] at err
        cases pc with
        | exit e =>
          cases e with
          | none => exact absurd rfl err
          | some e => simp [ReaderPC.tainted]
        | _ => exact absurd rfl err
      | @worker i e w sh hw =>
        refine .inr (.inr ⟨i, ?_⟩)
        simp only [run, read, send, Option.none_or, ne_eq, not_true, false_or] at err
        simp [SendWorker.failed, Option.isSome_iff_ne_none.mpr err]
      | _ => simp [run, read, send, State.exitFeeder] at err

theorem State.returned_failed {s : State R S} (h : Reach (step cfg) (init cfg R S) s)
    (returned : s.returned = true) : s.Failed ↔ s.runErr ≠ none := by
  refine ⟨fun failed nil => ?_, fun err => reach_error_failed h (.inl err)⟩
  have success : s.Succeeded := ⟨returned, nil⟩
  have fin := success.finished h
  rcases failed with ⟨err, feeder⟩ | ⟨r, reader⟩ | ⟨i, worker⟩
  · simp [fin.feeder] at feeder
  · simp [fin.readers r, ReaderPC.tainted] at reader
  · have co := (reach_coherent h).workers i
    have pc := success.workers h i
    have stream := (co.finished pc).2.2
    simp [SendWorker.failed, SendWorker.exitErr, SenderPC.failed, pc, (co.returned pc).1,
      fin.senders i, stream] at worker

end GivingUp

end CephVolsync.Pipeline
