import CephVolsync.Pipeline.Machine

/-! What each goroutine of the pipeline can do in one action, guards included. Later
modules argue by cases over these relations and never unfold the functions again. -/

namespace CephVolsync.Pipeline

open Function

variable {R S : ℕ} {cfg : Config} {done : Bool}

inductive ReaderStep (cfg : Config) (done : Bool) (r : Fin R) :
    ReaderPC → Shared R → ReaderEvent → ReaderPC → Shared R → Prop
  | recvZero {sh c rest} : sh.chunkCh.buf = c :: rest → c.isZero = true →
      ReaderStep cfg done r .recv sh (.select .ready) (.winAcquire c)
        { sh with chunkCh := { sh.chunkCh with buf := rest } }
  | recvData {sh c rest} : sh.chunkCh.buf = c :: rest → c.isZero = false →
      ReaderStep cfg done r .recv sh (.select .ready) (.memAcquire c)
        { sh with chunkCh := { sh.chunkCh with buf := rest } }
  | recvClosed {sh} : sh.chunkCh.buf = [] → sh.chunkCh.closed = true →
      ReaderStep cfg done r .recv sh (.select .ready) (.exit none) sh
  | recvDone {sh} : done = true → ReaderStep cfg done r .recv sh (.select .ctxDone)
      (.exit (some .ctx)) sh
  | memTake {sh c} : (sh.mem.acquire (acquireSize cfg c) r).2 = true →
      ReaderStep cfg done r (.memAcquire c) sh (.select .ready) (.winAcquire c)
        { sh with mem := (sh.mem.acquire (acquireSize cfg c) r).1 }
  | memQueue {sh c} : (sh.mem.acquire (acquireSize cfg c) r).2 = false →
      ReaderStep cfg done r (.memAcquire c) sh (.select .ready) (.memWait c)
        { sh with mem := (sh.mem.acquire (acquireSize cfg c) r).1 }
  | memWoken {sh c b} : r ∈ sh.mem.closed →
      ReaderStep cfg done r (.memWait c) sh (.select b)
        (.winAcquire c) { sh with mem := sh.mem.leave r }
  | memGiveUp {sh c} : done = true → r ∉ sh.mem.closed →
      ReaderStep cfg done r (.memWait c) sh (.select .ctxDone) (.exit (some .ctx))
        ({ sh with mem := sh.mem.remove r }.drop c.reqID)
  | winTake {sh c} : (sh.win.acquire c.reqID r).2 = true →
      ReaderStep cfg done r (.winAcquire c) sh (.select .ready) (afterWin c)
        { sh with win := (sh.win.acquire c.reqID r).1 }
  | winQueue {sh c} : (sh.win.acquire c.reqID r).2 = false →
      ReaderStep cfg done r (.winAcquire c) sh (.select .ready) (.winWait c)
        { sh with win := (sh.win.acquire c.reqID r).1 }
  | winWoken {sh c b} : r ∈ sh.win.closed →
      ReaderStep cfg done r (.winWait c) sh (.select b)
        (afterWin c) { sh with win := sh.win.leave r }
  | winGiveUp {sh c} : done = true → r ∉ sh.win.closed →
      ReaderStep cfg done r (.winWait c) sh (.select .ctxDone)
        (.releasing ⟨c.reqID, acquireSize cfg c, false, !c.isZero⟩ .ctx)
        ({ sh with win := sh.win.remove r }.drop c.reqID)
  | readFail {sh c} :
      ReaderStep cfg done r (.read c) sh (.data none)
        (.releasing ⟨c.reqID, acquireSize cfg c, true, true⟩ (.read c.reqID)) sh
  | readZero {sh c bytes} : isAllZero bytes = true →
      ReaderStep cfg done r (.read c) sh (.data (some bytes)) (.freeMem c)
        { sh with log := { sh.log with reads := sh.log.reads ++ [(c.reqID, bytes)] } }
  | readData {sh c bytes} : isAllZero bytes = false →
      ReaderStep cfg done r (.read c) sh (.data (some bytes)) (.emit (dataChunk cfg c bytes))
        { sh with log := { sh.log with reads := sh.log.reads ++ [(c.reqID, bytes)] } }
  | freeMem {sh c} :
      ReaderStep cfg done r (.freeMem c) sh (.select .ready) (.emit (zeroChunk c))
        (sh.releaseMem (acquireSize cfg c))
  | emit {sh rc} : sh.readCh.buf.length < cfg.readChanBuf.toNat →
      ReaderStep cfg done r (.emit rc) sh
        (.select .ready) .recv { sh with readCh := sh.readCh.send rc }
  | emitDone {sh rc} : done = true →
      ReaderStep cfg done r (.emit rc) sh (.select .ctxDone) (.releasing rc.held .ctx) sh
  | relMem {sh h err} : h.hasMem = true →
      ReaderStep cfg done r (.releasing h err) sh (.select .ready)
        (.releasing { h with hasMem := false } err)
        (sh.releaseMem h.memRawN)
  | relWin {sh h err} : h.hasMem = false → h.hasWin = true →
      ReaderStep cfg done r (.releasing h err) sh (.select .ready)
        (.releasing { h with hasWin := false } err)
        (sh.forfeit h.reqID)
  | relExit {sh h err} : h.hasMem = false → h.hasWin = false →
      ReaderStep cfg done r (.releasing h err) sh (.select .ready) (.exit (some err)) sh

theorem readWorker_step {r : Fin R} {sh sh' : Shared R} {pc pc' : ReaderPC} {e : ReaderEvent}
    (h : readWorker cfg done r sh pc e = some (pc', sh')) :
    ReaderStep cfg done r pc sh e pc' sh' := by
  cases pc with
  | recv =>
    rcases e with ⟨_ | _⟩ | res
    · simp only [readWorker] at h
      split at h
      · rename_i c rest hb
        cases hz : c.isZero <;> simp only [hz, Option.some.injEq, Prod.mk.injEq] at h <;>
          obtain ⟨rfl, rfl⟩ := h
        · exact .recvData hb hz
        · exact .recvZero hb hz
      · rename_i hb
        split at h <;> cases h
        exact .recvClosed hb ‹_›
    · simp only [readWorker] at h
      split at h <;> cases h
      exact .recvDone ‹_›
    · simp [readWorker] at h
  | memAcquire c =>
    rcases e with ⟨_ | _⟩ | res <;> simp only [readWorker, reduceCtorEq, Option.some.injEq] at h
    cases hm : (sh.mem.acquire (acquireSize cfg c) r).2 <;>
      simp only [hm, Prod.mk.injEq] at h <;> obtain ⟨rfl, rfl⟩ := h
    · exact .memQueue hm
    · exact .memTake hm
  | memWait c =>
    rcases e with ⟨_ | _⟩ | res <;> simp only [readWorker, reduceCtorEq] at h
    · split at h <;> cases h
      exact .memWoken ‹_›
    · split at h
      · split at h <;> cases h
        · exact .memWoken ‹_›
        · exact .memGiveUp ‹_› ‹_›
      · cases h
  | winAcquire c =>
    rcases e with ⟨_ | _⟩ | res <;> simp only [readWorker, reduceCtorEq, Option.some.injEq] at h
    cases hw : (sh.win.acquire c.reqID r).2 <;>
      simp only [hw, Prod.mk.injEq] at h <;> obtain ⟨rfl, rfl⟩ := h
    · exact .winQueue hw
    · exact .winTake hw
  | winWait c =>
    rcases e with ⟨_ | _⟩ | res <;> simp only [readWorker, reduceCtorEq] at h
    · split at h <;> cases h
      exact .winWoken ‹_›
    · split at h
      · split at h <;> cases h
        · exact .winWoken ‹_›
        · exact .winGiveUp ‹_› ‹_›
      · cases h
  | read c =>
    rcases e with ⟨_ | _⟩ | ⟨_ | bytes⟩ <;>
      simp only [readWorker, reduceCtorEq, Option.some.injEq] at h
    · cases h; exact .readFail
    · cases hz : isAllZero bytes <;> simp only [hz, Prod.mk.injEq] at h <;> obtain ⟨rfl, rfl⟩ := h
      · exact .readData hz
      · exact .readZero hz
  | freeMem c =>
    rcases e with ⟨_ | _⟩ | res <;> simp only [readWorker, reduceCtorEq] at h
    cases h; exact .freeMem
  | emit rc =>
    rcases e with ⟨_ | _⟩ | res <;> simp only [readWorker, reduceCtorEq] at h <;>
      split at h <;> cases h
    · exact .emit ‹_›
    · exact .emitDone ‹_›
  | releasing hd err =>
    rcases e with ⟨_ | _⟩ | res <;> simp only [readWorker, reduceCtorEq] at h
    split at h
    · cases h; exact .relMem ‹_›
    · split at h <;> cases h
      · exact .relWin (by simpa using ‹¬hd.hasMem = true›) ‹_›
      · exact .relExit (by simpa using ‹¬hd.hasMem = true›) (by simpa using ‹¬hd.hasWin = true›)
  | exit err => rcases e with ⟨_ | _⟩ | res <;> simp [readWorker] at h

/-- The actions of a send worker: its own frame, `dataSender`, `ackReceiver` and the
destination's handler of its stream. -/
inductive WorkerStep (cfg : Config) (done : Bool) (w : SendWorker) (sh : Shared R) :
    WorkerEvent → SendWorker → Shared R → Prop
  | opened : w.pc = .opening → WorkerStep cfg done w sh (.open true) { w with pc := .running } sh
  | openFail : w.pc = .opening →
      WorkerStep cfg done w sh (.open false) { w with pc := .exit (some .openStream) } sh
  | take {cc rest} : w.pc = .running → w.sender = .recv → sh.readCh.buf = cc :: rest →
      w.batch.overflows cfg cc = false →
      WorkerStep cfg done w sh (.sender .ready) { w with batch := w.batch.append cc }
        { sh with readCh := { sh.readCh with buf := rest } }
  | overflow {cc rest} : w.pc = .running → w.sender = .recv → sh.readCh.buf = cc :: rest →
      w.batch.overflows cfg cc = true →
      WorkerStep cfg done w sh (.sender .ready) { w with sender := .send (some cc) }
        { sh with readCh := { sh.readCh with buf := rest } }
  | closeEmpty : w.pc = .running → w.sender = .recv → sh.readCh.buf = [] →
      sh.readCh.closed = true → w.batch.entries = [] →
      WorkerStep cfg done w sh (.sender .ready) (w.exitSender none) sh
  | closeFlush : w.pc = .running → w.sender = .recv → sh.readCh.buf = [] →
      sh.readCh.closed = true → w.batch.entries ≠ [] →
      WorkerStep cfg done w sh (.sender .ready) { w with sender := .send none } sh
  | senderDone : w.pc = .running → w.sender = .recv → (done || w.groupErr.isSome) = true →
      WorkerStep cfg done w sh
        (.sender .ctxDone) { w with sender := .abort (w.batch.entries.map (·.2)) .ctx } sh
  | free {h todo next} : w.pc = .running → w.sender = .sent (h :: todo) next →
      WorkerStep cfg done w sh (.sender .ready) { w with sender := .sent todo next }
        (if h.hasMem then sh.releaseMem h.memRawN else sh)
  | refill {cc} : w.pc = .running → w.sender = .sent [] (some cc) →
      WorkerStep cfg done w sh
        (.sender .ready) { w with sender := .recv, batch := Batch.empty.append cc } sh
  | finish : w.pc = .running → w.sender = .sent [] none →
      WorkerStep cfg done w sh (.sender .ready)
        (({ w with batch := .empty } : SendWorker).exitSender none) sh
  | abortMem {h todo err} : w.pc = .running → w.sender = .abort (h :: todo) err →
      h.hasMem = true →
      WorkerStep cfg done w sh
        (.sender .ready) { w with sender := .abort ({ h with hasMem := false } :: todo) err }
        (sh.releaseMem h.memRawN)
  | abortWin {h todo err} : w.pc = .running → w.sender = .abort (h :: todo) err →
      h.hasMem = false → h.hasWin = true →
      WorkerStep cfg done w sh (.sender .ready) { w with sender := .abort todo err }
        (sh.forfeit h.reqID)
  | abortSkip {h todo err} : w.pc = .running → w.sender = .abort (h :: todo) err →
      h.hasMem = false → h.hasWin = false →
      WorkerStep cfg done w sh (.sender .ready) { w with sender := .abort todo err } sh
  | abortExit {err} : w.pc = .running → w.sender = .abort [] err →
      WorkerStep cfg done w sh (.sender .ready) (w.exitSender (some err)) sh
  | sendOk {next} : w.pc = .running → w.sender = .send next →
      WorkerStep cfg done w sh (.send true) (sendBatch w sh next true).1
        (sendBatch w sh next true).2
  | sendFail {next} : w.pc = .running → w.sender = .send next →
      WorkerStep cfg done w sh (.send false) (sendBatch w sh next false).1
        (sendBatch w sh next false).2
  | ackTake {ids rest} : w.pc = .running → w.ack = .recv → w.stream.acks = ids :: rest →
      WorkerStep cfg done w sh (.ack .ready)
        { w with ack := .release ids, stream := { w.stream with acks := rest } } sh
  | ackEof : w.pc = .running → w.ack = .recv → w.stream.acks = [] →
      w.stream.handler = .ended true → WorkerStep cfg done w sh (.ack .ready) (w.exitAck none) sh
  | ackFail {e} : w.pc = .running → w.ack = .recv →
      (e = .recvErr ∨ e = .ack .ready ∧ w.stream.acks = [] ∧ w.stream.handler = .ended false) →
      WorkerStep cfg done w sh e (w.exitAck (some .recvAck)) sh
  | ackDone : w.pc = .running → w.ack = .recv → (done || w.groupErr.isSome) = true →
      WorkerStep cfg done w sh (.ack .ctxDone) (w.exitAck (some .ctx)) sh
  | ackRelease {id ids} : w.pc = .running → w.ack = .release (id :: ids) →
      WorkerStep cfg done w sh (.ack .ready) { w with ack := .release ids } (sh.releaseAck id)
  | ackLoop : w.pc = .running → w.ack = .release [] →
      WorkerStep cfg done w sh (.ack .ready) { w with ack := .recv } sh
  | ret {e f} : w.pc = .running → w.sender = .exit e → w.ack = .exit f →
      WorkerStep cfg done w sh .ret { w with pc := .exit w.groupErr } sh
  | handlerTake {req rest} : w.stream.handler = .recv → w.stream.reqs = req :: rest →
      WorkerStep cfg done w sh .handler
        { w with stream := { w.stream with
            reqs := rest, handler := .write req.blocks (collectRequestIDs req.blocks) } } sh
  | handlerEof : w.stream.handler = .recv → w.stream.reqs = [] → w.stream.closeSend = true →
      WorkerStep cfg done w sh .handler
        { w with stream := { w.stream with handler := .ended true } } sh
  | handlerWrite {b todo ids} : w.stream.handler = .write (b :: todo) ids →
      WorkerStep cfg done w sh .handler
        { w with stream := { w.stream with handler := .write todo ids } }
        { sh with log := { sh.log with applied := sh.log.applied ++ [b] } }
  | handlerAck {ids} : w.stream.handler = .write [] ids →
      WorkerStep cfg done w sh .handler
        { w with stream := { w.stream with
            handler := .recv
            acks := if ids.length > 0 then w.stream.acks ++ [ids] else w.stream.acks } }
        { sh with log := { sh.log with acked := sh.log.acked ++ ids } }
  | handlerFail : w.stream.handler = .recv →
      WorkerStep cfg done w sh .handlerFail
        { w with stream := { w.stream with handler := .ended false } } sh
  | handlerLose {todo ids} : w.stream.handler = .write todo ids →
      WorkerStep cfg done w sh .handlerFail
        { w with stream := { w.stream with handler := .ended false } }
        { sh with log := { sh.log with
            lost := sh.log.lost ++ ids, unapplied := sh.log.unapplied ++ todo } }

theorem handleWrite_step {w : SendWorker} {sh sh' : Shared R} {st : Stream}
    (h : handleWrite w.stream sh w.stream.handler = some (st, sh')) :
    WorkerStep cfg done w sh .handler { w with stream := st } sh' := by
  cases hh : w.stream.handler with
  | recv =>
    rw [hh, handleWrite] at h
    split at h
    · cases h; exact .handlerTake hh ‹_›
    · split at h <;> cases h
      exact .handlerEof hh ‹_› ‹_›
  | write todo ids =>
    cases todo with
    | nil => rw [hh, handleWrite] at h; cases h; exact .handlerAck hh
    | cons b todo => rw [hh, handleWrite] at h; cases h; exact .handlerWrite hh
  | ended ok => rw [hh, handleWrite] at h; cases h

theorem failHandler_step {w : SendWorker} {sh sh' : Shared R} {st : Stream}
    (h : failHandler w.stream sh w.stream.handler = some (st, sh')) :
    WorkerStep cfg done w sh .handlerFail { w with stream := st } sh' := by
  cases hh : w.stream.handler with
  | recv => rw [hh, failHandler] at h; cases h; exact .handlerFail hh
  | write todo ids => rw [hh, failHandler] at h; cases h; exact .handlerLose hh
  | ended ok => rw [hh, failHandler] at h; cases h

theorem dataSender_step {w w' : SendWorker} {sh sh' : Shared R} {b : Branch}
    (hp : w.pc = .running)
    (h : dataSender cfg (done || w.groupErr.isSome) w sh w.sender b = some (w', sh')) :
    WorkerStep cfg done w sh (.sender b) w' sh' := by
  cases hs : w.sender with
  | recv =>
    rw [hs] at h
    cases b with
    | ready =>
      simp only [dataSender] at h
      split at h
      · rename_i cc rest hb
        cases ho : w.batch.overflows cfg cc <;>
          simp only [ho, Bool.false_eq_true, if_false, if_true] at h <;>
          cases h
        · exact .take hp hs hb ho
        · exact .overflow hp hs hb ho
      · split at h
        · split at h <;> cases h
          · exact .closeEmpty hp hs ‹_› ‹_› ‹_›
          · exact .closeFlush hp hs ‹_› ‹_› ‹_›
        · cases h
    | ctxDone =>
      simp only [dataSender] at h
      split at h <;> cases h
      exact .senderDone hp hs ‹_›
  | send next => rw [hs] at h; cases b <;> simp [dataSender] at h
  | sent todo next =>
    rw [hs] at h
    rcases todo with _ | ⟨hd, todo⟩ <;> rcases next with _ | cc <;> cases b <;>
      simp only [dataSender, reduceCtorEq] at h <;> cases h
    · exact .finish hp hs
    · exact .refill hp hs
    · exact .free hp hs
    · exact .free hp hs
  | abort todo err =>
    rw [hs] at h
    rcases todo with _ | ⟨hd, todo⟩ <;> cases b <;>
      simp only [dataSender, releaseHead, reduceCtorEq] at h
    · cases h; exact .abortExit hp hs
    · cases hm : hd.hasMem
      · cases hw : hd.hasWin <;> simp only [hm, hw, Bool.false_eq_true, if_false, if_true] at h <;>
          cases h
        · exact .abortSkip hp hs hm hw
        · exact .abortWin hp hs hm hw
      · simp only [hm, if_true] at h; cases h
        exact .abortMem hp hs hm
  | exit err => rw [hs] at h; cases b <;> simp [dataSender] at h

theorem ackReceiver_step {w w' : SendWorker} {sh sh' : Shared R} {b : Branch}
    (hp : w.pc = .running)
    (h : ackReceiver (done || w.groupErr.isSome) w sh w.ack b = some (w', sh')) :
    WorkerStep cfg done w sh (.ack b) w' sh' := by
  cases ha : w.ack with
  | recv =>
    rw [ha] at h
    cases b with
    | ready =>
      simp only [ackReceiver] at h
      split at h
      · cases h; exact .ackTake hp ha ‹_›
      · split at h <;> cases h
        · exact .ackEof hp ha ‹_› ‹_›
        · exact .ackFail hp ha (.inr ⟨rfl, ‹_›, ‹_›⟩)
    | ctxDone =>
      simp only [ackReceiver] at h
      split at h <;> cases h
      exact .ackDone hp ha ‹_›
  | release ids =>
    rw [ha] at h
    rcases ids with _ | ⟨id, ids⟩ <;> cases b <;> simp only [ackReceiver, reduceCtorEq] at h <;>
      cases h
    · exact .ackLoop hp ha
    · exact .ackRelease hp ha
  | exit err => rw [ha] at h; cases b <;> simp [ackReceiver] at h

theorem sendWorker_step {w w' : SendWorker} {sh sh' : Shared R} {e : WorkerEvent}
    (h : sendWorker cfg done w sh w.pc e = some (w', sh')) : WorkerStep cfg done w sh e w' sh' := by
  cases e with
  | handler =>
    have hm : (handleWrite w.stream sh w.stream.handler).map
        (fun p => ({ w with stream := p.1 }, p.2)) = some (w', sh') := by
      cases hp : w.pc <;> simpa only [hp, sendWorker] using h
    obtain ⟨⟨st, sh₁⟩, hst, heq⟩ := Option.map_eq_some_iff.mp hm
    cases heq
    exact handleWrite_step hst
  | handlerFail =>
    have hm : (failHandler w.stream sh w.stream.handler).map
        (fun p => ({ w with stream := p.1 }, p.2)) = some (w', sh') := by
      cases hp : w.pc <;> simpa only [hp, sendWorker] using h
    obtain ⟨⟨st, sh₁⟩, hst, heq⟩ := Option.map_eq_some_iff.mp hm
    cases heq
    exact failHandler_step hst
  | «open» ok =>
    cases hp : w.pc <;> simp only [hp, sendWorker, reduceCtorEq] at h
    cases ok <;> cases h
    · exact .openFail hp
    · exact .opened hp
  | sender b =>
    cases hp : w.pc <;> simp only [hp, sendWorker, reduceCtorEq] at h
    exact dataSender_step hp h
  | send ok =>
    cases hp : w.pc <;> simp only [hp, sendWorker, reduceCtorEq] at h
    split at h
    · cases ok <;> cases h
      · exact .sendFail hp ‹_›
      · exact .sendOk hp ‹_›
    · cases h
  | ack b =>
    cases hp : w.pc <;> simp only [hp, sendWorker, reduceCtorEq] at h
    exact ackReceiver_step hp h
  | recvErr =>
    cases hp : w.pc <;> simp only [hp, sendWorker, reduceCtorEq] at h
    split at h <;> cases h
    exact .ackFail hp ‹_› (.inl rfl)
  | ret =>
    cases hp : w.pc <;> simp only [hp, sendWorker, reduceCtorEq] at h
    split at h <;> cases h
    exact .ret hp ‹_› ‹_›

inductive PipelineStep (cfg : Config) (s : State R S) :
    Action R S → State R S → Prop
  | cancel : PipelineStep cfg s .cancel { s with ctxDone := true }
  | next {b} : s.feeder = .next →
      PipelineStep cfg s (.iterNext (some b)) { s with
        feeder := .send (feederChunk b)
        shared := { s.shared with log := { s.shared.log with fed := s.shared.log.fed ++ [b] } } }
  | nextEnd : s.feeder = .next → PipelineStep cfg s (.iterNext none) (s.exitFeeder none)
  | feed {c} : s.feeder = .send c → s.shared.chunkCh.buf.length < cfg.readChanBuf.toNat →
      PipelineStep cfg s (.feeder .ready) { s with
        feeder := .next, shared := { s.shared with chunkCh := s.shared.chunkCh.send c } }
  | feedDone {c} : s.feeder = .send c → s.runDone = true →
      PipelineStep cfg s (.feeder .ctxDone)
        ({ s with shared := s.shared.drop c.reqID }.exitFeeder (some .ctx))
  | reader {r e pc sh} : ReaderStep cfg s.readDone r (s.readers r) s.shared e pc sh →
      PipelineStep cfg s (.reader r e) { s with
        readers := update s.readers r pc, readErr := s.readErr.or pc.exitErr, shared := sh }
  | stageRead : s.stageRead = none → (∀ r, (s.readers r).exited = true) →
      PipelineStep cfg s .stageRead { s with
        stageRead := some s.readErr
        runErr := s.runErr.or s.readErr
        shared := { s.shared with readCh := s.shared.readCh.close } }
  | worker {i e w sh} : WorkerStep cfg s.sendDone (s.workers i) s.shared e w sh →
      PipelineStep cfg s (.worker i e) { s with
        workers := update s.workers i w, sendErr := s.sendErr.or w.exitErr, shared := sh }
  | stageSend : s.stageSend = none → (∀ i, (s.workers i).exited = true) →
      PipelineStep cfg s .stageSend
        { s with stageSend := some s.sendErr, runErr := s.runErr.or s.sendErr }
  | run {err} : s.feeder = .exit err → s.returned = false → s.stageRead.isSome = true →
      s.stageSend.isSome = true → PipelineStep cfg s .run { s with returned := true }
  | takeRelease : s.shared.win.releaseCh = true →
      PipelineStep cfg s .takeRelease { s with
        shared := { s.shared with win := s.shared.win.takeRelease } }

theorem iterNext_step {s s' : State R S} {b : Option ChangeBlock}
    (h : iterNext s s.feeder b = some s') : PipelineStep cfg s (.iterNext b) s' := by
  cases hf : s.feeder <;> cases b <;> simp only [hf, iterNext, reduceCtorEq] at h <;> cases h
  · exact .nextEnd hf
  · exact .next hf

theorem feeder_step {s s' : State R S} {b : Branch}
    (h : feeder cfg s s.feeder b = some s') : PipelineStep cfg s (.feeder b) s' := by
  cases hf : s.feeder <;> cases b <;> simp only [hf, feeder, reduceCtorEq] at h <;>
    split at h <;> cases h
  · exact .feed hf ‹_›
  · exact .feedDone hf ‹_›

theorem step_cases {s s' : State R S} {a : Action R S} (h : step cfg s a = some s') :
    PipelineStep cfg s a s' := by
  cases a with
  | cancel => cases h; exact .cancel
  | iterNext b => exact iterNext_step h
  | feeder b => exact feeder_step h
  | reader r e =>
    obtain ⟨⟨pc, sh⟩, hr, heq⟩ := Option.map_eq_some_iff.mp h
    cases heq
    exact .reader (readWorker_step hr)
  | stageRead =>
    simp only [step] at h
    split at h <;> cases h
    rename_i hc
    exact .stageRead hc.1 hc.2
  | worker i e =>
    obtain ⟨⟨w, sh⟩, hw, heq⟩ := Option.map_eq_some_iff.mp h
    cases heq
    exact .worker (sendWorker_step hw)
  | stageSend =>
    simp only [step] at h
    split at h <;> cases h
    rename_i hc
    exact .stageSend hc.1 hc.2
  | run =>
    simp only [step] at h
    split at h
    · split at h <;> cases h
      rename_i hf hc
      exact .run hf hc.1 hc.2.1 hc.2.2
    · cases h
  | takeRelease =>
    simp only [step] at h
    split at h <;> cases h
    exact .takeRelease ‹_›

end CephVolsync.Pipeline
