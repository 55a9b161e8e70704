import CephVolsync.Pipeline.Payload

/-! Where a request id can be. An id fed to the pipeline is at every moment in exactly one
place: with a goroutine, in a channel, in a request that was sent, or among the ids given
up on an error or cancellation path. A sent id is in its stream, with the ack receiver,
released, or lost with a failed handler. -/

namespace CephVolsync.Pipeline

open Function TransitionSystem IndexedFamily

variable {R S : ℕ} {cfg : Config} {done : Bool} {re : ReaderEvent} {we : WorkerEvent}
  {a : Action R S}

def FeederPC.ids : FeederPC → List ℕ
  | .send c => [c.reqID]
  | _ => []

def ReaderPC.ids : ReaderPC → List ℕ
  | .recv | .exit _ => []
  | .memAcquire c | .memWait c | .winAcquire c | .winWait c | .read c | .freeMem c => [c.reqID]
  | .emit rc => [rc.reqID]
  | .releasing h _ => if h.hasWin then [h.reqID] else []

def Batch.ids (b : Batch) : List ℕ := b.entries.map (·.1.requestId)

def heldIds (todo : List Held) : List ℕ := (todo.filter (·.hasWin)).map (·.reqID)

def SendWorker.unsent (w : SendWorker) : List ℕ :=
  match w.sender with
  | .recv => w.batch.ids
  | .send next => w.batch.ids ++ next.toList.map (·.reqID)
  | .sent _ next => next.toList.map (·.reqID)
  | .abort todo _ => heldIds todo
  | .exit _ => []

def Handler.ids : Handler → List ℕ
  | .write _ ids => ids
  | _ => []

def AckPC.ids : AckPC → List ℕ
  | .release ids => ids
  | _ => []

def SendWorker.underway (w : SendWorker) : List ℕ :=
  w.stream.reqs.flatMap (fun req => collectRequestIDs req.blocks) ++ w.stream.handler.ids ++
    w.stream.acks.flatten ++ w.ack.ids

def Log.sentIds (log : Log) : List ℕ := log.sent.flatMap fun req => collectRequestIDs req.blocks

def Log.fedIds (log : Log) : List ℕ := log.fed.map (·.reqID)

def Shared.placed (sh : Shared R) : List ℕ :=
  sh.chunkCh.buf.map (·.reqID) ++ sh.readCh.buf.map (·.reqID) ++ sh.log.dropped ++
    sh.log.forfeited ++ sh.log.sentIds

theorem heldIds_cons (h : Held) (todo : List Held) :
    heldIds (h :: todo) = (if h.hasWin then [h.reqID] else []) ++ heldIds todo := by
  cases hw : h.hasWin <;> simp [heldIds, hw]

theorem heldIds_append (first second : List Held) :
    heldIds (first ++ second) = heldIds first ++ heldIds second := by
  simp [heldIds]

theorem heldIds_entries {log : Log} {entries : List (ChangedBlock × Held)}
    (h : ∀ e ∈ entries, EntryOf cfg log e) :
    heldIds (entries.map (·.2)) = entries.map (·.1.requestId) := by
  induction entries with
  | nil => rfl
  | cons e rest ih =>
    have he := h e List.mem_cons_self
    rw [List.map_cons, heldIds_cons, if_pos he.hasWin, ih fun f hf =>
      h f (List.mem_cons_of_mem _ hf),
      List.map_cons, he.requestId]
    rfl

theorem heldIds_next {log : Log} {next : Option ReadChunk} (h : ∀ rc ∈ next, Delivers cfg log rc) :
    heldIds (next.map (·.held)).toList = next.toList.map (·.reqID) := by
  cases next with
  | none => rfl
  | some rc =>
    have hrc := h rc rfl
    simp [heldIds, Delivers.hasWin hrc, hrc.held_reqID]

theorem afterWin_ids (c : Chunk) : (afterWin c).ids = [c.reqID] := by
  unfold afterWin
  split <;> rfl

theorem ReaderStep.placed {r : Fin R} {pc pc' : ReaderPC} {sh sh' : Shared R}
    (h : ReaderStep cfg done r pc sh re pc' sh') (hp : pc.Carries cfg sh.log) (x : ℕ) :
    pc'.ids.count x + sh'.placed.count x = pc.ids.count x + sh.placed.count x := by
  cases h with
  | recvZero hb | recvData hb =>
    simp only [ReaderPC.ids, Shared.placed, hb, List.map_cons, List.count_append, List.count_cons,
      List.count_nil]
    omega
  | winTake | winWoken => rw [afterWin_ids]; rfl
  | memGiveUp | winGiveUp =>
    simp only [ReaderPC.ids, Shared.placed, Shared.drop, Log.sentIds, List.count_append,
      List.count_nil, Bool.false_eq_true, if_false]
    omega
  | emit =>
    simp only [ReaderPC.ids, Shared.placed, Chan.send, List.map_append, List.map_cons, List.map_nil,
      List.count_append, List.count_nil]
    omega
  | emitDone => simp only [ReaderPC.ids, Delivers.hasWin hp, if_true, hp.held_reqID]
  | relWin hm hw =>
    simp only [ReaderPC.ids, Shared.placed, Shared.forfeit, Log.sentIds, hw, if_true,
      Bool.false_eq_true, if_false, List.count_append, List.count_nil]
    omega
  | relExit hm hw => simp only [ReaderPC.ids, hw, Bool.false_eq_true, if_false]
  | _ => rfl

theorem WorkerStep.placed {w w' : SendWorker} {sh sh' : Shared R}
    (h : WorkerStep cfg done w sh we w' sh') (hw : w.Carries cfg sh.log) (x : ℕ) :
    w'.unsent.count x + sh'.placed.count x = w.unsent.count x + sh.placed.count x := by
  cases h with
  | take hp hs hb =>
    simp only [SendWorker.unsent, hs, Batch.ids, Batch.append, changedBlock, Shared.placed, hb,
      List.map_append, List.map_cons, List.map_nil, List.count_append, List.count_cons,
      List.count_nil]
    omega
  | overflow hp hs hb =>
    simp only [SendWorker.unsent, hs, Option.toList, Shared.placed, hb, List.map_cons, List.map_nil,
      List.count_append, List.count_cons, List.count_nil]
    omega
  | closeEmpty hp hs hb hc he => simp [SendWorker.unsent, SendWorker.exitSender, hs, Batch.ids, he]
  | closeFlush hp hs => simp [SendWorker.unsent, hs]
  | senderDone hp hs =>
    simp only [SendWorker.unsent, hs, Batch.ids, heldIds_entries hw.entries]
  | @free hd todo next hp hs =>
    simp only [SendWorker.unsent, hs]
    cases hm : hd.hasMem <;> rfl
  | refill hp hs => simp [SendWorker.unsent, hs, Batch.ids, Batch.append, Batch.empty, changedBlock]
  | finish hp hs => simp [SendWorker.unsent, SendWorker.exitSender, hs]
  | abortMem hp hs hm =>
    simp only [SendWorker.unsent, hs, heldIds_cons]
    rfl
  | abortWin hp hs hm hh =>
    simp only [SendWorker.unsent, hs, heldIds_cons, hh, if_true, Shared.placed, Shared.forfeit,
      Log.sentIds, List.count_append]
    omega
  | abortSkip hp hs hm hh => simp [SendWorker.unsent, hs, heldIds_cons, hh]
  | abortExit hp hs => simp [SendWorker.unsent, SendWorker.exitSender, hs, heldIds]
  | sendOk hp hs =>
    simp only [SendWorker.unsent, sendBatch, hs, if_true, Shared.placed, Log.sentIds,
      List.flatMap_append, List.flatMap_cons, List.flatMap_nil, collectRequestIDs, Batch.ids,
      List.map_map, List.count_append, List.count_nil, Function.comp_def]
    omega
  | sendFail hp hs =>
    have hn := hw.next
    simp only [hs, SenderPC.next] at hn
    simp only [SendWorker.unsent, sendBatch, hs, Bool.false_eq_true, if_false, heldIds_append,
      heldIds_entries hw.entries, heldIds_next hn, Batch.ids]
  | _ => rfl

theorem ReaderStep.fed_eq {r : Fin R} {pc pc' : ReaderPC} {sh sh' : Shared R}
    (h : ReaderStep cfg done r pc sh re pc' sh') : sh'.log.fed = sh.log.fed := by
  cases h <;> rfl

theorem WorkerStep.fed_eq {w w' : SendWorker} {sh sh' : Shared R}
    (h : WorkerStep cfg done w sh we w' sh') : sh'.log.fed = sh.log.fed := by
  cases h with
  | @free hd => cases hm : hd.hasMem <;> rfl
  | _ => rfl

def State.Placed (s : State R S) : Prop :=
  ∀ x, s.feeder.ids.count x + ∑ r, (s.readers r).ids.count x + ∑ i, (s.workers i).unsent.count x +
    s.shared.placed.count x = s.log.fedIds.count x

theorem PipelineStep.placed {s s' : State R S} (h : PipelineStep cfg s a s') (hc : s.Carries cfg)
    (hs : s.Placed) : s'.Placed := by
  intro x
  have total := hs x
  cases h with
  | cancel | stageRead | stageSend | run | takeRelease => exact total
  | next hf =>
    simp only [hf, FeederPC.ids, Shared.placed, Log.sentIds, Log.fedIds, State.log, List.map_append,
      List.map_cons, List.map_nil, List.count_append, List.count_nil, feederChunk] at total ⊢
    omega
  | nextEnd hf =>
    rw [hf] at total
    exact total
  | feed hf =>
    simp only [hf, FeederPC.ids, Shared.placed, Chan.send, State.log, List.map_append,
      List.map_cons, List.map_nil, List.count_append, List.count_nil] at total ⊢
    omega
  | feedDone hf =>
    simp only [hf, FeederPC.ids, Shared.placed, Shared.drop, State.exitFeeder, Chan.close,
      Log.sentIds, Log.fedIds, State.log, List.count_append, List.count_nil] at total ⊢
    omega
  | @reader r e pc sh hstep =>
    have family := sum_update_exchange (fun pc : ReaderPC => pc.ids.count x) s.readers r pc
      (hstep.placed (hc.readers r) x)
    simp only [State.log, Log.fedIds, hstep.fed_eq] at total ⊢
    omega
  | @worker i e w sh hstep =>
    have family := sum_update_exchange (fun w : SendWorker => w.unsent.count x) s.workers i w
      (hstep.placed (hc.workers i) x)
    simp only [State.log, Log.fedIds, hstep.fed_eq] at total ⊢
    omega

theorem init_placed : (init cfg R S).Placed := by
  intro x
  simp [init, FeederPC.ids, ReaderPC.ids, SendWorker.unsent, SendWorker.init, Batch.ids,
    Batch.empty, Shared.placed, Chan.new, Log.empty, Log.sentIds, Log.fedIds, State.log]

theorem reach_placed {s : State R S} (h : Reach (step cfg) (init cfg R S) s) : s.Placed :=
  h.invariant init_placed fun _ _ _ reached hs next =>
    (step_cases next).placed (reach_carries reached) hs

def Log.gone (log : Log) : List ℕ := log.released ++ log.lost

def Log.left (log : Log) : List ℕ := log.sentIds ++ log.forfeited

theorem ReaderStep.settled {r : Fin R} {pc pc' : ReaderPC} {sh sh' : Shared R}
    (h : ReaderStep cfg done r pc sh re pc' sh') (x : ℕ) :
    sh'.log.gone.count x + sh.log.left.count x = sh.log.gone.count x + sh'.log.left.count x := by
  cases h with
  | relWin =>
    simp only [Shared.forfeit, Log.gone, Log.left, Log.sentIds, List.count_append]
    omega
  | _ => simp only [Log.gone, Log.left, Shared.drop, Shared.releaseMem, Log.sentIds]

theorem WorkerStep.settled {w w' : SendWorker} {sh sh' : Shared R}
    (h : WorkerStep cfg done w sh we w' sh') (x : ℕ) :
    w'.underway.count x + (sh'.log.gone.count x + sh.log.left.count x) =
      w.underway.count x + (sh.log.gone.count x + sh'.log.left.count x) := by
  cases h with
  | @free hd => cases hm : hd.hasMem <;> rfl
  | abortWin =>
    simp only [SendWorker.underway, Shared.forfeit, Log.gone, Log.left, Log.sentIds,
      List.count_append]
    omega
  | sendOk =>
    simp only [SendWorker.underway, sendBatch, if_true, Log.gone, Log.left, Log.sentIds,
      List.flatMap_append, List.flatMap_cons, List.flatMap_nil, List.count_append, List.count_nil]
    omega
  | ackTake hp ha hk =>
    simp only [SendWorker.underway, ha, hk, AckPC.ids, List.flatten_cons, List.count_append,
      List.count_nil]
    omega
  | ackEof hp ha | ackFail hp ha | ackDone hp ha =>
    simp only [SendWorker.underway, SendWorker.exitAck, ha, AckPC.ids]
  | ackRelease hp ha =>
    simp only [SendWorker.underway, ha, AckPC.ids, Shared.releaseAck, Log.gone, Log.left,
      Log.sentIds, List.count_append, List.count_cons, List.count_nil]
    omega
  | ackLoop hp ha => simp only [SendWorker.underway, ha, AckPC.ids]
  | handlerTake hh hq =>
    simp only [SendWorker.underway, hh, hq, Handler.ids, List.flatMap_cons, List.count_append,
      List.count_nil]
    omega
  | handlerEof hh | handlerFail hh => simp only [SendWorker.underway, hh, Handler.ids]
  | handlerWrite hh => simp only [SendWorker.underway, hh, Handler.ids, Log.gone, Log.left,
      Log.sentIds]
  | @handlerAck ids hh =>
    have acks : (if ids.length > 0 then w.stream.acks ++ [ids] else w.stream.acks).flatten =
        w.stream.acks.flatten ++ ids := by
      cases ids <;> simp
    simp only [SendWorker.underway, hh, acks, Handler.ids, Log.gone, Log.left, Log.sentIds,
      List.count_append, List.count_nil]
    omega
  | handlerLose hh =>
    simp only [SendWorker.underway, hh, Handler.ids, Log.gone, Log.left, Log.sentIds,
      List.count_append, List.count_nil]
    omega
  | _ => rfl

def State.Settled (s : State R S) : Prop :=
  ∀ x, ∑ i, (s.workers i).underway.count x + s.log.gone.count x = s.log.left.count x

theorem PipelineStep.settled {s s' : State R S} (h : PipelineStep cfg s a s') (hs : s.Settled) :
    s'.Settled := by
  intro x
  have total := hs x
  cases h with
  | reader hstep =>
    have local_eq := hstep.settled x
    simp only [State.log] at total ⊢
    omega
  | @worker i e w sh hstep =>
    have family := sum_update_exchange (fun w : SendWorker => w.underway.count x) s.workers i w
      (hstep.settled x)
    simp only [State.log] at total ⊢
    omega
  | _ => exact total

theorem reach_settled {s : State R S} (h : Reach (step cfg) (init cfg R S) s) : s.Settled := by
  refine h.invariant ?_ fun _ _ _ _ hs next => (step_cases next).settled hs
  intro x
  simp [init, SendWorker.underway, SendWorker.init, Handler.ids, AckPC.ids, Log.gone, Log.left,
    Log.sentIds, Log.empty, State.log]

def SendWorker.unreleased (w : SendWorker) : List ℕ := w.stream.acks.flatten ++ w.ack.ids

theorem ReaderStep.acked {r : Fin R} {pc pc' : ReaderPC} {sh sh' : Shared R}
    (h : ReaderStep cfg done r pc sh re pc' sh') (x : ℕ) :
    sh'.log.released.count x + (sh.log.acked ++ sh.log.forfeited).count x =
      sh.log.released.count x + (sh'.log.acked ++ sh'.log.forfeited).count x := by
  cases h with
  | relWin =>
    simp only [Shared.forfeit, List.count_append]
    omega
  | _ => rfl

theorem WorkerStep.acked {w w' : SendWorker} {sh sh' : Shared R}
    (h : WorkerStep cfg done w sh we w' sh') (x : ℕ) :
    w'.unreleased.count x +
        (sh'.log.released.count x + (sh.log.acked ++ sh.log.forfeited).count x) =
      w.unreleased.count x +
        (sh.log.released.count x + (sh'.log.acked ++ sh'.log.forfeited).count x) := by
  cases h with
  | @free hd => cases hm : hd.hasMem <;> rfl
  | abortWin =>
    simp only [SendWorker.unreleased, Shared.forfeit, List.count_append]
    omega
  | ackTake hp ha hk =>
    simp only [SendWorker.unreleased, ha, hk, AckPC.ids, List.flatten_cons, List.count_append,
      List.count_nil]
    omega
  | ackEof hp ha | ackFail hp ha | ackDone hp ha =>
    simp only [SendWorker.unreleased, SendWorker.exitAck, ha, AckPC.ids]
  | ackRelease hp ha =>
    simp only [SendWorker.unreleased, ha, AckPC.ids, Shared.releaseAck, List.count_append,
      List.count_cons, List.count_nil]
    omega
  | ackLoop hp ha => simp only [SendWorker.unreleased, ha, AckPC.ids]
  | @handlerAck ids hh =>
    have acks : (if ids.length > 0 then w.stream.acks ++ [ids] else w.stream.acks).flatten =
        w.stream.acks.flatten ++ ids := by
      cases ids <;> simp
    simp only [SendWorker.unreleased, acks, List.count_append]
    omega
  | _ => rfl

def State.Acked (s : State R S) : Prop :=
  ∀ x, ∑ i, (s.workers i).unreleased.count x + s.log.released.count x =
    (s.log.acked ++ s.log.forfeited).count x

theorem PipelineStep.acked {s s' : State R S} (h : PipelineStep cfg s a s') (hs : s.Acked) :
    s'.Acked := by
  intro x
  have total := hs x
  cases h with
  | @reader r e pc sh hstep =>
    have local_eq := hstep.acked x
    simp only [State.log] at total ⊢
    omega
  | @worker i e w sh hstep =>
    have family := sum_update_exchange (fun w : SendWorker => w.unreleased.count x) s.workers i w
      (hstep.acked x)
    simp only [State.log] at total ⊢
    omega
  | _ => exact total

theorem reach_acked {s : State R S} (h : Reach (step cfg) (init cfg R S) s) : s.Acked := by
  refine h.invariant ?_ fun _ _ _ _ hs next => (step_cases next).acked hs
  intro x
  simp [init, SendWorker.unreleased, SendWorker.init, AckPC.ids, Log.empty, State.log]

def Handler.todo : Handler → List ChangedBlock
  | .write todo _ => todo
  | _ => []

def SendWorker.unwritten (w : SendWorker) : List ChangedBlock :=
  w.stream.reqs.flatMap (·.blocks) ++ w.stream.handler.todo

def Log.sentBlocks (log : Log) : List ChangedBlock := log.sent.flatMap (·.blocks)

def Log.handled (log : Log) : List ChangedBlock := log.applied ++ log.unapplied

theorem WorkerStep.written {w w' : SendWorker} {sh sh' : Shared R}
    (h : WorkerStep cfg done w sh we w' sh') (b : ChangedBlock) :
    w'.unwritten.count b + (sh'.log.handled.count b + sh.log.sentBlocks.count b) =
      w.unwritten.count b + (sh.log.handled.count b + sh'.log.sentBlocks.count b) := by
  cases h with
  | @free hd => cases hm : hd.hasMem <;> rfl
  | sendOk =>
    simp only [SendWorker.unwritten, sendBatch, if_true, Log.handled, Log.sentBlocks,
      List.flatMap_append, List.flatMap_cons, List.flatMap_nil, List.count_append, List.count_nil]
    omega
  | handlerTake hh hq =>
    simp only [SendWorker.unwritten, hh, hq, Handler.todo, List.flatMap_cons, List.count_append,
      List.count_nil]
    omega
  | handlerEof hh | handlerFail hh => simp only [SendWorker.unwritten, hh, Handler.todo]
  | handlerWrite hh =>
    simp only [SendWorker.unwritten, hh, Handler.todo, Log.handled, Log.sentBlocks,
      List.count_append, List.count_cons, List.count_nil]
    omega
  | handlerAck hh => simp only [SendWorker.unwritten, hh, Handler.todo, Log.handled, Log.sentBlocks]
  | handlerLose hh =>
    simp only [SendWorker.unwritten, hh, Handler.todo, Log.handled, Log.sentBlocks,
      List.count_append, List.count_nil]
    omega
  | _ => rfl

theorem ReaderStep.written {r : Fin R} {pc pc' : ReaderPC} {sh sh' : Shared R}
    (h : ReaderStep cfg done r pc sh re pc' sh') :
    sh'.log.handled = sh.log.handled ∧ sh'.log.sentBlocks = sh.log.sentBlocks := by
  cases h <;> exact ⟨rfl, rfl⟩

def State.Written (s : State R S) : Prop :=
  ∀ b, ∑ i, (s.workers i).unwritten.count b + s.log.handled.count b = s.log.sentBlocks.count b

theorem PipelineStep.written {s s' : State R S} (h : PipelineStep cfg s a s') (hs : s.Written) :
    s'.Written := by
  intro b
  have total := hs b
  cases h with
  | reader hstep =>
    simp only [State.log, hstep.written.1, hstep.written.2] at total ⊢
    exact total
  | @worker i e w sh hstep =>
    have family := sum_update_exchange (fun w : SendWorker => w.unwritten.count b) s.workers i w
      (hstep.written b)
    simp only [State.log] at total ⊢
    omega
  | _ => exact total

theorem reach_written {s : State R S} (h : Reach (step cfg) (init cfg R S) s) : s.Written := by
  refine h.invariant ?_ fun _ _ _ _ hs next => (step_cases next).written hs
  intro b
  simp [init, SendWorker.unwritten, SendWorker.init, Handler.todo, Log.handled, Log.sentBlocks,
    Log.empty, State.log]

def ReaderPC.unread : ReaderPC → List ℕ
  | .memAcquire c | .memWait c | .winAcquire c | .winWait c | .read c => [c.reqID]
  | _ => []

def Shared.readIds (sh : Shared R) : List ℕ :=
  sh.chunkCh.buf.map (·.reqID) ++ sh.log.reads.map (·.1)

theorem ReaderStep.unread_le {r : Fin R} {pc pc' : ReaderPC} {sh sh' : Shared R}
    (h : ReaderStep cfg done r pc sh re pc' sh') (x : ℕ) :
    pc'.unread.count x + sh'.readIds.count x ≤ pc.unread.count x + sh.readIds.count x := by
  have after : ∀ c : Chunk, (afterWin c).unread.count x ≤ [c.reqID].count x := by
    intro c
    unfold afterWin
    split <;> simp [ReaderPC.unread]
  cases h with
  | recvZero hb | recvData hb =>
    simp only [ReaderPC.unread, Shared.readIds, hb, List.map_cons, List.count_append,
      List.count_cons, List.count_nil]
    omega
  | winTake | winWoken => exact Nat.add_le_add_right (after _) _
  | readZero | readData =>
    simp only [ReaderPC.unread, Shared.readIds, List.map_append, List.map_cons, List.map_nil,
      List.count_append, List.count_nil]
    omega
  | memGiveUp | winGiveUp | readFail =>
    simp only [ReaderPC.unread, Shared.readIds, Shared.drop, List.count_nil]
    omega
  | _ => exact le_rfl

theorem WorkerStep.readIds_le {w w' : SendWorker} {sh sh' : Shared R}
    (h : WorkerStep cfg done w sh we w' sh') (x : ℕ) :
    sh'.readIds.count x ≤ sh.readIds.count x := by
  cases h with
  | @free hd => cases hm : hd.hasMem <;> exact le_rfl
  | _ => exact le_rfl

def State.ReadOnce (s : State R S) : Prop :=
  ∀ x, s.feeder.ids.count x + ∑ r, (s.readers r).unread.count x + s.shared.readIds.count x ≤
    s.log.fedIds.count x

theorem PipelineStep.readOnce {s s' : State R S} (h : PipelineStep cfg s a s') (hs : s.ReadOnce) :
    s'.ReadOnce := by
  intro x
  have total := hs x
  cases h with
  | next hf =>
    simp only [hf, FeederPC.ids, Shared.readIds, Log.fedIds, State.log, List.map_append,
      List.map_cons, List.map_nil, List.count_append, List.count_nil, feederChunk] at total ⊢
    omega
  | nextEnd hf =>
    rw [hf] at total
    exact total
  | feed hf =>
    simp only [hf, FeederPC.ids, Shared.readIds, Chan.send, State.log, List.map_append,
      List.map_cons, List.map_nil, List.count_append, List.count_nil] at total ⊢
    omega
  | feedDone hf =>
    simp only [hf, FeederPC.ids, Shared.readIds, Shared.drop, State.exitFeeder, Chan.close,
      Log.fedIds, State.log, List.count_append, List.count_nil] at total ⊢
    omega
  | @reader r e pc sh hstep =>
    have family := sum_update_add (fun pc : ReaderPC => pc.unread.count x) s.readers r pc
    have mine := hstep.unread_le x
    simp only [State.log, Log.fedIds, hstep.fed_eq] at total ⊢
    omega
  | worker hstep =>
    have ids := hstep.readIds_le x
    simp only [State.log, Log.fedIds, hstep.fed_eq] at total ⊢
    omega
  | _ => exact total

theorem reach_readOnce {s : State R S} (h : Reach (step cfg) (init cfg R S) s) : s.ReadOnce := by
  refine h.invariant ?_ fun _ _ _ _ hs next => (step_cases next).readOnce hs
  intro x
  simp [init, FeederPC.ids, ReaderPC.unread, Shared.readIds, Chan.new, Log.empty]

end CephVolsync.Pipeline
