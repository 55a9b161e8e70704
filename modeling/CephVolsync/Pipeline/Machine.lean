import CephVolsync.Basic
import CephVolsync.Library.IndexedFamily
import CephVolsync.Library.TransitionSystem
import CephVolsync.Pipeline.Config
import CephVolsync.Pipeline.Semaphore

/-! The concurrent pipeline `Pipeline.Run` (`pipeline.go`, `stage_read.go`,
`stage_send_data.go`, `held.go`) as a transition system over its goroutines.

One action is one channel operation, one section under a semaphore's mutex, one call of
the reader or one message of a gRPC stream; the schedule chooses the goroutine and, in a
`select` with several ready cases, the case. The block iterator, the reader and the
network are the environment: what they return is part of the action. Each `Write` stream
carries the state of its destination handler. Statistics counters are left out, they
influence nothing. -/

namespace CephVolsync.Pipeline

open Function

structure ChangeBlock where
  filePath : GoString
  offset : ℕ
  len : ℕ
  reqID : ℕ
  totalSize : ℤ
  isZero : Bool
  deriving DecidableEq, Repr

structure Chunk where
  reqID : ℕ
  filePath : GoString
  offset : ℕ
  length : ℕ
  totalSize : ℤ
  isZero : Bool
  deriving DecidableEq, Repr

/-- Semaphore resources owned by a chunk on its way through the pipeline. -/
structure Held where
  reqID : ℕ
  memRawN : ℤ
  hasWin : Bool
  hasMem : Bool
  deriving DecidableEq, Repr

structure ReadChunk where
  reqID : ℕ
  filePath : GoString
  offset : ℕ
  length : ℕ
  data : List UInt8
  isZero : Bool
  totalSize : ℤ
  held : Held
  deriving DecidableEq, Repr

structure ChangedBlock where
  requestId : ℕ
  filePath : GoString
  totalSize : ℕ
  offset : ℕ
  length : ℕ
  isZero : Bool
  data : List UInt8
  deriving DecidableEq, Repr

structure WriteRequest where
  blocks : List ChangedBlock
  deriving DecidableEq, Repr

inductive Err where
  | ctx
  | read (reqID : ℕ)
  | openStream
  | send
  | recvAck
  deriving DecidableEq, Repr

def feederChunk (b : ChangeBlock) : Chunk :=
  ⟨b.reqID, b.filePath, b.offset, b.len, b.totalSize, b.isZero⟩

def isAllZero (data : List UInt8) : Bool := data.all (· == 0)

def acquireSize (cfg : Config) (c : Chunk) : ℤ := min (c.length : ℤ) cfg.chunkSize

/-- The chunk a read worker emits for a block marked zero or read as zeros. -/
def zeroChunk (c : Chunk) : ReadChunk :=
  { reqID := c.reqID, filePath := c.filePath, offset := c.offset, length := c.length, data := [],
    isZero := true, totalSize := c.totalSize, held := ⟨c.reqID, 0, true, false⟩ }

def dataChunk (cfg : Config) (c : Chunk) (data : List UInt8) : ReadChunk :=
  { reqID := c.reqID, filePath := c.filePath, offset := c.offset, length := data.length,
    data := data, isZero := false, totalSize := c.totalSize,
    held := ⟨c.reqID, acquireSize cfg c, true, true⟩ }

def changedBlock (cc : ReadChunk) : ChangedBlock :=
  ⟨cc.reqID, cc.filePath, uint64 cc.totalSize, cc.offset, cc.length, cc.isZero, cc.data⟩

/-- History of a run: what crossed the boundary of the pipeline and what became of each
request id. No goroutine reads it. -/
structure Log where
  fed : List ChangeBlock
  reads : List (ℕ × List UInt8)
  sent : List WriteRequest
  applied : List ChangedBlock
  acked : List ℕ
  released : List ℕ
  forfeited : List ℕ
  dropped : List ℕ
  lost : List ℕ
  unapplied : List ChangedBlock

def Log.empty : Log := ⟨[], [], [], [], [], [], [], [], [], []⟩

structure Shared (R : ℕ) where
  chunkCh : Chan Chunk
  readCh : Chan ReadChunk
  mem : MemSemaphore (Fin R)
  win : WindowSemaphore (Fin R)
  log : Log

inductive Branch where
  | ready
  | ctxDone
  deriving DecidableEq, Repr

inductive FeederPC where
  | next
  | send (c : Chunk)
  | exit (err : Option Err)
  deriving DecidableEq, Repr

/-- Where a read worker stands. `releasing` is the release of what it holds on its way
out with an error: first memory, then the window slot. -/
inductive ReaderPC where
  | recv
  | memAcquire (c : Chunk)
  | memWait (c : Chunk)
  | winAcquire (c : Chunk)
  | winWait (c : Chunk)
  | read (c : Chunk)
  | freeMem (c : Chunk)
  | emit (rc : ReadChunk)
  | releasing (h : Held) (err : Err)
  | exit (err : Option Err)
  deriving DecidableEq, Repr

namespace Shared

variable {R : ℕ}

def releaseMem (sh : Shared R) (n : ℤ) : Shared R := { sh with mem := sh.mem.release n }

def releaseAck (sh : Shared R) (id : ℕ) : Shared R :=
  { sh with win := sh.win.release id, log := { sh.log with released := sh.log.released ++ [id] } }

/-- `win.Release` on an error or cancellation path: the slot is given back unacknowledged. -/
def forfeit (sh : Shared R) (id : ℕ) : Shared R :=
  { sh with
    win := sh.win.release id
    log := { sh.log with
      released := sh.log.released ++ [id], forfeited := sh.log.forfeited ++ [id] } }

def drop (sh : Shared R) (id : ℕ) : Shared R :=
  { sh with log := { sh.log with dropped := sh.log.dropped ++ [id] } }

end Shared

inductive ReaderEvent where
  | select (b : Branch)
  | data (res : Option (List UInt8))
  deriving DecidableEq, Repr

/-- The window slot is acquired: a zero block is emitted at once, another one is read. -/
def afterWin (c : Chunk) : ReaderPC := if c.isZero then .emit (zeroChunk c) else .read c

/-- One action of read worker `r`; `done` is the state of its context. -/
def readWorker {R : ℕ} (cfg : Config) (done : Bool) (r : Fin R) (sh : Shared R) :
    ReaderPC → ReaderEvent → Option (ReaderPC × Shared R)
  | .recv, .select .ready =>
    match sh.chunkCh.buf with
    | c :: rest =>
      some (if c.isZero then .winAcquire c else .memAcquire c,
        { sh with chunkCh := { sh.chunkCh with buf := rest } })
    | [] => if sh.chunkCh.closed then some (.exit none, sh) else none
  | .recv, .select .ctxDone => if done then some (.exit (some .ctx), sh) else none
  | .memAcquire c, .select .ready =>
    let m := sh.mem.acquire (acquireSize cfg c) r
    some (if m.2 then .winAcquire c else .memWait c, { sh with mem := m.1 })
  | .memWait c, .select .ready =>
    if r ∈ sh.mem.closed then some (.winAcquire c, { sh with mem := sh.mem.leave r }) else none
  | .memWait c, .select .ctxDone =>
    if done then
      if r ∈ sh.mem.closed then some (.winAcquire c, { sh with mem := sh.mem.leave r })
      else some (.exit (some .ctx), { sh with mem := sh.mem.remove r }.drop c.reqID)
    else none
  | .winAcquire c, .select .ready =>
    let w := sh.win.acquire c.reqID r
    some (if w.2 then afterWin c else .winWait c, { sh with win := w.1 })
  | .winWait c, .select .ready =>
    if r ∈ sh.win.closed then some (afterWin c, { sh with win := sh.win.leave r }) else none
  | .winWait c, .select .ctxDone =>
    if done then
      if r ∈ sh.win.closed then some (afterWin c, { sh with win := sh.win.leave r })
      else
        some (.releasing ⟨c.reqID, acquireSize cfg c, false, !c.isZero⟩ .ctx,
          { sh with win := sh.win.remove r }.drop c.reqID)
    else none
  | .read c, .data none =>
    some (.releasing ⟨c.reqID, acquireSize cfg c, true, true⟩ (.read c.reqID), sh)
  | .read c, .data (some bytes) =>
    some (if isAllZero bytes then .freeMem c else .emit (dataChunk cfg c bytes),
      { sh with log := { sh.log with reads := sh.log.reads ++ [(c.reqID, bytes)] } })
  | .freeMem c, .select .ready => some (.emit (zeroChunk c), sh.releaseMem (acquireSize cfg c))
  | .emit rc, .select .ready =>
    if sh.readCh.buf.length < cfg.readChanBuf.toNat then
      some (.recv, { sh with readCh := sh.readCh.send rc })
    else none
  | .emit rc, .select .ctxDone => if done then some (.releasing rc.held .ctx, sh) else none
  | .releasing h err, .select .ready =>
    if h.hasMem then some (.releasing { h with hasMem := false } err, sh.releaseMem h.memRawN)
    else if h.hasWin then some (.releasing { h with hasWin := false } err, sh.forfeit h.reqID)
    else some (.exit (some err), sh)
  | _, _ => none

/-- The batch of `dataSender`: `blocks` and `pending` grow and shrink together and are
kept zipped. -/
structure Batch where
  entries : List (ChangedBlock × Held)
  accum : ℕ
  deriving DecidableEq, Repr

def Batch.empty : Batch := ⟨[], 0⟩

def Batch.append (b : Batch) (cc : ReadChunk) : Batch :=
  ⟨b.entries ++ [(changedBlock cc, cc.held)], b.accum + cc.data.length⟩

def Batch.overflows (cfg : Config) (b : Batch) (cc : ReadChunk) : Bool :=
  b.entries.length > 0 ∧
    (((b.accum + cc.data.length : ℕ) : ℤ) ≥ cfg.dataBatchMaxBytes ∨
      (b.entries.length : ℤ) ≥ cfg.dataBatchMaxCount)

/-- Where `dataSender` stands. `next` is the chunk that made the batch overflow, none at
the final flush; `sent` and `abort` walk over `pending` after the `Send`. -/
inductive SenderPC where
  | recv
  | send (next : Option ReadChunk)
  | sent (todo : List Held) (next : Option ReadChunk)
  | abort (todo : List Held) (err : Err)
  | exit (err : Option Err)
  deriving DecidableEq, Repr

inductive AckPC where
  | recv
  | release (ids : List ℕ)
  | exit (err : Option Err)
  deriving DecidableEq, Repr

/-- The destination's `Write` handler of one stream: it writes the blocks of a request one
after the other and acknowledges the request as a whole. -/
inductive Handler where
  | recv
  | write (todo : List ChangedBlock) (ids : List ℕ)
  | ended (ok : Bool)
  deriving DecidableEq, Repr

/-- One `Write` stream: requests under way, the handler, acknowledgements under way. -/
structure Stream where
  reqs : List WriteRequest
  closeSend : Bool
  handler : Handler
  acks : List (List ℕ)
  deriving DecidableEq, Repr

inductive WorkerPC where
  | opening
  | running
  | exit (err : Option Err)
  deriving DecidableEq, Repr

/-- One goroutine of `StageSendData` with its `dataSender`, its `ackReceiver` and the
first error of their group. -/
structure SendWorker where
  pc : WorkerPC
  sender : SenderPC
  batch : Batch
  ack : AckPC
  groupErr : Option Err
  stream : Stream
  deriving DecidableEq, Repr

def SendWorker.init : SendWorker :=
  ⟨.opening, .recv, .empty, .recv, none, ⟨[], false, .recv, []⟩⟩

/-- The deferred `CloseSend` runs as the sender returns. -/
def SendWorker.exitSender (w : SendWorker) (err : Option Err) : SendWorker :=
  { w with
    sender := .exit err
    groupErr := w.groupErr.or err
    stream := { w.stream with closeSend := true } }

def SendWorker.exitAck (w : SendWorker) (err : Option Err) : SendWorker :=
  { w with ack := .exit err, groupErr := w.groupErr.or err }

/-- `held.release` on the head of a list: memory first, then the window slot. -/
def releaseHead {R : ℕ} (sh : Shared R) (h : Held) (todo : List Held) : List Held × Shared R :=
  if h.hasMem then ({ h with hasMem := false } :: todo, sh.releaseMem h.memRawN)
  else if h.hasWin then (todo, sh.forfeit h.reqID)
  else (todo, sh)

def dataSender {R : ℕ} (cfg : Config) (done : Bool) (w : SendWorker) (sh : Shared R) :
    SenderPC → Branch → Option (SendWorker × Shared R)
  | .recv, .ready =>
    match sh.readCh.buf with
    | cc :: rest =>
      let sh' := { sh with readCh := { sh.readCh with buf := rest } }
      if w.batch.overflows cfg cc then some ({ w with sender := .send (some cc) }, sh')
      else some ({ w with batch := w.batch.append cc }, sh')
    | [] =>
      if sh.readCh.closed then
        if w.batch.entries = [] then some (w.exitSender none, sh)
        else some ({ w with sender := .send none }, sh)
      else none
  | .recv, .ctxDone =>
    if done then some ({ w with sender := .abort (w.batch.entries.map (·.2)) .ctx }, sh) else none
  | .sent (h :: todo) next, .ready =>
    some ({ w with sender := .sent todo next }, if h.hasMem then sh.releaseMem h.memRawN else sh)
  | .sent [] (some cc), .ready =>
    some ({ w with sender := .recv, batch := Batch.empty.append cc }, sh)
  | .sent [] none, .ready => some (({ w with batch := .empty } : SendWorker).exitSender none, sh)
  | .abort (h :: todo) err, .ready =>
    let r := releaseHead sh h todo
    some ({ w with sender := .abort r.1 err }, r.2)
  | .abort [] err, .ready => some (w.exitSender (some err), sh)
  | _, _ => none

def sendBatch {R : ℕ} (w : SendWorker) (sh : Shared R) (next : Option ReadChunk) (ok : Bool) :
    SendWorker × Shared R :=
  let req : WriteRequest := ⟨w.batch.entries.map (·.1)⟩
  if ok then
    ({ w with
        sender := .sent (w.batch.entries.map (·.2)) next
        stream := { w.stream with reqs := w.stream.reqs ++ [req] } },
      { sh with log := { sh.log with sent := sh.log.sent ++ [req] } })
  else
    ({ w with
        sender := .abort (w.batch.entries.map (·.2) ++ (next.map (·.held)).toList) .send }, sh)

def ackReceiver {R : ℕ} (done : Bool) (w : SendWorker) (sh : Shared R) :
    AckPC → Branch → Option (SendWorker × Shared R)
  | .recv, .ready =>
    match w.stream.acks with
    | ids :: rest =>
      some ({ w with ack := .release ids, stream := { w.stream with acks := rest } }, sh)
    | [] =>
      match w.stream.handler with
      | .ended true => some (w.exitAck none, sh)
      | .ended false => some (w.exitAck (some .recvAck), sh)
      | _ => none
  | .recv, .ctxDone => if done then some (w.exitAck (some .ctx), sh) else none
  | .release (id :: ids), .ready => some ({ w with ack := .release ids }, sh.releaseAck id)
  | .release [], .ready => some ({ w with ack := .recv }, sh)
  | _, _ => none

def collectRequestIDs (blocks : List ChangedBlock) : List ℕ := blocks.map (·.requestId)

def handleWrite {R : ℕ} (st : Stream) (sh : Shared R) : Handler → Option (Stream × Shared R)
  | .recv =>
    match st.reqs with
    | req :: rest =>
      some ({ st with
        reqs := rest, handler := .write req.blocks (collectRequestIDs req.blocks) }, sh)
    | [] => if st.closeSend then some ({ st with handler := .ended true }, sh) else none
  | .write (b :: todo) ids =>
    some ({ st with handler := .write todo ids },
      { sh with log := { sh.log with applied := sh.log.applied ++ [b] } })
  | .write [] ids =>
    some ({ st with
        handler := .recv, acks := if ids.length > 0 then st.acks ++ [ids] else st.acks },
      { sh with log := { sh.log with acked := sh.log.acked ++ ids } })
  | .ended _ => none

/-- The handler or the connection fails: the stream ends with an error. -/
def failHandler {R : ℕ} (st : Stream) (sh : Shared R) : Handler → Option (Stream × Shared R)
  | .recv => some ({ st with handler := .ended false }, sh)
  | .write todo ids =>
    some ({ st with handler := .ended false },
      { sh with log := { sh.log with
          lost := sh.log.lost ++ ids, unapplied := sh.log.unapplied ++ todo } })
  | .ended _ => none

inductive WorkerEvent where
  | open (ok : Bool)
  | sender (b : Branch)
  | send (ok : Bool)
  | ack (b : Branch)
  | recvErr
  | handler
  | handlerFail
  | ret
  deriving DecidableEq, Repr

def sendWorker {R : ℕ} (cfg : Config) (done : Bool) (w : SendWorker) (sh : Shared R) :
    WorkerPC → WorkerEvent → Option (SendWorker × Shared R)
  | .opening, .open ok =>
    some ({ w with pc := if ok then .running else .exit (some .openStream) }, sh)
  | .running, .sender b => dataSender cfg (done || w.groupErr.isSome) w sh w.sender b
  | .running, .send ok =>
    match w.sender with
    | .send next => some (sendBatch w sh next ok)
    | _ => none
  | .running, .ack b => ackReceiver (done || w.groupErr.isSome) w sh w.ack b
  | .running, .recvErr =>
    match w.ack with
    | .recv => some (w.exitAck (some .recvAck), sh)
    | _ => none
  | .running, .ret =>
    match w.sender, w.ack with
    | .exit _, .exit _ => some ({ w with pc := .exit w.groupErr }, sh)
    | _, _ => none
  | _, .handler =>
    (handleWrite w.stream sh w.stream.handler).map fun p => ({ w with stream := p.1 }, p.2)
  | _, .handlerFail =>
    (failHandler w.stream sh w.stream.handler).map fun p => ({ w with stream := p.1 }, p.2)
  | _, _ => none

def ReaderPC.exitErr : ReaderPC → Option Err
  | .exit err => err
  | _ => none

def ReaderPC.exited : ReaderPC → Bool
  | .exit _ => true
  | _ => false

def SendWorker.exitErr (w : SendWorker) : Option Err :=
  match w.pc with
  | .exit err => err
  | _ => none

def SendWorker.exited (w : SendWorker) : Bool :=
  match w.pc with
  | .exit _ => true
  | _ => false

/-- The whole pipeline. `stageRead` and `stageSend` hold what the stage returned;
`readErr`, `sendErr` and `runErr` are the first errors of the three errgroups. -/
structure State (R S : ℕ) where
  ctxDone : Bool
  feeder : FeederPC
  readers : Fin R → ReaderPC
  readErr : Option Err
  stageRead : Option (Option Err)
  workers : Fin S → SendWorker
  sendErr : Option Err
  stageSend : Option (Option Err)
  runErr : Option Err
  returned : Bool
  shared : Shared R

namespace State

variable {R S : ℕ}

/-- Context of the errgroup in `Run`. -/
def runDone (s : State R S) : Bool := s.ctxDone || s.runErr.isSome

/-- Context of the errgroup in `StageRead`. -/
def readDone (s : State R S) : Bool := s.runDone || s.readErr.isSome

/-- Context of the errgroup in `StageSendData`. -/
def sendDone (s : State R S) : Bool := s.runDone || s.sendErr.isSome

def log (s : State R S) : Log := s.shared.log

end State

/-- The actions of the pipeline and its surroundings. `cancel` is the caller's context and
`takeRelease` a receive from `ReleaseChan` by whoever shares the window. -/
inductive Action (R S : ℕ) where
  | cancel
  | iterNext (b : Option ChangeBlock)
  | feeder (b : Branch)
  | reader (r : Fin R) (e : ReaderEvent)
  | stageRead
  | worker (i : Fin S) (e : WorkerEvent)
  | stageSend
  | run
  | takeRelease
  deriving DecidableEq, Repr

/-- The feeder returns: `chunkCh` is closed and an error is handed to the group. -/
def State.exitFeeder {R S : ℕ} (s : State R S) (err : Option Err) : State R S :=
  { s with
    feeder := .exit err
    runErr := s.runErr.or err
    shared := { s.shared with chunkCh := s.shared.chunkCh.close } }

def iterNext {R S : ℕ} (s : State R S) : FeederPC → Option ChangeBlock → Option (State R S)
  | .next, some b =>
    some { s with
      feeder := .send (feederChunk b)
      shared := { s.shared with log := { s.shared.log with fed := s.shared.log.fed ++ [b] } } }
  | .next, none => some (s.exitFeeder none)
  | _, _ => none

def feeder {R S : ℕ} (cfg : Config) (s : State R S) : FeederPC → Branch → Option (State R S)
  | .send c, .ready =>
    if s.shared.chunkCh.buf.length < cfg.readChanBuf.toNat then
      some { s with feeder := .next, shared := { s.shared with
        chunkCh := s.shared.chunkCh.send c } }
    else none
  | .send c, .ctxDone =>
    if s.runDone then some ({ s with shared := s.shared.drop c.reqID }.exitFeeder (some .ctx))
    else none
  | _, _ => none

def step {R S : ℕ} (cfg : Config) (s : State R S) : Action R S → Option (State R S)
  | .cancel => some { s with ctxDone := true }
  | .iterNext b => iterNext s s.feeder b
  | .feeder b => feeder cfg s s.feeder b
  | .reader r e =>
    (readWorker cfg s.readDone r s.shared (s.readers r) e).map fun p =>
      { s with
        readers := update s.readers r p.1
        readErr := s.readErr.or p.1.exitErr
        shared := p.2 }
  | .stageRead =>
    if s.stageRead = none ∧ ∀ r, (s.readers r).exited then
      some { s with
        stageRead := some s.readErr
        runErr := s.runErr.or s.readErr
        shared := { s.shared with readCh := s.shared.readCh.close } }
    else none
  | .worker i e =>
    (sendWorker cfg s.sendDone (s.workers i) s.shared (s.workers i).pc e).map fun p =>
      { s with
        workers := update s.workers i p.1
        sendErr := s.sendErr.or p.1.exitErr
        shared := p.2 }
  | .stageSend =>
    if s.stageSend = none ∧ ∀ i, (s.workers i).exited then
      some { s with stageSend := some s.sendErr, runErr := s.runErr.or s.sendErr }
    else none
  | .run =>
    match s.feeder with
    | .exit _ =>
      if s.returned = false ∧ s.stageRead.isSome ∧ s.stageSend.isSome then
        some { s with returned := true }
      else none
    | _ => none
  | .takeRelease =>
    if s.shared.win.releaseCh then
      some { s with shared := { s.shared with win := s.shared.win.takeRelease } }
    else none

def init (cfg : Config) (R S : ℕ) : State R S where
  ctxDone := false
  feeder := .next
  readers := fun _ => .recv
  readErr := none
  stageRead := none
  workers := fun _ => .init
  sendErr := none
  stageSend := none
  runErr := none
  returned := false
  shared := ⟨.new, .new, .new cfg.maxRawMemoryBytes, .new cfg.maxWindow.toNat, .empty⟩

end CephVolsync.Pipeline
