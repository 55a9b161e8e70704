import CephVolsync.Pipeline.Memory

/-! One `dataSender` on its own. Chunks arrive on its channel until the channel is closed;
the ack receiver and the destination's handler take their steps in between. As long as no
`Send` fails and nobody cancels, the requests carry the chunks in order and within the
limits, and the memory of a chunk is released once, behind the `Send` that carried it. -/

namespace CephVolsync.Pipeline

open TransitionSystem

variable {R : ℕ} {cfg : Config}

def maxGRPCMessageSize : ℕ := 20 * 1024 * 1024

inductive SenderAction where
  | arrive (cc : ReadChunk)
  | close
  | worker (e : WorkerEvent)
  deriving DecidableEq, Repr

/-- A send worker whose stream is open, with its channel of chunks. -/
def senderStep (cfg : Config) (q : SendWorker × Shared R) :
    SenderAction → Option (SendWorker × Shared R)
  | .arrive cc =>
    if q.2.readCh.closed then none else some (q.1, { q.2 with readCh := q.2.readCh.send cc })
  | .close =>
    if q.2.readCh.closed then none else some (q.1, { q.2 with readCh := q.2.readCh.close })
  | .worker e => sendWorker cfg false q.1 q.2 q.1.pc e

/-- Every `Send` succeeds and the sender does not see a cancellation. -/
def undisturbed (_ : SendWorker × Shared R) : SenderAction → Bool
  | .worker (.send false) | .worker (.sender .ctxDone) => false
  | _ => true

/-- What happens around a sender: a chunk arrives in its channel, it receives a chunk, sends a
batch, releases the memory of an entry, and the destination takes a request off the stream. -/
inductive SenderEvent where
  | arrived (cc : ReadChunk)
  | received (cc : ReadChunk)
  | sent (entries : List (ChangedBlock × Held))
  | freed (h : Held)
  | delivered (req : WriteRequest)
  deriving DecidableEq, Repr

def senderShows (q : SendWorker × Shared R) : SenderAction → List SenderEvent
  | .arrive cc => [.arrived cc]
  | .worker (.sender .ready) =>
    match q.1.sender with
    | .recv => (q.2.readCh.buf.head?.map SenderEvent.received).toList
    | .sent (h :: _) _ => if h.hasMem then [.freed h] else []
    | _ => []
  | .worker (.send true) => [.sent q.1.batch.entries]
  | .worker .handler =>
    match q.1.stream.handler, q.1.stream.reqs with
    | .recv, req :: _ => [.delivered req]
    | _, _ => []
  | _ => []

def senderRun (cfg : Config) :
    (SendWorker × Shared R) × List SenderEvent → SenderAction →
      Option ((SendWorker × Shared R) × List SenderEvent) :=
  record senderShows (restrict undisturbed (senderStep cfg))

inductive SenderStep (cfg : Config) (w : SendWorker) (sh : Shared R) (history : List SenderEvent) :
    (SendWorker × Shared R) × List SenderEvent → Prop
  | worker {e : WorkerEvent} {w' : SendWorker} {sh' : Shared R} :
      undisturbed (w, sh) (.worker e) = true → WorkerStep cfg false w sh e w' sh' →
      SenderStep cfg w sh history ((w', sh'), history ++ senderShows (w, sh) (.worker e))
  | arrive (cc : ReadChunk) : sh.readCh.closed = false →
      SenderStep cfg w sh history
        ((w, { sh with readCh := sh.readCh.send cc }), history ++ [.arrived cc])
  | close : sh.readCh.closed = false →
      SenderStep cfg w sh history ((w, { sh with readCh := sh.readCh.close }), history ++ [])

theorem senderRun_cases {p p' : (SendWorker × Shared R) × List SenderEvent} {a : SenderAction}
    (h : senderRun cfg p a = some p') : SenderStep cfg p.1.1 p.1.2 p.2 p' := by
  obtain ⟨restricted, history⟩ := record_eq_some.mp h
  obtain ⟨allowed, taken⟩ := restrict_eq_some.mp restricted
  obtain ⟨q, shown⟩ := p'
  obtain rfl : shown = _ := history
  cases a with
  | worker e => exact .worker allowed (sendWorker_step taken)
  | arrive cc | close =>
    simp only [senderStep, Option.ite_none_left_eq_some, Option.some.injEq,
      Bool.not_eq_true] at taken
    obtain ⟨opened, rfl⟩ := taken
    constructor
    exact opened

def senderStart (sh : Shared R) : (SendWorker × Shared R) × List SenderEvent :=
  (({ SendWorker.init with pc := .running }, { sh with readCh := .new }), [])

section History

def arrivedChunks (history : List SenderEvent) : List ReadChunk :=
  history.filterMap fun
    | .arrived cc => some cc
    | _ => none

def receivedChunks (history : List SenderEvent) : List ReadChunk :=
  history.filterMap fun
    | .received cc => some cc
    | _ => none

def sentBatches (history : List SenderEvent) : List (List (ChangedBlock × Held)) :=
  history.filterMap fun
    | .sent entries => some entries
    | _ => none

def sentRequests (history : List SenderEvent) : List WriteRequest :=
  (sentBatches history).map fun entries => ⟨entries.map (·.1)⟩

def freedMemory (history : List SenderEvent) : List Held :=
  history.filterMap fun
    | .freed h => some h
    | _ => none

def deliveredRequests (history : List SenderEvent) : List WriteRequest :=
  history.filterMap fun
    | .delivered req => some req
    | _ => none

@[simp]
theorem arrivedChunks_append (first second : List SenderEvent) :
    arrivedChunks (first ++ second) = arrivedChunks first ++ arrivedChunks second :=
  List.filterMap_append

@[simp]
theorem deliveredRequests_append (first second : List SenderEvent) :
    deliveredRequests (first ++ second) = deliveredRequests first ++ deliveredRequests second :=
  List.filterMap_append

@[simp]
theorem receivedChunks_append (first second : List SenderEvent) :
    receivedChunks (first ++ second) = receivedChunks first ++ receivedChunks second :=
  List.filterMap_append

@[simp]
theorem sentBatches_append (first second : List SenderEvent) :
    sentBatches (first ++ second) = sentBatches first ++ sentBatches second :=
  List.filterMap_append

theorem sentRequests_append (first second : List SenderEvent) :
    sentRequests (first ++ second) = sentRequests first ++ sentRequests second := by
  simp [sentRequests]

@[simp]
theorem freedMemory_append (first second : List SenderEvent) :
    freedMemory (first ++ second) = freedMemory first ++ freedMemory second :=
  List.filterMap_append

end History

def batchEntry (cc : ReadChunk) : ChangedBlock × Held := (changedBlock cc, cc.held)

def SendWorker.kept (w : SendWorker) : List (ChangedBlock × Held) :=
  match w.sender with
  | .recv => w.batch.entries
  | .send next => w.batch.entries ++ next.toList.map batchEntry
  | .sent _ next => next.toList.map batchEntry
  | _ => []

def SendWorker.walked (w : SendWorker) : List Held :=
  match w.sender with
  | .sent todo _ => todo
  | _ => []

def dataBytes (blocks : List ChangedBlock) : ℕ := (blocks.map (·.data.length)).sum

structure WriteRequest.Within (cfg : Config) (req : WriteRequest) : Prop where
  nonempty : req.blocks ≠ []
  count : (req.blocks.length : ℤ) ≤ cfg.dataBatchMaxCount
  bytes : 2 ≤ req.blocks.length → (dataBytes req.blocks : ℤ) < cfg.dataBatchMaxBytes

structure Batch.Filled (cfg : Config) (b : Batch) : Prop where
  accum : b.accum = dataBytes (b.entries.map (·.1))
  count : (b.entries.length : ℤ) ≤ cfg.dataBatchMaxCount
  bytes : 2 ≤ b.entries.length → (b.accum : ℤ) < cfg.dataBatchMaxBytes

theorem dataBytes_append (first second : List ChangedBlock) :
    dataBytes (first ++ second) = dataBytes first + dataBytes second := by
  simp [dataBytes]

theorem Batch.Filled.empty (hcount : 0 < cfg.dataBatchMaxCount) : Batch.empty.Filled cfg :=
  ⟨rfl, hcount.le, by simp [Batch.empty]⟩

theorem Batch.Filled.append {b : Batch} {cc : ReadChunk} (h : b.Filled cfg)
    (hcount : 0 < cfg.dataBatchMaxCount) (fits : b.overflows cfg cc = false) :
    (b.append cc).Filled cfg := by
  have accum : (b.append cc).accum = dataBytes ((b.append cc).entries.map (·.1)) := by
    simp only [Batch.append, List.map_append, dataBytes_append, h.accum]
    rfl
  simp only [Batch.overflows, decide_eq_false_iff_not, not_and, not_or] at fits
  refine ⟨accum, ?_, fun two => ?_⟩
  · simp only [Batch.append, List.length_append, List.length_singleton]
    by_cases first : 0 < b.entries.length
    · have := fits first
      omega
    · omega
  · simp only [Batch.append, List.length_append, List.length_singleton] at two ⊢
    have := fits (by omega)
    omega

theorem Batch.Filled.within {b : Batch} (h : b.Filled cfg) (ne : b.entries ≠ []) :
    WriteRequest.Within cfg ⟨b.entries.map (·.1)⟩ where
  nonempty := by simpa using ne
  count := by simpa using h.count
  bytes := by simpa [← h.accum] using h.bytes

/-- Nothing is lost or sent twice, and the walk over `pending` releases what was sent. -/
structure SendWorker.Lossless (cfg : Config) (w : SendWorker) (history : List SenderEvent) :
    Prop where
  order : (sentBatches history).flatten ++ w.kept = (receivedChunks history).map batchEntry
  memory : freedMemory history ++ w.walked.filter (·.hasMem) =
    ((sentBatches history).flatten.map (·.2)).filter (·.hasMem)
  limits : ∀ req ∈ sentRequests history, req.Within cfg
  batch : ∀ next, w.sender = .recv ∨ w.sender = .send next → w.batch.Filled cfg
  sending : ∀ next, w.sender = .send next → w.batch.entries ≠ []
  abort : ∀ todo err, w.sender ≠ .abort todo err
  exit : ∀ err, w.sender ≠ .exit (some err)

/-- The history of a sender that has received `kept` and not sent it, and that has sent
`walked` and not looked at its memory. -/
structure SenderLedger (cfg : Config) (history : List SenderEvent)
    (kept : List (ChangedBlock × Held))
    (walked : List Held) : Prop where
  order : (sentBatches history).flatten ++ kept = (receivedChunks history).map batchEntry
  memory : freedMemory history ++ walked.filter (·.hasMem) =
    ((sentBatches history).flatten.map (·.2)).filter (·.hasMem)
  limits : ∀ req ∈ sentRequests history, req.Within cfg

namespace SenderLedger

variable {history : List SenderEvent} {kept entries : List (ChangedBlock × Held)}
  {walked : List Held}

theorem received (h : SenderLedger cfg history kept walked) (cc : ReadChunk) :
    SenderLedger cfg (history ++ [.received cc]) (kept ++ [batchEntry cc]) walked := by
  have batches : sentBatches (history ++ [.received cc]) = sentBatches history := by
    rw [sentBatches_append]
    exact List.append_nil _
  have freed : freedMemory (history ++ [.received cc]) = freedMemory history := by
    rw [freedMemory_append]
    exact List.append_nil _
  refine ⟨?_, ?_, ?_⟩
  · rw [batches, receivedChunks_append, List.map_append, ← h.order, List.append_assoc]
    rfl
  · rw [batches, freed]
    exact h.memory
  · rw [sentRequests, batches]
    exact h.limits

theorem sent (h : SenderLedger cfg history (entries ++ kept) [])
    (within : WriteRequest.Within cfg ⟨entries.map (·.1)⟩) :
    SenderLedger cfg (history ++ [.sent entries]) kept (entries.map (·.2)) := by
  have batches : sentBatches (history ++ [.sent entries]) = sentBatches history ++ [entries] :=
    sentBatches_append _ _
  have flat : (sentBatches (history ++ [.sent entries])).flatten =
      (sentBatches history).flatten ++ entries := by
    rw [batches, List.flatten_append, List.flatten_singleton]
  have chunks : receivedChunks (history ++ [.sent entries]) = receivedChunks history := by
    rw [receivedChunks_append]
    exact List.append_nil _
  have freed : freedMemory (history ++ [.sent entries]) = freedMemory history := by
    rw [freedMemory_append]
    exact List.append_nil _
  have memory : freedMemory history = ((sentBatches history).flatten.map (·.2)).filter
    (·.hasMem) := by
    rw [← h.memory, List.filter_nil, List.append_nil]
  refine ⟨?_, ?_, fun req mem => ?_⟩
  · rw [flat, chunks, List.append_assoc, h.order]
  · rw [flat, freed, List.map_append, List.filter_append, memory]
  · rw [sentRequests, batches, List.map_append, List.mem_append] at mem
    rcases mem with mem | mem
    · exact h.limits req mem
    · rw [List.mem_singleton.mp mem]
      exact within

theorem freed {hd : Held} (h : SenderLedger cfg history kept (hd :: walked)) :
    SenderLedger cfg (history ++ if hd.hasMem then [.freed hd] else []) kept walked := by
  cases mem : hd.hasMem with
  | false =>
    have memory := h.memory
    rw [List.filter_cons_of_neg (by simp [mem])] at memory
    simpa using ⟨h.order, memory, h.limits⟩
  | true =>
    have batches : sentBatches (history ++ [.freed hd]) = sentBatches history := by
      rw [sentBatches_append]
      exact List.append_nil _
    have chunks : receivedChunks (history ++ [.freed hd]) = receivedChunks history := by
      rw [receivedChunks_append]
      exact List.append_nil _
    have memory := h.memory
    rw [List.filter_cons_of_pos (by simp [mem])] at memory
    rw [if_pos rfl]
    refine ⟨?_, ?_, ?_⟩
    · rw [batches, chunks]
      exact h.order
    · rw [batches, freedMemory_append, ← memory, List.append_assoc]
      rfl
    · rw [sentRequests, batches]
      exact h.limits

end SenderLedger

namespace SendWorker.Lossless

variable {w w' : SendWorker} {history : List SenderEvent} {next : Option ReadChunk}
  {todo : List Held}

theorem ledger (h : w.Lossless cfg history) : SenderLedger cfg history w.kept w.walked :=
  ⟨h.order, h.memory, h.limits⟩

theorem frame (h : w.Lossless cfg history) (sender : w'.sender = w.sender)
    (batch : w'.batch = w.batch) : w'.Lossless cfg (history ++ []) := by
  have kept : w'.kept = w.kept := by simp only [SendWorker.kept, sender, batch]
  have walked : w'.walked = w.walked := by simp only [SendWorker.walked, sender]
  rw [List.append_nil]
  exact ⟨by rw [kept]; exact h.order, by rw [walked]; exact h.memory, h.limits,
    by rw [sender, batch]; exact h.batch, by rw [sender, batch]; exact h.sending,
    by rw [sender]; exact h.abort, by rw [sender]; exact h.exit⟩

theorem beside (h : w.Lossless cfg history) {e : SenderEvent} (batches : sentBatches [e] = [])
    (chunks : receivedChunks [e] = []) (freed : freedMemory [e] = []) :
    w.Lossless cfg (history ++ [e]) := by
  refine ⟨?_, ?_, ?_, h.batch, h.sending, h.abort, h.exit⟩
  · simpa [batches, chunks] using h.order
  · simpa [batches, freed] using h.memory
  · simpa [sentRequests, batches] using h.limits

theorem ledger_recv (h : w.Lossless cfg history) (hr : w.sender = .recv) :
    SenderLedger cfg history w.batch.entries [] := by
  simpa only [kept, walked, hr] using h.ledger

theorem ledger_send (h : w.Lossless cfg history) (hr : w.sender = .send next) :
    SenderLedger cfg history (w.batch.entries ++ next.toList.map batchEntry) [] := by
  simpa only [kept, walked, hr] using h.ledger

theorem ledger_sent (h : w.Lossless cfg history) (hr : w.sender = .sent todo next) :
    SenderLedger cfg history (next.toList.map batchEntry) todo := by
  simpa only [kept, walked, hr] using h.ledger

theorem of_recv (hr : w.sender = .recv) (ledger : SenderLedger cfg history w.batch.entries [])
    (filled : w.batch.Filled cfg) : w.Lossless cfg history := by
  refine ⟨?_, ?_, ledger.limits, fun _ _ => filled, ?_, ?_, ?_⟩
  · simpa only [kept, hr] using ledger.order
  · simpa only [walked, hr] using ledger.memory
  all_goals simp [hr]

theorem of_send (hr : w.sender = .send next)
    (ledger : SenderLedger cfg history (w.batch.entries ++ next.toList.map batchEntry) [])
    (filled : w.batch.Filled cfg) (ne : w.batch.entries ≠ []) : w.Lossless cfg history := by
  refine ⟨?_, ?_, ledger.limits, fun _ _ => filled, fun _ _ => ne, ?_, ?_⟩
  · simpa only [kept, hr] using ledger.order
  · simpa only [walked, hr] using ledger.memory
  all_goals simp [hr]

theorem of_sent (hr : w.sender = .sent todo next)
    (ledger : SenderLedger cfg history (next.toList.map batchEntry) todo) :
    w.Lossless cfg history := by
  refine ⟨?_, ?_, ledger.limits, ?_, ?_, ?_, ?_⟩
  · simpa only [kept, hr] using ledger.order
  · simpa only [walked, hr] using ledger.memory
  all_goals simp [hr]

theorem of_exit (hr : w.sender = .exit none) (ledger : SenderLedger cfg history [] []) :
    w.Lossless cfg history := by
  refine ⟨?_, ?_, ledger.limits, ?_, ?_, ?_, ?_⟩
  · simpa only [kept, hr] using ledger.order
  · simpa only [walked, hr] using ledger.memory
  all_goals simp [hr]

end SendWorker.Lossless

theorem WorkerStep.lossless {w w' : SendWorker} {sh sh' : Shared R} {e : WorkerEvent}
    {history : List SenderEvent} (h : WorkerStep cfg false w sh e w' sh')
    (hcount : 0 < cfg.dataBatchMaxCount) (hs : w.Lossless cfg history)
    (allowed : undisturbed (w, sh) (.worker e) = true) :
    w'.Lossless cfg (history ++ senderShows (w, sh) (.worker e)) := by
  cases h with
  | @take cc rest hp hr hb fits =>
    have shown : senderShows (w, sh) (.worker (.sender .ready)) = [.received cc] := by
      simp [senderShows, hr, hb]
    rw [shown]
    exact .of_recv hr ((hs.ledger_recv hr).received cc)
      ((hs.batch none (.inl hr)).append hcount fits)
  | @overflow cc rest hp hr hb full =>
    have shown : senderShows (w, sh) (.worker (.sender .ready)) = [.received cc] := by
      simp [senderShows, hr, hb]
    have ne : w.batch.entries ≠ [] := by
      rintro none
      simp [Batch.overflows, none] at full
    rw [shown]
    exact .of_send rfl ((hs.ledger_recv hr).received cc) (hs.batch none (.inl hr)) ne
  | closeEmpty hp hr hb hc he =>
    have shown : senderShows (w, sh) (.worker (.sender .ready)) = [] := by
      simp [senderShows, hr, hb]
    have ledger := hs.ledger_recv hr
    rw [he] at ledger
    rw [shown, List.append_nil]
    exact .of_exit rfl ledger
  | closeFlush hp hr hb hc he =>
    have shown : senderShows (w, sh) (.worker (.sender .ready)) = [] := by
      simp [senderShows, hr, hb]
    have ledger := hs.ledger_recv hr
    rw [← List.append_nil w.batch.entries] at ledger
    rw [shown, List.append_nil]
    exact .of_send rfl ledger (hs.batch none (.inl hr)) he
  | senderDone => simp [undisturbed] at allowed
  | sendFail => simp [undisturbed] at allowed
  | @free hd todo next hp hr =>
    have shown : senderShows (w, sh) (.worker (.sender .ready)) =
        if hd.hasMem then [.freed hd] else [] := by
      simp only [senderShows, hr]
    rw [shown]
    exact .of_sent rfl (hs.ledger_sent hr).freed
  | @refill cc hp hr =>
    have shown : senderShows (w, sh) (.worker (.sender .ready)) = [] := by simp [senderShows, hr]
    have filled : (Batch.empty.append cc).Filled cfg :=
      (Batch.Filled.empty hcount).append hcount (by simp [Batch.overflows, Batch.empty])
    rw [shown, List.append_nil]
    exact .of_recv rfl (hs.ledger_sent hr) filled
  | finish hp hr =>
    have shown : senderShows (w, sh) (.worker (.sender .ready)) = [] := by simp [senderShows, hr]
    rw [shown, List.append_nil]
    exact .of_exit rfl (hs.ledger_sent hr)
  | abortMem hp hr | abortWin hp hr | abortSkip hp hr | abortExit hp hr =>
    exact absurd hr (hs.abort _ _)
  | @sendOk next hp hr =>
    have within := (hs.batch next (.inr hr)).within (hs.sending next hr)
    exact .of_sent rfl ((hs.ledger_send hr).sent within)
  | ackFail hp ha failed => rcases failed with rfl | ⟨rfl, -, -⟩ <;> exact hs.frame rfl rfl
  | @handlerTake req rest hh hr =>
    have shown : senderShows (w, sh) (.worker .handler) = [.delivered req] := by
      simp [senderShows, hh, hr]
    rw [shown, ← List.append_nil [_], ← List.append_assoc]
    exact (hs.beside rfl rfl rfl).frame rfl rfl
  | handlerEof hh hr =>
    have shown : senderShows (w, sh) (.worker .handler) = [] := by simp [senderShows, hh, hr]
    rw [shown]
    exact hs.frame rfl rfl
  | handlerWrite hh | handlerAck hh =>
    have shown : senderShows (w, sh) (.worker .handler) = [] := by simp [senderShows, hh]
    rw [shown]
    exact hs.frame rfl rfl
  | _ => exact hs.frame rfl rfl

theorem reach_lossless (hcount : 0 < cfg.dataBatchMaxCount) {sh : Shared R}
    {p : (SendWorker × Shared R) × List SenderEvent}
    (h : Reach (senderRun cfg) (senderStart sh) p) : p.1.1.Lossless cfg p.2 := by
  refine h.invariant (P := fun p => p.1.1.Lossless cfg p.2) ?_ fun p a p' _ hs next => ?_
  · exact ⟨rfl, rfl, by simp [senderStart, sentRequests, sentBatches],
      fun _ _ => Batch.Filled.empty hcount, by simp [senderStart, SendWorker.init],
      by simp [senderStart, SendWorker.init], by simp [senderStart, SendWorker.init]⟩
  · cases senderRun_cases next with
    | worker allowed step => exact step.lossless hcount hs allowed
    | arrive cc => exact hs.beside rfl rfl rfl
    | close => exact hs.frame rfl rfl

/-- The history is what the channel, the stream and the semaphore have seen: `sh` is what the
sender shares at its start. -/
structure Witnessed (sh : Shared R) (p : (SendWorker × Shared R) × List SenderEvent) : Prop where
  channel : arrivedChunks p.2 = receivedChunks p.2 ++ p.1.2.readCh.buf
  log : p.1.2.log.sent = sh.log.sent ++ sentRequests p.2
  stream : deliveredRequests p.2 ++ p.1.1.stream.reqs = sentRequests p.2
  demand : p.1.2.mem.demand = sh.mem.demand - ((freedMemory p.2).map (·.memRawN)).sum
  alone : sh.mem.waiters = [] → p.1.2.mem.waiters = []

namespace Witnessed

variable {sh sh₀ sh' : Shared R} {w w' : SendWorker} {history shown : List SenderEvent}

theorem extend (h : Witnessed sh₀ ((w, sh), history))
    (channel : sh.readCh.buf ++ arrivedChunks shown = receivedChunks shown ++ sh'.readCh.buf)
    (log : sh'.log.sent = sh.log.sent ++ sentRequests shown)
    (stream : w.stream.reqs ++ sentRequests shown = deliveredRequests shown ++ w'.stream.reqs)
    (demand : sh'.mem.demand = sh.mem.demand - ((freedMemory shown).map (·.memRawN)).sum)
    (alone : sh.mem.waiters = [] → sh'.mem.waiters = []) :
    Witnessed sh₀ ((w', sh'), history ++ shown) := by
  refine ⟨?_, ?_, ?_, ?_, fun none => alone (h.alone none)⟩
  · rw [arrivedChunks_append, receivedChunks_append, h.channel, List.append_assoc,
      List.append_assoc, channel]
  · rw [sentRequests_append, ← List.append_assoc, ← h.log, log]
  · rw [deliveredRequests_append, sentRequests_append, List.append_assoc, ← stream, ← h.stream,
      List.append_assoc]
  · rw [freedMemory_append, List.map_append, List.sum_append]
    have before := h.demand
    simp only at before ⊢
    omega

theorem frame (h : Witnessed sh₀ ((w, sh), history)) (channel : sh'.readCh.buf = sh.readCh.buf)
    (log : sh'.log.sent = sh.log.sent) (stream : w'.stream.reqs = w.stream.reqs)
    (mem : sh'.mem = sh.mem) : Witnessed sh₀ ((w', sh'), history ++ []) := by
  refine h.extend ?_ ?_ ?_ ?_ ?_
  · rw [channel]
    exact List.append_nil _
  · rw [log]
    exact (List.append_nil _).symm
  · rw [stream]
    exact List.append_nil _
  · rw [mem]
    exact (sub_zero _).symm
  · rw [mem]
    exact id

theorem freed (h : Witnessed sh₀ ((w, sh), history)) (hd : Held)
    (stream : w'.stream = w.stream) :
    Witnessed sh₀ ((w', if hd.hasMem then sh.releaseMem hd.memRawN else sh),
      history ++ if hd.hasMem then [.freed hd] else []) := by
  cases hd.hasMem with
  | false => exact h.frame rfl rfl (by rw [stream]) rfl
  | true =>
    refine h.extend (List.append_nil _) (List.append_nil _).symm ?_ ?_ fun none => ?_
    · rw [stream]
      exact List.append_nil _
    · rw [if_pos rfl, Shared.releaseMem, MemSemaphore.release_demand]
      exact congrArg _ (add_zero _).symm
    · simp [Shared.releaseMem, MemSemaphore.release, MemSemaphore.wakeWaiters, none,
        WaitQueue.wake]

end Witnessed

theorem WorkerStep.witnessed {w w' : SendWorker} {sh₀ sh sh' : Shared R} {e : WorkerEvent}
    {history : List SenderEvent} (h : WorkerStep cfg false w sh e w' sh')
    (hs : w.Lossless cfg history) (seen : Witnessed sh₀ ((w, sh), history))
    (allowed : undisturbed (w, sh) (.worker e) = true) :
    Witnessed sh₀ ((w', sh'), history ++ senderShows (w, sh) (.worker e)) := by
  cases h with
  | @take cc rest hp hr hb | @overflow cc rest hp hr hb =>
    have shown : senderShows (w, sh) (.worker (.sender .ready)) = [.received cc] := by
      simp [senderShows, hr, hb]
    rw [shown]
    refine seen.extend ?_ (List.append_nil _).symm (List.append_nil _) (sub_zero _).symm id
    rw [hb]
    exact List.append_nil _
  | closeEmpty hp hr hb | closeFlush hp hr hb =>
    have shown : senderShows (w, sh) (.worker (.sender .ready)) = [] := by
      simp [senderShows, hr, hb]
    rw [shown]
    exact seen.frame rfl rfl rfl rfl
  | senderDone | sendFail => simp [undisturbed] at allowed
  | @free hd todo next hp hr =>
    have shown : senderShows (w, sh) (.worker (.sender .ready)) =
        if hd.hasMem then [.freed hd] else [] := by
      simp only [senderShows, hr]
    rw [shown]
    exact seen.freed hd rfl
  | refill hp hr | finish hp hr =>
    have shown : senderShows (w, sh) (.worker (.sender .ready)) = [] := by simp [senderShows, hr]
    rw [shown]
    exact seen.frame rfl rfl rfl rfl
  | abortMem hp hr | abortWin hp hr | abortSkip hp hr | abortExit hp hr =>
    exact absurd hr (hs.abort _ _)
  | sendOk => exact seen.extend (List.append_nil _) rfl rfl (sub_zero _).symm id
  | ackFail hp ha failed =>
    rcases failed with rfl | ⟨rfl, -, -⟩ <;> exact seen.frame rfl rfl rfl rfl
  | @handlerTake req rest hh hr =>
    have shown : senderShows (w, sh) (.worker .handler) = [.delivered req] := by
      simp [senderShows, hh, hr]
    rw [shown]
    refine seen.extend (List.append_nil _) (List.append_nil _).symm ?_ (sub_zero _).symm id
    rw [hr]
    exact List.append_nil _
  | handlerEof hh hr =>
    have shown : senderShows (w, sh) (.worker .handler) = [] := by simp [senderShows, hh, hr]
    rw [shown]
    exact seen.frame rfl rfl rfl rfl
  | handlerWrite hh | handlerAck hh =>
    have shown : senderShows (w, sh) (.worker .handler) = [] := by simp [senderShows, hh]
    rw [shown]
    exact seen.frame rfl rfl rfl rfl
  | _ => exact seen.frame rfl rfl rfl rfl

theorem reach_witnessed (hcount : 0 < cfg.dataBatchMaxCount) {sh : Shared R}
    {p : (SendWorker × Shared R) × List SenderEvent}
    (h : Reach (senderRun cfg) (senderStart sh) p) : Witnessed sh p := by
  refine h.invariant (P := Witnessed sh) ?_ fun p a p' reached hs next => ?_
  · exact ⟨rfl, (List.append_nil _).symm, rfl, (sub_zero _).symm, id⟩
  · cases senderRun_cases next with
    | worker allowed step => exact step.witnessed (reach_lossless hcount reached) hs allowed
    | arrive cc =>
      exact hs.extend rfl (List.append_nil _).symm (List.append_nil _) (sub_zero _).symm id
    | close => exact hs.frame rfl rfl rfl rfl

def ownSteps (_ : (SendWorker × Shared R) × List SenderEvent) : SenderAction → Bool
  | .worker (.sender .ready) | .worker (.send true) => true
  | _ => false

def SendWorker.ahead (w : SendWorker) (sh : Shared R) : ℕ :=
  match w.sender with
  | .recv => 4 * sh.readCh.buf.length + w.batch.entries.length + 3
  | .send next => 4 * sh.readCh.buf.length + w.batch.entries.length + 2 + 4 * next.toList.length
  | .sent todo next => 4 * sh.readCh.buf.length + todo.length + 1 + 4 * next.toList.length
  | .abort todo _ => todo.length + 1
  | .exit _ => 0

def ChannelClosed (p : (SendWorker × Shared R) × List SenderEvent) : Prop :=
  p.1.1.pc = .running ∧ p.1.2.readCh.closed = true

theorem WorkerStep.ahead_lt {w w' : SendWorker} {sh sh' : Shared R} {e : WorkerEvent}
    {history : List SenderEvent} (h : WorkerStep cfg false w sh e w' sh')
    (hs : w.Lossless cfg history)
    (own : ownSteps ((w, sh), history) (.worker e) = true) :
    w'.ahead sh' < w.ahead sh ∧ w'.pc = w.pc ∧ sh'.readCh.closed = sh.readCh.closed := by
  cases h with
  | take hp hr hb =>
    refine ⟨?_, rfl, rfl⟩
    simp only [SendWorker.ahead, hr, hb, Batch.append, List.length_append, List.length_cons,
      List.length_nil]
    omega
  | overflow hp hr hb =>
    refine ⟨?_, rfl, rfl⟩
    simp only [SendWorker.ahead, hr, hb, Option.toList_some, List.length_cons, List.length_nil]
    omega
  | closeEmpty hp hr => exact ⟨by simp [SendWorker.ahead, SendWorker.exitSender, hr], rfl, rfl⟩
  | closeFlush hp hr => exact ⟨by simp [SendWorker.ahead, hr], rfl, rfl⟩
  | @free hd todo next hp hr =>
    have closed : (if hd.hasMem then sh.releaseMem hd.memRawN else sh).readCh = sh.readCh := by
      split <;> rfl
    refine ⟨?_, rfl, congrArg Chan.closed closed⟩
    simp only [SendWorker.ahead, hr, closed, List.length_cons]
    omega
  | refill hp hr =>
    exact ⟨by simp [SendWorker.ahead, hr, Batch.append, Batch.empty], rfl, rfl⟩
  | finish hp hr => exact ⟨by simp [SendWorker.ahead, SendWorker.exitSender, hr], rfl, rfl⟩
  | abortMem hp hr | abortWin hp hr | abortSkip hp hr | abortExit hp hr =>
    exact absurd hr (hs.abort _ _)
  | sendOk hp hr =>
    exact ⟨by simp [SendWorker.ahead, sendBatch, hr], rfl, rfl⟩
  | ackFail hp ha failed =>
    rcases failed with rfl | ⟨rfl, -, -⟩ <;> cases own
  | _ => cases own

theorem sender_enabled {w : SendWorker} {sh : Shared R} {history : List SenderEvent}
    (hs : w.Lossless cfg history) (closedCh : ChannelClosed ((w, sh), history)) :
    w.sender = .exit none ∨ ∃ e, ownSteps ((w, sh), history) (.worker e) = true ∧
      undisturbed (w, sh) (.worker e) = true ∧
        (sendWorker cfg false w sh w.pc e).isSome = true := by
  obtain ⟨running, closed⟩ := closedCh
  simp only at running closed
  cases hr : w.sender with
  | recv =>
    refine .inr ⟨.sender .ready, rfl, rfl, ?_⟩
    simp only [running, sendWorker, hr, dataSender]
    cases sh.readCh.buf with
    | nil => by_cases empty : w.batch.entries = [] <;> simp [closed, empty]
    | cons cc rest => cases ho : w.batch.overflows cfg cc <;> simp [ho]
  | send next => exact .inr ⟨.send true, rfl, rfl, by simp [running, sendWorker, hr]⟩
  | sent todo next =>
    refine .inr ⟨.sender .ready, rfl, rfl, ?_⟩
    cases todo <;> cases next <;> simp [running, sendWorker, hr, dataSender]
  | abort todo err => exact absurd hr (hs.abort _ _)
  | exit err =>
    cases err with
    | none => exact .inl rfl
    | some err => exact absurd hr (hs.exit _)

theorem sender_returns (hcount : 0 < cfg.dataBatchMaxCount) {sh : Shared R}
    {p : (SendWorker × Shared R) × List SenderEvent} (h : Reach (senderRun cfg) (senderStart sh) p)
    (closedCh : ChannelClosed p) :
    ∃ p', Reach (restrict ownSteps (senderRun cfg)) p p' ∧ p'.1.1.sender = .exit none := by
  have closed : ∀ p a p', Reach (senderRun cfg) (senderStart sh) p ∧ ChannelClosed p →
      restrict ownSteps (senderRun cfg) p a = some p' →
      (Reach (senderRun cfg) (senderStart sh) p' ∧ ChannelClosed p') ∧
        p'.1.1.ahead p'.1.2 < p.1.1.ahead p.1.2 := by
    intro p a p' hp taken
    obtain ⟨own, next⟩ := restrict_eq_some.mp taken
    obtain ⟨restricted, -⟩ := record_eq_some.mp next
    obtain ⟨-, moved⟩ := restrict_eq_some.mp restricted
    cases a with
    | worker e =>
      obtain ⟨lt, pc, chan⟩ := (sendWorker_step moved).ahead_lt (reach_lossless hcount hp.1) own
      exact ⟨⟨hp.1.tail _ next, pc.trans hp.2.1, chan.trans hp.2.2⟩, lt⟩
    | arrive | close => cases own
  obtain ⟨p', reached, ⟨run, drain⟩, stuck⟩ := exists_stuck
    (fun p => Reach (senderRun cfg) (senderStart sh) p ∧ ChannelClosed p)
    (fun p => p.1.1.ahead p.1.2) (fun p a p' hp next => (closed p a p' hp next).1)
    (fun p a p' hp next => (closed p a p' hp next).2) ⟨h, closedCh⟩
  refine ⟨p', reached, ?_⟩
  rcases sender_enabled (reach_lossless hcount run) drain with returned | ⟨e, own, calm, enabled⟩
  · exact returned
  · obtain ⟨q, moved⟩ := Option.isSome_iff_exists.mp enabled
    have restricted : restrict undisturbed (senderStep cfg) p'.1 (.worker e) = some q :=
      restrict_eq_some.mpr ⟨calm, moved⟩
    have taken : restrict ownSteps (senderRun cfg) p' (.worker e) =
        some (q, p'.2 ++ senderShows p'.1 (.worker e)) :=
      restrict_eq_some.mpr ⟨own, record_eq_some.mpr ⟨restricted, rfl⟩⟩
    rw [stuck] at taken
    cases taken

def SenderPC.last : SenderPC → Bool
  | .send none | .sent _ none | .exit none => true
  | _ => false

theorem WorkerStep.drained {w w' : SendWorker} {sh sh' : Shared R} {e : WorkerEvent}
    (h : WorkerStep cfg false w sh e w' sh')
    (hs : w.sender.last = true → sh.readCh.buf = [] ∧ sh.readCh.closed = true) :
    w'.sender.last = true → sh'.readCh.buf = [] ∧ sh'.readCh.closed = true := by
  cases h with
  | take hp hr | overflow hp hr => simp [SenderPC.last, hr]
  | closeEmpty hp hr hb hc | closeFlush hp hr hb hc => exact fun _ => ⟨hb, hc⟩
  | senderDone | abortMem | abortWin | abortSkip | abortExit | refill | sendFail =>
    simp [SenderPC.last, SendWorker.exitSender, sendBatch]
  | @free hd todo next hp hr =>
    have chan : (if hd.hasMem then sh.releaseMem hd.memRawN else sh).readCh = sh.readCh := by
      split <;> rfl
    rw [chan]
    intro last
    refine hs ?_
    rw [hr]
    cases next <;> exact last
  | finish hp hr => exact fun _ => hs (by rw [hr]; rfl)
  | @sendOk next hp hr =>
    intro last
    refine hs ?_
    rw [hr]
    cases next <;> exact last
  | _ => exact hs

theorem reach_drained {sh : Shared R} {p : (SendWorker × Shared R) × List SenderEvent}
    (h : Reach (senderRun cfg) (senderStart sh) p) :
    p.1.1.sender.last = true → p.1.2.readCh.buf = [] ∧ p.1.2.readCh.closed = true := by
  refine h.invariant (P := fun p => p.1.1.sender.last = true →
    p.1.2.readCh.buf = [] ∧ p.1.2.readCh.closed = true) (fun last => by cases last)
    fun p a p' _ hs next => ?_
  cases senderRun_cases next with
  | worker _ step => exact step.drained hs
  | arrive _ opened | close opened => exact fun last => absurd (hs last).2 (by simp [opened])

theorem sentRequests_blocks (history : List SenderEvent) :
    (sentRequests history).flatMap (·.blocks) = (sentBatches history).flatten.map (·.1) := by
  rw [sentRequests, List.flatMap_def, List.map_map, List.map_flatten]
  rfl

theorem SendWorker.Lossless.sent_eq {w : SendWorker} {history : List SenderEvent}
    (h : w.Lossless cfg history) :
    ((receivedChunks history).take ((sentRequests history).flatMap (·.blocks)).length).map
    batchEntry =
      (sentBatches history).flatten := by
  rw [List.map_take, ← h.order, sentRequests_blocks, List.length_map, List.take_left]

theorem SendWorker.Lossless.blocks {w : SendWorker} {history : List SenderEvent}
    (h : w.Lossless cfg history) :
    (sentRequests history).flatMap (·.blocks) ++ w.kept.map (·.1) =
      (receivedChunks history).map changedBlock := by
  rw [sentRequests_blocks, ← List.map_append, h.order, List.map_map]
  rfl

theorem SendWorker.Lossless.helds {w : SendWorker} {history : List SenderEvent}
    (h : w.Lossless cfg history) :
    freedMemory history ++ w.walked.filter (·.hasMem) =
      (((receivedChunks history).take
        ((sentRequests history).flatMap (·.blocks)).length).map (·.held)).filter (·.hasMem) := by
  rw [h.memory, ← h.sent_eq, List.map_map]
  rfl

theorem SendWorker.Lossless.bytes_le {w : SendWorker} {history : List SenderEvent}
    (h : w.Lossless cfg history) (limit : ℕ) (bytes : cfg.dataBatchMaxBytes ≤ limit)
    (chunks : ∀ cc ∈ receivedChunks history, cc.data.length ≤ limit) {req : WriteRequest}
    (sent : req ∈ sentRequests history) : dataBytes req.blocks ≤ limit := by
  -- a request of at least two blocks is within the byte limit, any other one is a chunk
  have within := h.limits req sent
  by_cases two : 2 ≤ req.blocks.length
  · have := within.bytes two
    omega
  · obtain ⟨b, rest, hb⟩ := List.exists_cons_of_ne_nil within.nonempty
    have single : rest = [] := by
      rw [hb, List.length_cons] at two
      exact List.eq_nil_of_length_eq_zero (by omega)
    have mem : b ∈ (receivedChunks history).map changedBlock := by
      rw [← h.blocks]
      exact List.mem_append_left _
        (List.mem_flatMap.mpr ⟨req, sent, by rw [hb]; exact List.mem_cons_self⟩)
    obtain ⟨cc, received, rfl⟩ := List.mem_map.mp mem
    rw [hb, single]
    simpa [dataBytes, changedBlock] using chunks cc received

/-- `dataSender` batches losslessly and within its limits. At every moment the requests carry
a beginning of the chunks received and the memory released is that of a beginning of the
chunks sent; when the sender returns, both are all of them. What is received leaves the channel,
what is sent is logged and lies on the stream until the destination takes it, and what is freed
is gone from the semaphore's demand. -/
theorem dataSender_lossless (cfg : Config) (hcount : 0 < cfg.dataBatchMaxCount) (sh sh' : Shared R)
    (w : SendWorker) (history : List SenderEvent)
    (h : Reach (senderRun cfg) (senderStart sh) ((w, sh'), history)) :
    arrivedChunks history = receivedChunks history ++ sh'.readCh.buf ∧
    sh'.log.sent = sh.log.sent ++ sentRequests history ∧
    deliveredRequests history ++ w.stream.reqs = sentRequests history ∧
    sh'.mem.demand = sh.mem.demand - ((freedMemory history).map (·.memRawN)).sum ∧
    (sh.mem.waiters = [] →
      sh'.mem.cur = sh.mem.cur - ((freedMemory history).map (·.memRawN)).sum) ∧
    (∀ req ∈ sentRequests history, req.Within cfg) ∧
    (sentRequests history).flatMap (·.blocks) <+: (receivedChunks history).map changedBlock ∧
    freedMemory history <+: (((receivedChunks history).take
      ((sentRequests history).flatMap (·.blocks)).length).map (·.held)).filter (·.hasMem) ∧
    (w.sender = .exit none → sh'.readCh.buf = [] ∧ sh'.readCh.closed = true ∧
      (sentRequests history).flatMap (·.blocks) = (receivedChunks history).map changedBlock ∧
      freedMemory history = ((receivedChunks history).map (·.held)).filter (·.hasMem)) ∧
    (w.pc = .running → sh'.readCh.closed = true →
      ∃ p, Reach (restrict ownSteps (senderRun cfg)) ((w, sh'), history) p ∧
        p.1.1.sender = .exit none) ∧
    (cfg.dataBatchMaxBytes = Config.zero.setDefaults.dataBatchMaxBytes →
      (∀ cc ∈ receivedChunks history, cc.data.length ≤ 16 * 1024 * 1024) →
      ∀ req ∈ sentRequests history, dataBytes req.blocks ≤ 16 * 1024 * 1024 ∧
        dataBytes req.blocks < maxGRPCMessageSize) := by
  have hs : w.Lossless cfg history := reach_lossless hcount h
  have seen := reach_witnessed hcount h
  refine ⟨seen.channel, seen.log, seen.stream, seen.demand, fun none => ?_, hs.limits,
    ⟨_, hs.blocks⟩, ⟨_, hs.helds⟩, fun returned => ?_, fun running closed => ?_,
    fun default chunks req sent => ?_⟩
  · have demand := seen.demand
    have alone := seen.alone none
    simp only [MemSemaphore.demand] at demand alone
    simpa [none, alone] using demand
  · obtain ⟨empty, closed⟩ := reach_drained h (by rw [returned]; rfl)
    have blocks := hs.blocks
    have helds := hs.helds
    simp only [SendWorker.kept, SendWorker.walked, returned, List.map_nil, List.append_nil,
      List.filter_nil] at blocks helds
    refine ⟨empty, closed, blocks, ?_⟩
    have all := congrArg List.length blocks
    rw [List.length_map] at all
    rw [helds, all, List.take_length]
  · exact sender_returns hcount h ⟨running, closed⟩
  · have le := hs.bytes_le (16 * 1024 * 1024) (by rw [default]; decide) chunks sent
    exact ⟨le, by unfold maxGRPCMessageSize; omega⟩

def fewConfig : Config := { Config.zero with dataBatchMaxCount := 2, dataBatchMaxBytes := 4 }

def smallChunk (id : ℕ) (data : List UInt8) : ReadChunk :=
  ⟨id, [100], 3 * id, 3, data, data.isEmpty, 12, ⟨id, data.length, true, !data.isEmpty⟩⟩

def fourChunks : List ReadChunk :=
  [smallChunk 0 [1, 2, 3], smallChunk 1 [4, 5, 6], smallChunk 2 [], smallChunk 3 []]

def fourChunksSchedule : List SenderAction :=
  fourChunks.map .arrive ++ .close :: repeats [(2, .worker (.sender .ready)),
    (1, .worker (.send true)), (1, .worker .handler), (4, .worker (.sender .ready)),
    (1, .worker (.send true)), (4, .worker (.sender .ready)), (1, .worker (.send true)),
    (2, .worker (.sender .ready))]

def fourChunksShared : Shared 0 :=
  { (init fewConfig 0 0).shared with mem := { MemSemaphore.new 10 with cur := 6 } }

theorem dataSender_lossless_fourChunks :
    ∃ (w : SendWorker) (sh : Shared 0) (history : List SenderEvent), w.sender = .exit none ∧
      receivedChunks history = fourChunks ∧
      sh.log.sent.map (·.blocks.length) = [1, 2, 1] ∧
      sh.log.sent.flatMap (·.blocks) = fourChunks.map changedBlock ∧
      w.stream.reqs.map (·.blocks.length) = [2, 1] ∧ sh.mem.cur = 0 := by
  have run : ((exec (senderRun fewConfig) (senderStart fourChunksShared)
      fourChunksSchedule).any fun p => p.1.1.sender = .exit none ∧ receivedChunks p.2 = fourChunks ∧
        p.1.2.log.sent.map (·.blocks.length) = [1, 2, 1] ∧
        p.1.1.stream.reqs.map (·.blocks.length) = [2, 1]) = true := by
    decide +kernel
  obtain ⟨⟨⟨w, sh⟩, history⟩, reached, hs⟩ := Reach.of_exec_any run
  simp only [decide_eq_true_eq] at hs
  obtain ⟨returned, received, sizes, waiting⟩ := hs
  obtain ⟨-, log, -, -, cur, -, -, -, done, -⟩ :=
    dataSender_lossless fewConfig (by decide) _ sh w history reached
  obtain ⟨-, -, blocks, freed⟩ := done returned
  have sent : sh.log.sent = sentRequests history := log
  refine ⟨w, sh, history, returned, received, sizes, ?_, waiting, ?_⟩
  · rw [sent, blocks, received]
  · rw [cur rfl, freed, received]
    decide

end CephVolsync.Pipeline
