import CephVolsync.Pipeline.Delivery
import CephVolsync.Pipeline.Memory

/-! Who owns what. Every byte that the memory semaphore has granted lies with a read worker,
in `readCh` or with a sender, and a window slot that was granted is held, under way or given
back, whatever fails and whenever the run is cancelled. Of the memory only what lies in `readCh`
can outlast `Run`. -/

namespace CephVolsync.Pipeline

open Function TransitionSystem IndexedFamily WaitQueue

variable {R S : ℕ} {cfg : Config} {done : Bool} {re : ReaderEvent} {we : WorkerEvent}
  {a : Action R S}

section Memory

/-- Bytes that a read worker owns; one that waits in `Acquire` owns them from the moment its
channel is closed. -/
def ReaderPC.owned (cfg : Config) (granted : Bool) : ReaderPC → ℤ
  | .memWait c => if granted then acquireSize cfg c else 0
  | pc => pc.memory cfg

/-- Bytes of the entries of `pending` that still have their memory; on the way out after a
failed `Send` the walk includes the chunk that did not fit. -/
def SendWorker.pendingMem (w : SendWorker) : ℤ :=
  match w.sender with
  | .recv | .send _ => heldMem (w.batch.entries.map (·.2))
  | .sent todo _ | .abort todo _ => heldMem todo
  | .exit _ => 0

/-- Bytes of the chunk that a sender has received and not yet appended to its batch. -/
def SendWorker.carriedMem (w : SendWorker) : ℤ := heldMem (w.sender.next.map (·.held)).toList

theorem SendWorker.memory_eq (w : SendWorker) : w.memory = w.pendingMem + w.carriedMem := by
  cases h : w.sender <;>
    simp [SendWorker.memory, SendWorker.pendingMem, SendWorker.carriedMem, h, SenderPC.next,
      heldMem]

theorem ReaderPC.owned_add (cfg : Config) (granted : Bool) (pc : ReaderPC) :
    pc.owned cfg granted + (if granted then 0 else (pc.wantMem cfg).getD 0) = pc.memory cfg := by
  cases pc <;> cases granted <;> simp [ReaderPC.owned, ReaderPC.wantMem, ReaderPC.memory]

theorem State.Metered.cur_eq {s : State R S} (h : s.Metered cfg) :
    s.shared.mem.cur = ∑ r, (s.readers r).owned cfg (r ∈ s.shared.mem.closed) +
      heldMem (s.shared.readCh.buf.map (·.held)) +
      (∑ i, (s.workers i).pendingMem + ∑ i, (s.workers i).carriedMem) := by
  have readers : ∑ r, (s.readers r).memory cfg =
      ∑ r, (s.readers r).owned cfg (r ∈ s.shared.mem.closed) +
        (s.shared.mem.waiters.map (·.key)).sum := by
    rw [← h.serves.sum_asleep, ← Finset.sum_add_distrib]
    refine Finset.sum_congr rfl fun r _ => ?_
    rw [← ReaderPC.owned_add cfg (r ∈ s.shared.mem.closed)]
    simp only [decide_eq_true_eq]
  have workers : ∑ i, (s.workers i).memory =
      ∑ i, (s.workers i).pendingMem + ∑ i, (s.workers i).carriedMem := by
    rw [← Finset.sum_add_distrib]
    exact Finset.sum_congr rfl fun i _ => (s.workers i).memory_eq
  have balance := h.balance
  rw [readers, workers] at balance
  simp only [Shared.slack, MemSemaphore.demand] at balance
  omega

theorem acquireSize_nonneg (hc : 0 ≤ cfg.chunkSize) (c : Chunk) : 0 ≤ acquireSize cfg c := by
  unfold acquireSize
  omega

theorem Delivers.memRawN_nonneg {log : Log} {rc : ReadChunk} (h : Delivers cfg log rc)
    (hc : 0 ≤ cfg.chunkSize) : 0 ≤ rc.held.memRawN := by
  cases h with
  | marked | zeros => exact le_rfl
  | data => exact acquireSize_nonneg hc _

theorem Held.mem_nonneg {h : Held} (hn : 0 ≤ h.memRawN) : 0 ≤ h.mem := by
  unfold Held.mem
  split <;> omega

theorem heldMem_nonneg {todo : List Held} (h : ∀ hd ∈ todo, 0 ≤ hd.memRawN) : 0 ≤ heldMem todo :=
  List.sum_nonneg (by
    simp only [List.mem_map, forall_exists_index, and_imp]
    rintro _ hd mem rfl
    exact Held.mem_nonneg (h hd mem))

def ReaderPC.Solvent : ReaderPC → Prop
  | .releasing h _ => 0 ≤ h.memRawN
  | _ => True

def SenderPC.Solvent : SenderPC → Prop
  | .sent todo _ | .abort todo _ => ∀ h ∈ todo, 0 ≤ h.memRawN
  | _ => True

namespace MemSemaphore

variable {γ : Type} {m : MemSemaphore γ} {n : ℤ} {c : γ}

theorem acquire_le (h : m.cur ≤ m.capacity) :
    (m.acquire n c).1.cur ≤ (m.acquire n c).1.capacity := by
  unfold acquire
  split
  · rename_i room
    exact room.1
  · exact h

theorem release_le (h : m.cur ≤ m.capacity) (hn : 0 ≤ n) :
    (m.release n).cur ≤ (m.release n).capacity := by
  have start : m.cur - n ≤ m.capacity := by omega
  refine wake_invariant (fits m.capacity) (P := (· ≤ m.capacity)) ?_ start m.waiters
  intro cur k cur' _ taken
  unfold fits at taken
  split at taken <;> cases taken
  omega

end MemSemaphore

theorem ReaderStep.solvent {r : Fin R} {pc pc' : ReaderPC} {sh sh' : Shared R}
    (h : ReaderStep cfg done r pc sh re pc' sh') (hc : 0 ≤ cfg.chunkSize)
    (hp : pc.Carries cfg sh.log) (hs : pc.Solvent) (le : sh.mem.cur ≤ sh.mem.capacity) :
    pc'.Solvent ∧ sh'.mem.cur ≤ sh'.mem.capacity := by
  have after : ∀ c : Chunk, (afterWin c).Solvent := by
    intro c
    unfold afterWin
    split <;> trivial
  cases h with
  | memTake | memQueue => exact ⟨trivial, MemSemaphore.acquire_le le⟩
  | winTake | winWoken => exact ⟨after _, le⟩
  | winGiveUp | readFail => exact ⟨acquireSize_nonneg hc _, le⟩
  | freeMem => exact ⟨trivial, MemSemaphore.release_le le (acquireSize_nonneg hc _)⟩
  | emitDone => exact ⟨Delivers.memRawN_nonneg hp hc, le⟩
  | relMem => exact ⟨hs, MemSemaphore.release_le le hs⟩
  | relWin => exact ⟨hs, le⟩
  | _ => exact ⟨trivial, le⟩

theorem entries_nonneg {log : Log} {w : SendWorker} (hw : w.Carries cfg log)
    (hc : 0 ≤ cfg.chunkSize) : ∀ h ∈ w.batch.entries.map (·.2), 0 ≤ h.memRawN := by
  simp only [List.mem_map, forall_exists_index, and_imp]
  rintro _ e mem rfl
  obtain ⟨rc, delivers, rfl⟩ := hw.entries e mem
  exact delivers.memRawN_nonneg hc

theorem next_nonneg {log : Log} {w : SendWorker} (hw : w.Carries cfg log)
    (hc : 0 ≤ cfg.chunkSize) : ∀ h ∈ (w.sender.next.map (·.held)).toList, 0 ≤ h.memRawN := by
  simp only [Option.mem_toList, Option.map_eq_some_iff, forall_exists_index, and_imp]
  rintro _ rc mem rfl
  exact (hw.next rc mem).memRawN_nonneg hc

theorem WorkerStep.solvent {w w' : SendWorker} {sh sh' : Shared R}
    (h : WorkerStep cfg done w sh we w' sh') (hc : 0 ≤ cfg.chunkSize) (hw : w.Carries cfg sh.log)
    (hs : w.sender.Solvent) (le : sh.mem.cur ≤ sh.mem.capacity) :
    w'.sender.Solvent ∧ sh'.mem.cur ≤ sh'.mem.capacity := by
  cases h with
  | overflow | closeEmpty | closeFlush | refill | finish | abortExit => exact ⟨trivial, le⟩
  | senderDone => exact ⟨entries_nonneg hw hc, le⟩
  | @free hd todo next hp hr =>
    rw [hr] at hs
    refine ⟨fun h mem => hs h (List.mem_cons_of_mem _ mem), ?_⟩
    cases hm : hd.hasMem with
    | false => exact le
    | true => exact MemSemaphore.release_le le (hs hd List.mem_cons_self)
  | abortMem hp hr =>
    rw [hr] at hs
    have head := hs _ List.mem_cons_self
    refine ⟨fun h mem => ?_, MemSemaphore.release_le le head⟩
    rcases List.mem_cons.mp mem with rfl | mem
    · exact head
    · exact hs h (List.mem_cons_of_mem _ mem)
  | abortWin hp hr | abortSkip hp hr =>
    rw [hr] at hs
    exact ⟨fun h mem => hs h (List.mem_cons_of_mem _ mem), le⟩
  | sendOk => exact ⟨entries_nonneg hw hc, le⟩
  | sendFail hp hr =>
    have next := next_nonneg hw hc
    rw [hr] at next
    refine ⟨fun h mem => ?_, le⟩
    rcases List.mem_append.mp mem with mem | mem
    · exact entries_nonneg hw hc h mem
    · exact next h mem
  | _ => exact ⟨hs, le⟩

structure State.Solvent (s : State R S) : Prop where
  readers : ∀ r, (s.readers r).Solvent
  senders : ∀ i, (s.workers i).sender.Solvent
  le : s.shared.mem.cur ≤ s.shared.mem.capacity

theorem PipelineStep.solvent {s s' : State R S} (h : PipelineStep cfg s a s')
    (hc : 0 ≤ cfg.chunkSize) (hp : s.Carries cfg) (hs : s.Solvent) : s'.Solvent := by
  cases h with
  | @reader r e pc sh hr =>
    obtain ⟨solvent, le⟩ := hr.solvent hc (hp.readers r) (hs.readers r) hs.le
    exact ⟨forall_update (P := fun _ => ReaderPC.Solvent) solvent fun j _ => hs.readers j,
      hs.senders, le⟩
  | @worker i e w sh hw =>
    obtain ⟨solvent, le⟩ := hw.solvent hc (hp.workers i) (hs.senders i) hs.le
    exact ⟨hs.readers, forall_update (P := fun _ (w : SendWorker) => w.sender.Solvent) solvent
      fun j _ => hs.senders j, le⟩
  | _ => exact ⟨hs.readers, hs.senders, hs.le⟩

theorem reach_solvent {s : State R S} (hc : 0 ≤ cfg.chunkSize) (hm : 0 ≤ cfg.maxRawMemoryBytes)
    (h : Reach (step cfg) (init cfg R S) s) : s.Solvent := by
  have start : (init cfg R S).Solvent := ⟨fun _ => trivial, fun _ => trivial, hm⟩
  exact h.invariant start fun s a s' reached hs next =>
    (step_cases next).solvent hc (reach_carries reached) hs

theorem ReaderPC.owned_nonneg {log : Log} {pc : ReaderPC} (hc : 0 ≤ cfg.chunkSize)
    (hp : pc.Carries cfg log) (hs : pc.Solvent) (granted : Bool) : 0 ≤ pc.owned cfg granted := by
  have size := acquireSize_nonneg hc
  cases pc with
  | memWait c =>
    cases granted with
    | false => exact le_rfl
    | true => exact size c
  | read c | freeMem c => exact size c
  | winAcquire c | winWait c =>
    simp only [owned, memory]
    split
    · exact le_rfl
    · exact size c
  | emit rc => exact Held.mem_nonneg (Delivers.memRawN_nonneg hp hc)
  | releasing h err => exact Held.mem_nonneg hs
  | _ => exact le_rfl

theorem SendWorker.memory_nonneg {log : Log} {w : SendWorker} (hc : 0 ≤ cfg.chunkSize)
    (hw : w.Carries cfg log) (hs : w.sender.Solvent) : 0 ≤ w.pendingMem + w.carriedMem := by
  have entries := heldMem_nonneg (entries_nonneg hw hc)
  have next := heldMem_nonneg (next_nonneg hw hc)
  refine Int.add_nonneg ?_ next
  unfold pendingMem
  cases h : w.sender with
  | recv | send => exact entries
  | sent | abort =>
    rw [h] at hs
    exact heldMem_nonneg hs
  | exit => exact le_rfl

theorem State.Metered.cur_nonneg {s : State R S} (h : s.Metered cfg) (hc : 0 ≤ cfg.chunkSize)
    (hp : s.Carries cfg) (hs : s.Solvent) : 0 ≤ s.shared.mem.cur := by
  rw [h.cur_eq, ← Finset.sum_add_distrib]
  have readCh : ∀ hd ∈ s.shared.readCh.buf.map (·.held), 0 ≤ hd.memRawN := by
    simp only [List.mem_map, forall_exists_index, and_imp]
    rintro _ rc mem rfl
    exact (hp.shared.readCh rc mem).memRawN_nonneg hc
  refine Int.add_nonneg (Int.add_nonneg ?_ (heldMem_nonneg readCh)) ?_
  · exact Finset.sum_nonneg fun r _ => ReaderPC.owned_nonneg hc (hp.readers r) (hs.readers r) _
  · exact Finset.sum_nonneg fun i _ => SendWorker.memory_nonneg hc (hp.workers i) (hs.senders i)

end Memory

section Slots

def acquires (s : State R S) : Action R S → List ℕ
  | .reader r _ =>
    match s.readers r with
    | .winAcquire c => if (s.shared.win.acquire c.reqID r).2 then [c.reqID] else []
    | .winWait c => if r ∈ s.shared.win.closed then [c.reqID] else []
    | _ => []
  | _ => []

def ReaderPC.slot : ReaderPC → List ℕ
  | .read c | .freeMem c => [c.reqID]
  | .emit rc => [rc.reqID]
  | .releasing h _ => if h.hasWin then [h.reqID] else []
  | _ => []

def Shared.passed (sh : Shared R) : List ℕ := sh.readCh.buf.map (·.reqID) ++ sh.log.gone

theorem afterWin_slot (c : Chunk) : (afterWin c).slot = [c.reqID] := by
  unfold afterWin
  split <;> rfl

theorem ReaderPC.slot_le (pc : ReaderPC) (x : ℕ) : pc.slot.count x ≤ pc.ids.count x := by
  cases pc <;> simp [ReaderPC.slot, ReaderPC.ids]

theorem ReaderStep.slots {s : State R S} {r : Fin R} {pc' : ReaderPC} {sh' : Shared R}
    (h : ReaderStep cfg done r (s.readers r) s.shared re pc' sh')
    (hp : (s.readers r).Carries cfg s.log) (x : ℕ) :
    pc'.slot.count x + sh'.passed.count x = (s.readers r).slot.count x +
      (s.shared.passed.count x + (acquires s (.reader r re)).count x) := by
  simp only [acquires]
  generalize hpc : s.readers r = pc at h hp
  generalize hsh : s.shared = sh at h
  cases h with
  | winTake hg =>
    rw [afterWin_slot]
    simp only [ReaderPC.slot, Shared.passed, hg, if_true, List.count_append, List.count_nil]
    omega
  | winQueue hq => simp [ReaderPC.slot, Shared.passed, hq]
  | winWoken hc =>
    rw [afterWin_slot]
    simp only [ReaderPC.slot, Shared.passed, hc, if_true, List.count_append, List.count_nil]
    omega
  | winGiveUp hd hc => simp [ReaderPC.slot, Shared.passed, Shared.drop, hc, Log.gone]
  | emit =>
    simp only [ReaderPC.slot, Shared.passed, Chan.send, List.map_append, List.map_cons,
      List.map_nil, List.count_append, List.count_nil]
    omega
  | emitDone =>
    have win : (ReadChunk.held _).hasWin = true := Delivers.hasWin hp
    simp only [ReaderPC.slot, win, if_true, hp.held_reqID, List.count_nil]
    omega
  | relWin hm hw =>
    simp only [ReaderPC.slot, Shared.passed, Shared.forfeit, hw, if_true, Bool.false_eq_true,
      if_false, Log.gone, List.count_append, List.count_nil]
    omega
  | relExit hm hw => simp [ReaderPC.slot, hw]
  | _ => rfl

theorem WorkerStep.untouched {w w' : SendWorker} {sh sh' : Shared R}
    (h : WorkerStep cfg done w sh we w' sh') :
    sh'.chunkCh = sh.chunkCh ∧ sh'.log.dropped = sh.log.dropped := by
  cases h with
  | @free hd => cases hm : hd.hasMem <;> exact ⟨rfl, rfl⟩
  | _ => exact ⟨rfl, rfl⟩

theorem WorkerStep.slots {w w' : SendWorker} {sh sh' : Shared R}
    (h : WorkerStep cfg done w sh we w' sh') (hw : w.Carries cfg sh.log) (x : ℕ) :
    (w'.unsent ++ w'.underway).count x + sh'.passed.count x =
      (w.unsent ++ w.underway).count x + sh.passed.count x := by
  have placed := h.placed hw x
  have settled := h.settled x
  obtain ⟨chunkCh, dropped⟩ := h.untouched
  simp only [Shared.placed, Shared.passed, Log.left, chunkCh, dropped, List.count_append]
    at placed settled ⊢
  omega

/-- A slot that was granted is held by a read worker, waits in `readCh` or with a sender, is
under way to be acknowledged, or is given back or lost. -/
def State.Slots (p : State R S × List ℕ) : Prop :=
  ∀ x, ∑ r, (p.1.readers r).slot.count x +
    ∑ i, ((p.1.workers i).unsent ++ (p.1.workers i).underway).count x + p.1.shared.passed.count x =
      p.2.count x

theorem PipelineStep.slots {s s' : State R S} {acquired : List ℕ} (h : PipelineStep cfg s a s')
    (hc : s.Carries cfg) (hs : State.Slots (s, acquired)) :
    State.Slots (s', acquired ++ acquires s a) := by
  intro x
  have total := hs x
  simp only [List.count_append] at total ⊢
  cases h with
  | @reader r e pc sh hr =>
    have family := sum_update_exchange (fun pc : ReaderPC => pc.slot.count x) s.readers r pc
      (hr.slots (hc.readers r) x)
    simp only [] at family ⊢
    omega
  | @worker i e w sh hw =>
    have family := sum_update_exchange
      (fun w : SendWorker => (w.unsent ++ w.underway).count x) s.workers i w
      (hw.slots (hc.workers i) x)
    simp only [List.count_append, acquires, List.count_nil] at family ⊢
    omega
  | _ => exact total

theorem reach_slots {p : State R S × List ℕ}
    (h : Reach (record acquires (step cfg)) (init cfg R S, []) p) : State.Slots p := by
  refine h.invariant ?_ fun p a p' reached hs next => ?_
  · intro x
    simp [init, ReaderPC.slot, SendWorker.unsent, SendWorker.underway, SendWorker.init, Batch.ids,
      Batch.empty, Handler.ids, AckPC.ids, Shared.passed, Chan.new, Log.gone, Log.empty]
  · obtain ⟨taken, history⟩ := record_eq_some.mp next
    have slots := (step_cases taken).slots (reach_carries reached.of_record) hs
    rw [← history] at slots
    exact slots

theorem State.Slots.released_le {s : State R S} {acquired : List ℕ}
    (h : State.Slots (s, acquired)) (x : ℕ) : s.log.released.count x ≤ acquired.count x := by
  have total := h x
  simp only [Shared.passed, Log.gone, List.count_append] at total
  unfold State.log
  omega

theorem State.Slots.acquired_le {s : State R S} {acquired : List ℕ}
    (h : State.Slots (s, acquired)) (placed : s.Placed) (settled : s.Settled) (x : ℕ) :
    acquired.count x ≤ s.log.fedIds.count x := by
  have total := h x
  have place := placed x
  have settle := settled x
  have slots : ∑ r, (s.readers r).slot.count x ≤ ∑ r, (s.readers r).ids.count x :=
    Finset.sum_le_sum fun r _ => (s.readers r).slot_le x
  simp only [Shared.passed, Shared.placed, Log.left, State.log, List.count_append,
    Finset.sum_add_distrib] at total place settle ⊢
  omega

end Slots

/-- Memory is conserved and within its budget, and each block fed to the pipeline accounts for
at most one `Acquire` of its window slot that returned nil and at most one later `Release`. The
destination is the one of `Handler`: it acknowledges the ids of a request together, in the order
of the requests. -/
theorem memory_conserved (cfg : Config) (valid : cfg.validate = .ok ()) (s : State R S)
    (acquired : List ℕ)
    (h : Reach (record acquires (step cfg)) (init cfg R S, []) (s, acquired)) :
    s.shared.mem.cur = ∑ r, (s.readers r).owned cfg (r ∈ s.shared.mem.closed) +
      heldMem (s.shared.readCh.buf.map (·.held)) +
      (∑ i, (s.workers i).pendingMem + ∑ i, (s.workers i).carriedMem) ∧
    0 ≤ s.shared.mem.cur ∧ s.shared.mem.cur ≤ cfg.maxRawMemoryBytes ∧
    (∀ id, s.log.released.count id ≤ acquired.count id ∧
      acquired.count id ≤ s.log.fedIds.count id) ∧
    (s.log.fedIds.Nodup → ∀ id, s.log.released.count id ≤ 1) := by
  have hv := (cfg.validate_ok_iff).mp valid
  have hc : 0 ≤ cfg.chunkSize := by have := hv.chunk_min; omega
  have hm : 0 ≤ cfg.maxRawMemoryBytes := by have := hv.chunk_mem; omega
  have reached : Reach (step cfg) (init cfg R S) s := h.of_record
  have carries := reach_carries reached
  have metered := reach_metered reached
  have solvent := reach_solvent hc hm reached
  have slots := reach_slots h
  have fed := slots.acquired_le (reach_placed reached) (reach_settled reached)
  refine ⟨metered.cur_eq, metered.cur_nonneg hc carries solvent, ?_,
    fun id => ⟨slots.released_le id, fed id⟩, fun nodup id => ?_⟩
  · rw [← metered.capacity]
    exact solvent.le
  · have once := List.nodup_iff_count_le_one.mp nodup id
    exact (slots.released_le id).trans ((fed id).trans once)

def tightConfig : Config := { smallConfig with dataBatchMaxBytes := 4 }

def tightBlock (id : ℕ) : ChangeBlock := ⟨[100], 3 * id, 3, id, 8192, false⟩

/-- The sender has the first block in its batch and has received the second. -/
def tightSchedule : List (Action 2 1) :=
  repeats [(1, .iterNext (some (tightBlock 0))), (1, .feeder .ready),
    (1, .iterNext (some (tightBlock 1))), (1, .feeder .ready),
    (3, .reader 0 (.select .ready)), (1, .reader 0 (.data (some [1, 2, 3]))),
    (1, .reader 0 (.select .ready)),
    (3, .reader 1 (.select .ready)), (1, .reader 1 (.data (some [4, 5, 6]))),
    (1, .reader 1 (.select .ready)),
    (1, .worker 0 (.open true)), (2, .worker 0 (.sender .ready))]

theorem memory_conserved_tight : ∃ (s : State 2 1) (acquired : List ℕ),
    s.shared.mem.cur = 6 ∧ acquired = [0, 1] ∧
    s.shared.mem.cur = ∑ r, (s.readers r).owned tightConfig (r ∈ s.shared.mem.closed) +
      heldMem (s.shared.readCh.buf.map (·.held)) +
      (∑ i, (s.workers i).pendingMem + ∑ i, (s.workers i).carriedMem) := by
  have run : ((exec (record acquires (step tightConfig)) (init tightConfig 2 1, [])
      tightSchedule).any fun p => p.1.shared.mem.cur = 6 ∧ p.2 = [0, 1]) = true := by
    decide +kernel
  obtain ⟨⟨s, acquired⟩, reached, hs⟩ := Reach.of_exec_any run
  simp only [decide_eq_true_eq] at hs
  exact ⟨s, acquired, hs.1, hs.2, (memory_conserved tightConfig rfl s acquired reached).1⟩

/-- The chunk that makes the sender flush lies neither in `readCh` nor in `pending`. -/
theorem memory_outside_batch : tightConfig.validate = .ok () ∧ ∃ s : State 2 1,
    Reach (step tightConfig) (init tightConfig 2 1) s ∧
    s.shared.mem.cur ≠ ∑ r, (s.readers r).owned tightConfig (r ∈ s.shared.mem.closed) +
      heldMem (s.shared.readCh.buf.map (·.held)) + ∑ i, (s.workers i).pendingMem := by
  have run : ((exec (step tightConfig) (init tightConfig 2 1) tightSchedule).any fun s =>
      s.shared.mem.cur ≠ ∑ r, (s.readers r).owned tightConfig (r ∈ s.shared.mem.closed) +
        heldMem (s.shared.readCh.buf.map (·.held)) + ∑ i, (s.workers i).pendingMem) = true := by
    decide +kernel
  obtain ⟨s, reached, hs⟩ := Reach.of_exec_any run
  exact ⟨rfl, s, reached, by simpa using hs⟩

section Return

def SendWorker.Unburdened (w : SendWorker) : Prop := w.pc ≠ .running → w.memory = 0

theorem WorkerStep.unburdened {w w' : SendWorker} {sh sh' : Shared R}
    (h : WorkerStep cfg done w sh we w' sh') (hw : w.Unburdened) : w'.Unburdened := by
  cases h with
  | opened => exact fun stopped => absurd rfl stopped
  | openFail opening => exact fun _ => hw (by simp [opening])
  | ret _ hs => exact fun _ => by simp only [SendWorker.memory, hs]
  | handlerTake | handlerEof | handlerWrite | handlerAck | handlerFail | handlerLose => exact hw
  | take hp | overflow hp | closeEmpty hp | closeFlush hp | senderDone hp | free hp | refill hp
  | finish hp | abortMem hp | abortWin hp | abortSkip hp | abortExit hp | sendOk hp | sendFail hp
  | ackTake hp | ackEof hp | ackFail hp | ackDone hp | ackRelease hp | ackLoop hp =>
    exact fun stopped => absurd hp stopped

theorem reach_unburdened {s : State R S} (h : Reach (step cfg) (init cfg R S) s) (i : Fin S) :
    (s.workers i).Unburdened := by
  refine h.invariant (P := fun s => ∀ i, (s.workers i).Unburdened) ?_ ?_ i
  · exact fun _ _ => rfl
  · intro s a s' _ hs next
    cases step_cases next with
    | worker hw =>
      exact forall_update (P := fun _ => SendWorker.Unburdened) (hw.unburdened (hs _))
        fun j _ => hs j
    | _ => exact hs

theorem State.returned_cur {s : State R S} (h : Reach (step cfg) (init cfg R S) s)
    (returned : s.returned = true) :
    s.shared.mem.cur = heldMem (s.shared.readCh.buf.map (·.held)) := by
  obtain ⟨-, stageRead, stageSend⟩ := (reach_coherent h).returned returned
  have readers : ∀ r, (s.readers r).owned cfg (r ∈ s.shared.mem.closed) = 0 := by
    intro r
    have exited := ((reach_coherent h).stageRead stageRead).1 r
    cases hr : s.readers r with
    | exit => rfl
    | _ => simp [hr, ReaderPC.exited] at exited
  have workers : ∀ i, (s.workers i).pendingMem + (s.workers i).carriedMem = 0 := by
    intro i
    obtain ⟨err, exited⟩ := (SendWorker.exited_iff _).mp
      (((reach_coherent h).stageSend stageSend).1 i)
    rw [← SendWorker.memory_eq]
    exact reach_unburdened h i (by simp [exited])
  rw [(reach_metered h).cur_eq, ← Finset.sum_add_distrib]
  simp [readers, workers]

def SenderPC.looping : SenderPC → Bool
  | .recv => true
  | .send next | .sent _ next => next.isSome
  | _ => false

/-- The send worker may still receive from `readCh`: its sender is in its loop, or will be once
the stream is open. -/
def SendWorker.receives (w : SendWorker) : Bool := !w.exited && w.sender.looping

def Shared.waitingMem (sh : Shared R) : ℤ := heldMem (sh.readCh.buf.map (·.held))

/-- A step that leaves memory in `readCh` for nobody to receive: the last send worker that could
leaves on an error or a cancellation, or a read worker sends when all of them have left. -/
def strands (s : State R S) : Action R S → Bool
  | .worker i (.open false) | .worker i (.sender .ctxDone) | .worker i (.send false) =>
    (s.workers i).receives ∧ (∀ j, j ≠ i → (s.workers j).receives = false) ∧
      0 < s.shared.waitingMem
  | .reader r (.select .ready) =>
    match s.readers r with
    | .emit rc => (∀ i, (s.workers i).receives = false) ∧ 0 < rc.held.mem
    | _ => false
  | _ => false

def strandings (s : State R S) (a : Action R S) : List (Action R S) :=
  if strands s a then [a] else []

/-- Memory lies in `readCh` and nobody will receive it. -/
def State.Stranded (s : State R S) : Prop :=
  (∀ i, (s.workers i).receives = false) ∧ 0 < s.shared.waitingMem

def WorkerEvent.leaves : WorkerEvent → Bool
  | .open false | .sender .ctxDone | .send false => true
  | _ => false

theorem strands_worker {s : State R S} {i : Fin S} : strands s (.worker i we) = true ↔
    we.leaves = true ∧ (s.workers i).receives = true ∧
      (∀ j, j ≠ i → (s.workers j).receives = false) ∧ 0 < s.shared.waitingMem := by
  unfold strands WorkerEvent.leaves
  split <;> simp_all

theorem strands_reader {s : State R S} {r : Fin R} : strands s (.reader r re) = true ↔
    ∃ rc, s.readers r = .emit rc ∧ re = .select .ready ∧
      (∀ i, (s.workers i).receives = false) ∧ 0 < rc.held.mem := by
  rcases re with ⟨_ | _⟩ | res
  · cases pc : s.readers r <;> simp [strands, pc]
  · simp [strands]
  · simp [strands]

theorem WorkerStep.leaves_readCh {w w' : SendWorker} {sh sh' : Shared R}
    (h : WorkerStep cfg done w sh we w' sh') (leaves : we.leaves = true) :
    w'.receives = false ∧ sh'.readCh = sh.readCh := by
  cases h with
  | openFail => exact ⟨rfl, rfl⟩
  | senderDone | sendFail => exact ⟨Bool.and_false _, rfl⟩
  | ackFail _ _ which => rcases which with rfl | ⟨rfl, -⟩ <;> cases leaves
  | _ => cases leaves

theorem WorkerStep.receives {w w' : SendWorker} {sh sh' : Shared R}
    (h : WorkerStep cfg done w sh we w' sh') (stays : we.leaves = false) :
    (w'.receives = w.receives ∧ (w.receives = false → sh'.readCh = sh.readCh)) ∨
      (w.receives = true ∧ sh'.readCh = sh.readCh ∧ sh.readCh.buf = []) := by
  cases h with
  | openFail | senderDone | sendFail => cases stays
  | closeEmpty hp hs empty | closeFlush hp hs empty =>
    exact .inr ⟨by simp [SendWorker.receives, SendWorker.exited, SenderPC.looping, hp, hs], rfl,
      empty⟩
  | take hp hs | overflow hp hs =>
    have running : w.receives = true := by
      simp [SendWorker.receives, SendWorker.exited, SenderPC.looping, hp, hs]
    refine .inl ⟨?_, fun stopped => absurd running (by simp [stopped])⟩
    rw [running]
    simp [SendWorker.receives, SendWorker.exited, SenderPC.looping, hp, hs]
  | @free hd _ _ hp hs =>
    refine .inl ⟨by simp [SendWorker.receives, SendWorker.exited, SenderPC.looping, hs],
      fun _ => ?_⟩
    cases hd.hasMem <;> rfl
  | _ => exact .inl ⟨by simp [SendWorker.receives, SendWorker.exited, SenderPC.looping, sendBatch,
      SendWorker.exitSender, SendWorker.exitAck, *], fun _ => rfl⟩

theorem ReaderStep.waitingMem {r : Fin R} {pc pc' : ReaderPC} {sh sh' : Shared R}
    (h : ReaderStep cfg done r pc sh re pc' sh') :
    (∃ rc, pc = .emit rc ∧ re = .select .ready ∧
      sh'.waitingMem = sh.waitingMem + rc.held.mem) ∨
    ((∀ rc, pc = .emit rc → re ≠ .select .ready) ∧ sh'.waitingMem = sh.waitingMem) := by
  cases h with
  | @emit _ rc => exact .inl ⟨rc, rfl, rfl, by simp [Shared.waitingMem, Chan.send, heldMem]⟩
  | emitDone => exact .inr ⟨by simp, rfl⟩
  | _ => exact .inr ⟨by simp, rfl⟩

theorem State.waitingMem_nonneg {s : State R S} (hc : 0 ≤ cfg.chunkSize) (hp : s.Carries cfg) :
    0 ≤ s.shared.waitingMem := by
  refine heldMem_nonneg ?_
  simp only [List.mem_map, forall_exists_index, and_imp]
  rintro _ rc mem rfl
  exact (hp.shared.readCh rc mem).memRawN_nonneg hc

theorem PipelineStep.stranded {s s' : State R S} (h : PipelineStep cfg s a s')
    (hc : 0 ≤ cfg.chunkSize) (hp : s.Carries cfg) :
    s'.Stranded ↔ s.Stranded ∨ strands s a = true := by
  unfold State.Stranded
  cases h with
  | @reader r e pc sh hr =>
    rw [strands_reader]
    rcases hr.waitingMem with ⟨rc, emit, rfl, more⟩ | ⟨other, same⟩
    · have gain : 0 ≤ rc.held.mem := by
        have carried := hp.readers r
        rw [emit] at carried
        exact Held.mem_nonneg (Delivers.memRawN_nonneg carried hc)
      have nonneg := State.waitingMem_nonneg hc hp
      simp only [emit, more, ReaderPC.emit.injEq, true_and, exists_eq_left', ← and_or_left]
      refine and_congr_right fun _ => ?_
      omega
    · simp only [same]
      refine (or_iff_left ?_).symm
      rintro ⟨rc, emit, ready, -⟩
      exact other rc emit ready
  | @worker i e w sh hw =>
    have all : (∀ j, (update s.workers i w j).receives = false) ↔
        w.receives = false ∧ ∀ j, j ≠ i → (s.workers j).receives = false :=
      forall_update_iff s.workers fun _ (w : SendWorker) => w.receives = false
    have before : (∀ j, (s.workers j).receives = false) ↔
        (s.workers i).receives = false ∧ ∀ j, j ≠ i → (s.workers j).receives = false :=
      (and_forall_ne i).symm
    rw [strands_worker, all, before]
    unfold Shared.waitingMem
    cases leaves : e.leaves with
    | true =>
      obtain ⟨gone, same⟩ := hw.leaves_readCh leaves
      rw [same, gone]
      cases (s.workers i).receives <;> simp
    | false =>
      rcases hw.receives leaves with ⟨kept, same⟩ | ⟨running, same, empty⟩
      · rw [kept]
        cases stopped : (s.workers i).receives with
        | true => simp
        | false => simp [same stopped]
      · rw [same, empty]
        simp [heldMem]
  | _ => simp [strands, Shared.waitingMem, State.exitFeeder, Shared.drop, Chan.close]

theorem reach_stranded (hc : 0 ≤ cfg.chunkSize) {p : State R S × List (Action R S)}
    (h : Reach (record strandings (step cfg)) (init cfg R S, []) p) :
    p.1.Stranded ↔ p.2 ≠ [] := by
  refine h.invariant (P := fun p => p.1.Stranded ↔ p.2 ≠ []) ?_ fun p a p' reached hs next => ?_
  · simp [State.Stranded, init, Shared.waitingMem, Chan.new, heldMem]
  · obtain ⟨taken, history⟩ := record_eq_some.mp next
    rw [(step_cases taken).stranded hc (reach_carries reached.of_record), hs, history, strandings]
    cases strands p.1 a <;> simp

end Return

/-- The memory is back when `Run` returns if and only if no step of the run stranded any. A run
that returns nil has no such step. -/
theorem memory_returned_iff (c : Config) (hc : c.setDefaults.validate = .ok ())
    {s : State c.setDefaults.readWorkers.toNat c.setDefaults.dataSendWorkers.toNat}
    {stranding : List (Action c.setDefaults.readWorkers.toNat c.setDefaults.dataSendWorkers.toNat)}
    (h : Reach (record strandings (step c.setDefaults)) (init c.setDefaults _ _, [])
      (s, stranding))
    (returned : s.returned = true) :
    (s.shared.mem.cur = 0 ↔ stranding = []) ∧ (s.runErr = none → stranding = []) := by
  have valid := (Config.validate_ok_iff _).mp hc
  have size : 0 ≤ c.setDefaults.chunkSize := by have := valid.chunk_min; omega
  have hS : 0 < c.setDefaults.dataSendWorkers.toNat := by have := valid.senders_min; omega
  have reached : Reach (step c.setDefaults) (init c.setDefaults _ _) s := h.of_record
  have cur := State.returned_cur reached returned
  have nonneg := State.waitingMem_nonneg size (reach_carries reached)
  have stopped : ∀ i, (s.workers i).receives = false := by
    intro i
    have stage := ((reach_coherent reached).returned returned).2.2
    rw [SendWorker.receives, ((reach_coherent reached).stageSend stage).1 i]
    rfl
  have empty : s.shared.mem.cur = 0 ↔ stranding = [] := by
    have history : s.Stranded ↔ stranding ≠ [] := reach_stranded size h
    rw [← not_iff_not, ← ne_eq stranding, ← history, cur]
    unfold State.Stranded
    unfold Shared.waitingMem at nonneg ⊢
    simp only [stopped, implies_true, true_and]
    omega
  refine ⟨empty, fun nil => empty.mp ?_⟩
  have success : s.Succeeded := ⟨returned, nil⟩
  have sender := (success.finished reached).senders ⟨0, hS⟩
  have drained := (reach_coherent reached).sender_end ⟨0, hS⟩ (by rw [sender]; rfl)
  rw [cur, drained.2]
  rfl

/-- The `Send` of the first block fails while the sender has the second in its hand; both give
their memory back on the way out. -/
def sendFailSchedule : List (Action 2 1) :=
  tightSchedule ++ repeats [(1, .worker 0 (.send false)), (5, .worker 0 (.sender .ready)),
    (1, .worker 0 (.ack .ctxDone)), (1, .worker 0 .ret), (1, .stageSend), (1, .iterNext none),
    (1, .reader 0 (.select .ready)), (1, .reader 1 (.select .ready)), (1, .stageRead), (1, .run)]

theorem memory_returned_sendFail : ∃ s : State 2 1, s.returned = true ∧
    s.runErr = some .send ∧ s.log.reads.length = 2 ∧ s.shared.mem.cur = 0 := by
  have run : ((exec (record strandings (step tightConfig)) (init tightConfig 2 1, [])
      sendFailSchedule).any fun p => (p.1.returned ∧ p.1.runErr = some .send ∧
        p.1.log.reads.length = 2) ∧ p.2 = []) = true := by
    decide +kernel
  obtain ⟨⟨s, stranding⟩, reached, hs⟩ := Reach.of_exec_any run
  simp only [decide_eq_true_eq] at hs
  obtain ⟨⟨returned, failed, reads⟩, clean⟩ := hs
  exact ⟨s, returned, failed, reads,
    (memory_returned_iff tightConfig rfl reached returned).1.mpr clean⟩

/-- The block is read and in `readCh` when the only `Write` stream cannot be opened. -/
def openFailSchedule : List (Action 2 1) :=
  repeats [(1, .iterNext (some (tightBlock 0))), (1, .feeder .ready), (1, .iterNext none),
    (3, .reader 0 (.select .ready)), (1, .reader 0 (.data (some [1, 2, 3]))),
    (2, .reader 0 (.select .ready)), (1, .reader 1 (.select .ready)), (1, .stageRead),
    (1, .worker 0 (.open false)), (1, .stageSend), (1, .run)]

/-- Nobody receives from `readCh` once the senders are gone, and its chunks keep their memory. -/
theorem memory_left_in_readCh : smallConfig.setDefaults.validate = .ok () ∧ ∃ s : State 2 1,
    Reach (step smallConfig.setDefaults) (init smallConfig.setDefaults 2 1) s ∧
    s.returned = true ∧ s.runErr = some .openStream ∧ s.shared.mem.cur = 3 := by
  have run : ((exec (step smallConfig.setDefaults) (init smallConfig.setDefaults 2 1)
      openFailSchedule).any fun s =>
        s.returned ∧ s.runErr = some .openStream ∧ s.shared.mem.cur = 3) = true := by
    decide +kernel
  obtain ⟨s, reached, hs⟩ := Reach.of_exec_any run
  exact ⟨rfl, s, reached, by simpa using hs⟩

end CephVolsync.Pipeline
