import CephVolsync.Pipeline.Window

/-! The memory semaphore over a whole run. What it has granted and what its queue asks for
is together what the goroutines, `readCh` and the batches hold or wait for. -/

namespace CephVolsync.Pipeline

open Function TransitionSystem IndexedFamily WaitQueue

variable {R S : ℕ} {cfg : Config} {done : Bool} {re : ReaderEvent} {we : WorkerEvent}
  {a : Action R S}

section Semaphore

variable {γ : Type} {want : γ → Option ℤ} {m : MemSemaphore γ} {n : ℤ} {c : γ}

namespace MemSemaphore

def demand (m : MemSemaphore γ) : ℤ := m.cur + (m.waiters.map (·.key)).sum

theorem fits_pay (capacity : ℤ) (cur k cur' : ℤ) (h : fits capacity cur k = some cur') :
    cur' = cur + k := by
  unfold fits at h
  split at h <;> cases h
  rfl

theorem acquire_demand : (m.acquire n c).1.demand = m.demand + n := by
  unfold acquire demand
  split
  · ring
  · simp only [List.map_append, List.map_cons, List.map_nil, List.sum_append, List.sum_cons,
      List.sum_nil]
    ring

theorem acquire_capacity : (m.acquire n c).1.capacity = m.capacity := by
  unfold acquire
  split <;> rfl

theorem release_demand : (m.release n).demand = m.demand - n := by
  have total := wake_total (fits m.capacity) (m.cur - n) (fits_pay m.capacity) m.waiters
  simp only [demand, release, wakeWaiters]
  rw [total]
  ring

theorem acquire_granted (h : (m.acquire n c).2 = true) :
    m.waiters = [] ∧ (m.acquire n c).1 = { m with cur := m.cur + n } := by
  unfold acquire at h ⊢
  split at h
  · rename_i room
    rw [if_pos room]
    exact ⟨List.eq_nil_of_length_eq_zero room.2, rfl⟩
  · simp at h

theorem acquire_queued (h : (m.acquire n c).2 = false) :
    (m.waiters = [] → m.capacity < m.cur + n) ∧
      (m.acquire n c).1 = { m with waiters := m.waiters ++ [⟨n, c⟩] } := by
  unfold acquire at h ⊢
  split at h
  · simp at h
  · rename_i full
    rw [if_neg full]
    refine ⟨fun empty => ?_, rfl⟩
    by_contra room
    exact full ⟨by omega, by simp [empty]⟩

theorem serves_acquire_queued [DecidableEq γ] (h : Serves want m.waiters m.closed)
    (hc : want c = none) (hq : (m.acquire n c).2 = false) :
    Serves (update want c (some n)) (m.acquire n c).1.waiters (m.acquire n c).1.closed := by
  rw [(acquire_queued hq).2]
  exact h.enqueue hc n m.waiters [] (List.append_nil _).symm

theorem serves_acquire_granted (h : Serves want m.waiters m.closed)
    (hg : (m.acquire n c).2 = true) :
    Serves want (m.acquire n c).1.waiters (m.acquire n c).1.closed := by
  rw [(acquire_granted hg).2]
  exact h

theorem serves_release (h : Serves want m.waiters m.closed) :
    Serves want (m.release n).waiters (m.release n).closed :=
  h.wake (fits m.capacity) (m.cur - n)

theorem remove_demand [DecidableEq γ] (h : Serves want m.waiters m.closed) (hc : c ∉ m.closed)
    (hw : want c = some n) : (m.remove c).demand = m.demand - n := by
  have total := h.giveUp_total hc hw
  simp only [demand, remove]
  omega

end MemSemaphore

end Semaphore

def Held.mem (h : Held) : ℤ := if h.hasMem then h.memRawN else 0

def heldMem (todo : List Held) : ℤ := (todo.map Held.mem).sum

def ReaderPC.wantMem (cfg : Config) : ReaderPC → Option ℤ
  | .memWait c => some (acquireSize cfg c)
  | _ => none

def ReaderPC.memory (cfg : Config) : ReaderPC → ℤ
  | .recv | .memAcquire _ | .exit _ => 0
  | .memWait c | .read c | .freeMem c => acquireSize cfg c
  | .winAcquire c | .winWait c => if c.isZero then 0 else acquireSize cfg c
  | .emit rc => rc.held.mem
  | .releasing h _ => h.mem

def SendWorker.memory (w : SendWorker) : ℤ :=
  match w.sender with
  | .recv => heldMem (w.batch.entries.map (·.2))
  | .send next => heldMem (w.batch.entries.map (·.2)) + heldMem (next.map (·.held)).toList
  | .sent todo next => heldMem todo + heldMem (next.map (·.held)).toList
  | .abort todo _ => heldMem todo
  | .exit _ => 0

def Shared.slack (sh : Shared R) : ℤ := heldMem (sh.readCh.buf.map (·.held)) - sh.mem.demand

theorem heldMem_cons (h : Held) (todo : List Held) :
    heldMem (h :: todo) = h.mem + heldMem todo := by
  simp [heldMem]

theorem heldMem_append (first second : List Held) :
    heldMem (first ++ second) = heldMem first + heldMem second := by
  simp [heldMem]

theorem afterWin_memory (c : Chunk) :
    (afterWin c).memory cfg = (ReaderPC.winWait c).memory cfg := by
  unfold afterWin
  cases hz : c.isZero <;> simp [ReaderPC.memory, hz, zeroChunk, Held.mem]

theorem afterWin_wantMem (c : Chunk) : (afterWin c).wantMem cfg = none := by
  unfold afterWin
  split <;> rfl

structure ReaderStep.Memory (cfg : Config) (r : Fin R) (want : Fin R → Option ℤ)
    (pc pc' : ReaderPC) (sh sh' : Shared R) : Prop where
  serves : Serves (update want r (pc'.wantMem cfg)) sh'.mem.waiters sh'.mem.closed
  exchange : pc'.memory cfg + sh'.slack = pc.memory cfg + sh.slack
  capacity : sh'.mem.capacity = sh.mem.capacity

theorem ReaderStep.memory {r : Fin R} {pc pc' : ReaderPC} {sh sh' : Shared R}
    {want : Fin R → Option ℤ} (h : ReaderStep cfg done r pc sh re pc' sh')
    (hs : Serves want sh.mem.waiters sh.mem.closed) (hw : want r = pc.wantMem cfg)
    (hp : pc.Carries cfg sh.log) : ReaderStep.Memory cfg r want pc pc' sh sh' := by
  have idle : pc.wantMem cfg = none → pc'.wantMem cfg = none →
      update want r (pc'.wantMem cfg) = want := by
    intro hn hn'
    rw [hn', ← hn, ← hw, update_eq_self]
  cases h with
  | recvZero hb hz =>
    exact ⟨by rw [idle rfl rfl]; exact hs, by simp [ReaderPC.memory, hz, Shared.slack], rfl⟩
  | @memTake sh c hg =>
    refine ⟨by rw [idle rfl rfl]; exact MemSemaphore.serves_acquire_granted hs hg, ?_,
      MemSemaphore.acquire_capacity⟩
    simp only [ReaderPC.memory, hp.2, Bool.false_eq_true, if_false, Shared.slack,
      MemSemaphore.acquire_demand]
    ring
  | @memQueue sh c hq =>
    refine ⟨MemSemaphore.serves_acquire_queued hs hw hq, ?_, MemSemaphore.acquire_capacity⟩
    simp only [ReaderPC.memory, Shared.slack, MemSemaphore.acquire_demand]
    ring
  | @memWoken sh c b hc =>
    exact ⟨hs.leave hc, by simp [ReaderPC.memory, hp.2, Shared.slack, MemSemaphore.demand,
      MemSemaphore.leave], rfl⟩
  | @memGiveUp sh c hd hc =>
    refine ⟨hs.giveUp hc, ?_, rfl⟩
    simp only [ReaderPC.memory, Shared.slack, Shared.drop, MemSemaphore.remove_demand hs hc hw]
    ring
  | winTake | winWoken =>
    exact ⟨by rw [idle rfl (afterWin_wantMem _)]; exact hs, by rw [afterWin_memory]; rfl, rfl⟩
  | winGiveUp =>
    refine ⟨by rw [idle rfl rfl]; exact hs, ?_, rfl⟩
    rename_i c _ _
    cases hz : c.isZero <;> simp [ReaderPC.memory, Held.mem, hz, Shared.slack, Shared.drop]
  | freeMem =>
    refine ⟨by rw [idle rfl rfl]; exact MemSemaphore.serves_release hs, ?_, rfl⟩
    simp only [ReaderPC.memory, zeroChunk, Held.mem, Shared.slack, Shared.releaseMem,
      MemSemaphore.release_demand, Bool.false_eq_true, if_false]
    ring
  | emit =>
    refine ⟨by rw [idle rfl rfl]; exact hs, ?_, rfl⟩
    simp only [ReaderPC.memory, Shared.slack, Chan.send, List.map_append, List.map_cons,
      List.map_nil, heldMem_append, heldMem_cons]
    simp only [heldMem, List.map_nil, List.sum_nil]
    ring
  | relMem hm =>
    refine ⟨by rw [idle rfl rfl]; exact MemSemaphore.serves_release hs, ?_, rfl⟩
    simp only [ReaderPC.memory, Held.mem, hm, Shared.slack, Shared.releaseMem,
      MemSemaphore.release_demand, Bool.false_eq_true, if_false, if_true]
    ring
  | relExit hm =>
    exact ⟨by rw [idle rfl rfl]; exact hs, by simp [ReaderPC.memory, Held.mem, hm], rfl⟩
  | _ => exact ⟨by rw [idle rfl rfl]; exact hs, rfl, rfl⟩

structure WorkerStep.Memory (want : Fin R → Option ℤ) (w w' : SendWorker) (sh sh' : Shared R) :
    Prop where
  serves : Serves want sh'.mem.waiters sh'.mem.closed
  exchange : w'.memory + sh'.slack = w.memory + sh.slack
  capacity : sh'.mem.capacity = sh.mem.capacity

theorem WorkerStep.memory {w w' : SendWorker} {sh sh' : Shared R} {want : Fin R → Option ℤ}
    (h : WorkerStep cfg done w sh we w' sh') (hs : Serves want sh.mem.waiters sh.mem.closed) :
    WorkerStep.Memory want w w' sh sh' := by
  cases h with
  | take hp hr hb =>
    refine ⟨hs, ?_, rfl⟩
    simp only [SendWorker.memory, hr, Batch.append, Shared.slack, hb, List.map_append,
      List.map_cons, List.map_nil, heldMem_append, heldMem_cons]
    simp only [heldMem, List.map_nil, List.sum_nil]
    ring
  | overflow hp hr hb =>
    refine ⟨hs, ?_, rfl⟩
    simp only [SendWorker.memory, hr, Shared.slack, hb, List.map_cons, heldMem_cons,
      Option.map_some, Option.toList_some]
    simp only [heldMem, List.map_nil, List.sum_nil]
    ring
  | closeEmpty hp hr hb hc he =>
    exact ⟨hs, by simp [SendWorker.memory, SendWorker.exitSender, hr, he, heldMem], rfl⟩
  | closeFlush hp hr => exact ⟨hs, by simp [SendWorker.memory, hr, heldMem], rfl⟩
  | senderDone hp hr => exact ⟨hs, by simp [SendWorker.memory, hr], rfl⟩
  | @free hd todo next hp hr =>
    cases hm : hd.hasMem with
    | false => exact ⟨hs, by simp [SendWorker.memory, hr, heldMem_cons, Held.mem, hm], rfl⟩
    | true =>
      refine ⟨MemSemaphore.serves_release hs, ?_, rfl⟩
      simp only [SendWorker.memory, hr, heldMem_cons, Held.mem, hm, if_true, Shared.slack,
        Shared.releaseMem, MemSemaphore.release_demand]
      ring
  | refill hp hr =>
    exact ⟨hs, by simp [SendWorker.memory, hr, Batch.append, Batch.empty, heldMem], rfl⟩
  | finish hp hr => exact ⟨hs, by simp [SendWorker.memory, SendWorker.exitSender, hr, heldMem], rfl⟩
  | abortMem hp hr hm =>
    refine ⟨MemSemaphore.serves_release hs, ?_, rfl⟩
    simp only [SendWorker.memory, hr, heldMem_cons, Held.mem, hm, if_true, Bool.false_eq_true,
      if_false, Shared.slack, Shared.releaseMem, MemSemaphore.release_demand]
    ring
  | abortWin hp hr hm | abortSkip hp hr hm =>
    exact ⟨hs, by simp [SendWorker.memory, hr, heldMem_cons, Held.mem, hm, Shared.slack,
      Shared.forfeit], rfl⟩
  | abortExit hp hr => exact ⟨hs, by simp [SendWorker.memory, SendWorker.exitSender, hr, heldMem],
      rfl⟩
  | sendOk hp hr => exact ⟨hs, by simp [SendWorker.memory, hr, sendBatch, Shared.slack], rfl⟩
  | sendFail hp hr =>
    exact ⟨hs, by simp [SendWorker.memory, hr, sendBatch, heldMem_append, Shared.slack], rfl⟩
  | _ => exact ⟨hs, rfl, rfl⟩

structure State.Metered (cfg : Config) (s : State R S) : Prop where
  serves : Serves (fun r => (s.readers r).wantMem cfg) s.shared.mem.waiters s.shared.mem.closed
  balance : ∑ r, (s.readers r).memory cfg + (∑ i, (s.workers i).memory + s.shared.slack) = 0
  capacity : s.shared.mem.capacity = cfg.maxRawMemoryBytes

theorem PipelineStep.metered {s s' : State R S} (h : PipelineStep cfg s a s')
    (hc : s.Carries cfg) (hs : s.Metered cfg) : s'.Metered cfg := by
  cases h with
  | @reader r e pc sh hr =>
    have mem := hr.memory hs.serves rfl (hc.readers r)
    have want : (fun j => (update s.readers r pc j).wantMem cfg) =
        update (fun j => (s.readers j).wantMem cfg) r (pc.wantMem cfg) :=
      funext fun j => apply_update (fun _ => ReaderPC.wantMem cfg) s.readers r pc j
    refine ⟨by simp only [want]; exact mem.serves, ?_, mem.capacity.trans hs.capacity⟩
    have exchange : pc.memory cfg + (∑ i, (s.workers i).memory + sh.slack) =
        (s.readers r).memory cfg + (∑ i, (s.workers i).memory + s.shared.slack) := by
      have := mem.exchange
      omega
    exact (sum_update_exchange (ReaderPC.memory cfg) s.readers r pc exchange).trans hs.balance
  | @worker i e w sh hw =>
    have mem := hw.memory hs.serves
    refine ⟨mem.serves, ?_, mem.capacity.trans hs.capacity⟩
    have total := sum_update_exchange SendWorker.memory s.workers i w mem.exchange
    exact (congrArg (∑ r, (s.readers r).memory cfg + ·) total).trans hs.balance
  | _ => exact ⟨hs.serves, hs.balance, hs.capacity⟩

theorem reach_metered {s : State R S} (h : Reach (step cfg) (init cfg R S) s) : s.Metered cfg := by
  refine h.invariant ⟨.empty, ?_, rfl⟩ fun s a s' reached hs next =>
    (step_cases next).metered (reach_carries reached) hs
  simp [init, ReaderPC.memory, SendWorker.memory, SendWorker.init, Batch.empty, Shared.slack,
    MemSemaphore.demand, MemSemaphore.new, Chan.new, heldMem]

end CephVolsync.Pipeline
