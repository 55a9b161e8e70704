import CephVolsync.Basic
import CephVolsync.Library.BatchWorker
import CephVolsync.Library.IndexedFamily
import CephVolsync.Pipeline.Machine

/-! The consumers of paths in `internal/worker/cephfs/source.go`: the rsync workers that
`consumeMetaRsync` and `consumeSpecialFiles` start on their channels, and `consumeDeletes`.

All of them gather paths into batches. What a step can do to a worker and its channel is
said once, in `Consumes`; whether `rsyncBatch` or a call of the delete stream succeeds is
up to the environment. The model ends at the call of `rsyncBatch`. What rsync makes of the
list is not part of it: the list has one line for each path, without `--from0`, so a path with
a line break is not one entry there, and a failed write of the list goes unnoticed. -/

namespace CephVolsync.CephFs

open BatchWorker Function IndexedFamily Pipeline

def smallBatchSize : ℕ := 500

def deleteBatchSize : ℕ := 10000

def rsyncWorkers : ℕ := 4

/-- `worker` and `flush` wrap an error of `rsyncBatch`. -/
inductive RsyncErr where
  | ctx
  | worker (workerID : ℕ)
  | flush
  deriving DecidableEq, Repr

def RsyncErr.ofBatch : RsyncErr → Bool
  | ctx => false
  | worker _ | flush => true

abbrev RsyncWorker := Worker GoString RsyncErr

inductive RsyncEvent where
  | select (b : Branch)
  | rsyncBatch (ok : Bool)
  deriving DecidableEq, Repr

/-- One step of `rsyncWorkerLoop` on its channel; `done` is the context of its group. -/
def rsyncWorkerLoop (workerID : ℕ) (done : Bool) (w : RsyncWorker) (ch : Chan GoString) :
    PC RsyncErr → RsyncEvent → Option (RsyncWorker × Chan GoString)
  | .recv, .select .ready =>
    match ch.buf with
    | p :: rest => some (w.take smallBatchSize p, { ch with buf := rest })
    | [] => if ch.closed then some (w.finish, ch) else none
  | .recv, .select .ctxDone => if done then some (w.fail .ctx, ch) else none
  | .job last, .rsyncBatch ok =>
    some (if ok then w.complete last else w.fail (if last then .flush else .worker workerID), ch)
  | _, _ => none

structure RsyncPool (W : ℕ) where
  workers : Fin W → RsyncWorker
  groupErr : Option RsyncErr
  deriving DecidableEq

inductive DeletesErr where
  | ctx
  | openStream
  | send
  | recvAck
  deriving DecidableEq, Repr

def DeletesErr.ofBatch : DeletesErr → Bool
  | ctx | openStream => false
  | send | recvAck => true

/-- `consumeDeletes`: whether its stream is open, whether a request waits for its answer,
and the requests sent so far. -/
structure DeleteConsumer where
  opened : Bool
  awaiting : Bool
  worker : Worker GoString DeletesErr
  requests : List (List GoString)
  deriving DecidableEq, Repr

inductive DeletesEvent where
  | select (b : Branch)
  | rpc (ok : Bool)
  deriving DecidableEq, Repr

namespace RsyncPool

variable {W : ℕ}

def new (W : ℕ) : RsyncPool W := ⟨fun _ => .new, none⟩

def step (done : Bool) (pool : RsyncPool W) (ch : Chan GoString) (i : Fin W) (e : RsyncEvent) :
    Option (RsyncPool W × Chan GoString) :=
  (rsyncWorkerLoop i (done || pool.groupErr.isSome) (pool.workers i) ch (pool.workers i).pc e).map
    fun r => (⟨update pool.workers i r.1, pool.groupErr.or r.1.pc.error⟩, r.2)

def returned (pool : RsyncPool W) : Bool := decide (∀ i, (pool.workers i).pc.exited = true)

end RsyncPool

namespace DeleteConsumer

def new : DeleteConsumer := ⟨false, false, .new, []⟩

def fail (d : DeleteConsumer) (err : DeletesErr) : DeleteConsumer :=
  { d with worker := d.worker.fail err }

def sendDeleteBatch (d : DeleteConsumer) (last ok : Bool) : DeleteConsumer :=
  if d.awaiting then
    if ok then { d with awaiting := false, worker := d.worker.complete last } else d.fail .recvAck
  else if ok then { d with awaiting := true, requests := d.requests ++ [d.worker.batch] }
  else d.fail .send

def step (done : Bool) (d : DeleteConsumer) (ch : Chan GoString) :
    PC DeletesErr → DeletesEvent → Option (DeleteConsumer × Chan GoString)
  | .recv, .rpc ok =>
    if d.opened then none
    else some (if ok then { d with opened := true } else d.fail .openStream, ch)
  | .recv, .select .ready =>
    if d.opened then
      match ch.buf with
      | p :: rest =>
        some ({ d with worker := d.worker.take deleteBatchSize p }, { ch with buf := rest })
      | [] => if ch.closed then some ({ d with worker := d.worker.finish }, ch) else none
    else none
  | .recv, .select .ctxDone => if d.opened ∧ done then some (d.fail .ctx, ch) else none
  | .job last, .rpc ok => some (d.sendDeleteBatch last ok, ch)
  | _, _ => none

end DeleteConsumer

section Consumes

variable {ε : Type}

inductive Consumes (limit : ℕ) (jobErr : ε → Bool) (w : Worker GoString ε) (ch : Chan GoString) :
    Worker GoString ε → Chan GoString → Prop
  | idle : Consumes limit jobErr w ch w ch
  | take {p : GoString} {rest : List GoString} : w.pc = .recv → ch.buf = p :: rest →
      Consumes limit jobErr w ch (w.take limit p) { ch with buf := rest }
  | finish : w.pc = .recv → ch.buf = [] → ch.closed = true →
      Consumes limit jobErr w ch w.finish ch
  | complete {last : Bool} : w.pc = .job last → Consumes limit jobErr w ch (w.complete last) ch
  | fail (err : ε) : w.pc.exited = false → (jobErr err = true → ∃ last, w.pc = .job last) →
      Consumes limit jobErr w ch (w.fail err) ch

namespace Consumes

variable {limit : ℕ} {jobErr : ε → Bool} {w w' : Worker GoString ε} {ch ch' : Chan GoString}

theorem sound (h : Consumes limit jobErr w ch w' ch') (hw : w.Sound limit jobErr) :
    w'.Sound limit jobErr := by
  cases h with
  | idle => exact hw
  | take ready => exact hw.take ready _
  | finish ready => exact hw.finish ready
  | complete runs => exact hw.complete runs
  | fail _ active why => exact hw.fail active why

theorem taken (h : Consumes limit jobErr w ch w' ch') :
    w'.taken ++ ch'.buf = w.taken ++ ch.buf := by
  cases h with
  | take _ queue => simp [queue]
  | _ => simp

theorem closed (h : Consumes limit jobErr w ch w' ch') : ch'.closed = ch.closed := by
  cases h <;> rfl

theorem ended (h : Consumes limit jobErr w ch w' ch') (last : ch.closed = true ∧ ch.buf = []) :
    ch'.closed = true ∧ ch'.buf = [] := by
  cases h with
  | take _ queue => rw [last.2] at queue; cases queue
  | _ => exact last

theorem drained (h : Consumes limit jobErr w ch w' ch')
    (before : w.pc.drained = true → ch.closed = true ∧ ch.buf = []) (hw : w'.pc.drained = true) :
    ch'.closed = true ∧ ch'.buf = [] := by
  cases h with
  | idle => exact before hw
  | take ready =>
    simp only [Worker.take] at hw
    split_ifs at hw <;> cases hw
  | finish _ queue closed => exact ⟨closed, queue⟩
  | @complete last runs =>
    cases last with
    | false => cases hw
    | true => exact before (by rw [runs]; rfl)
  | fail => cases hw

end Consumes

end Consumes

theorem rsyncWorkerLoop_cases {workerID : ℕ} {done : Bool} {w w' : RsyncWorker}
    {ch ch' : Chan GoString} {e : RsyncEvent}
    (h : rsyncWorkerLoop workerID done w ch w.pc e = some (w', ch')) :
    Consumes smallBatchSize RsyncErr.ofBatch w ch w' ch' := by
  unfold rsyncWorkerLoop at h
  split at h
  · rename_i ready
    split at h
    · cases h; exact .take ready ‹_›
    · split at h <;> cases h
      exact .finish ready ‹_› ‹_›
  · split at h <;> cases h
    exact .fail _ (by simp [*, PC.exited]) (by simp [RsyncErr.ofBatch])
  · cases h
    split
    · exact .complete ‹_›
    · exact .fail _ (by simp [*, PC.exited]) fun _ => ⟨_, ‹_›⟩
  · cases h

namespace RsyncPool

variable {W : ℕ} {done : Bool} {pool pool' : RsyncPool W} {ch ch' : Chan GoString} {i : Fin W}
  {e : RsyncEvent}

theorem step_cases (h : pool.step done ch i e = some (pool', ch')) :
    ∃ w, Consumes smallBatchSize RsyncErr.ofBatch (pool.workers i) ch w ch' ∧
      pool' = ⟨update pool.workers i w, pool.groupErr.or w.pc.error⟩ := by
  obtain ⟨⟨w, c⟩, hw, hr⟩ := Option.map_eq_some_iff.mp h
  cases hr
  exact ⟨w, rsyncWorkerLoop_cases hw, rfl⟩

def taken (pool : RsyncPool W) : Multiset GoString := ∑ i, ((pool.workers i).taken : Multiset _)

/-- The paths in calls of `rsyncBatch` that returned nil. -/
def handed (pool : RsyncPool W) : Multiset GoString :=
  ∑ i, ((pool.workers i).jobs.flatten : Multiset _)

structure Sound (pool : RsyncPool W) (ch : Chan GoString) : Prop where
  workers : ∀ i, (pool.workers i).Sound smallBatchSize RsyncErr.ofBatch
  drained : ∀ i, (pool.workers i).pc.drained = true → ch.closed = true ∧ ch.buf = []
  failed : ∀ i err, (pool.workers i).pc = .exit (some err) → pool.groupErr ≠ none

theorem new_sound (W : ℕ) (ch : Chan GoString) : (new W).Sound ch where
  workers _ := Worker.new_sound (by decide)
  drained _ h := by cases h
  failed _ _ h := by cases h

theorem Sound.send (h : pool.Sound ch) (open_ : ch.closed = false) (path : GoString) :
    pool.Sound (ch.send path) :=
  ⟨h.workers, fun i hi => absurd (h.drained i hi).1 (by simp [open_]), h.failed⟩

theorem Sound.close (h : pool.Sound ch) : pool.Sound ch.close :=
  ⟨h.workers, fun i hi => ⟨rfl, (h.drained i hi).2⟩, h.failed⟩

theorem returned_stuck (returned : pool.returned = true) : pool.step done ch i e = none := by
  have exited := of_decide_eq_true returned i
  cases hpc : (pool.workers i).pc with
  | exit err => simp [RsyncPool.step, hpc, rsyncWorkerLoop]
  | _ => rw [hpc] at exited; cases exited

theorem new_taken (W : ℕ) : (new W).taken = 0 := by simp [taken, new]

theorem Sound.step (h : pool.Sound ch) (hs : pool.step done ch i e = some (pool', ch')) :
    pool'.Sound ch' := by
  obtain ⟨w, consumes, rfl⟩ := step_cases hs
  refine ⟨?_, ?_, ?_⟩
  · exact forall_update (P := fun _ (v : RsyncWorker) => v.Sound smallBatchSize RsyncErr.ofBatch)
      (consumes.sound (h.workers i)) fun j _ => h.workers j
  · exact forall_update (P := fun _ (v : RsyncWorker) => v.pc.drained = true → _)
      (consumes.drained (h.drained i)) fun j _ hj => consumes.ended (h.drained j hj)
  · refine forall_update (P := fun _ (v : RsyncWorker) => ∀ err, v.pc = .exit (some err) → _)
      (fun err hw => ?_) fun j _ err hj => ?_
    · simp [hw, PC.error]
    · have some := h.failed j err hj
      cases hg : pool.groupErr with
      | none => exact absurd hg some
      | some _ => simp

theorem step_taken (hs : pool.step done ch i e = some (pool', ch')) :
    pool'.taken + (ch'.buf : Multiset GoString) = pool.taken + (ch.buf : Multiset GoString) := by
  obtain ⟨w, consumes, rfl⟩ := step_cases hs
  refine sum_update_exchange (fun v : RsyncWorker => (v.taken : Multiset GoString)) _ i w ?_
  have lists := consumes.taken
  rw [Multiset.coe_add, Multiset.coe_add, lists]

theorem step_closed (hs : pool.step done ch i e = some (pool', ch')) : ch'.closed = ch.closed := by
  obtain ⟨w, consumes, -⟩ := step_cases hs
  exact consumes.closed

theorem Sound.exit_none (h : pool.Sound ch) (returned : pool.returned = true)
    (nil : pool.groupErr = none) (i : Fin W) : (pool.workers i).pc = .exit none := by
  have exited := of_decide_eq_true returned i
  cases hpc : (pool.workers i).pc with
  | exit err =>
    cases err with
    | none => rfl
    | some err => exact absurd nil (h.failed i err hpc)
  | _ => rw [hpc] at exited; cases exited

theorem Sound.handed_eq (h : pool.Sound ch) (returned : pool.returned = true)
    (nil : pool.groupErr = none) : pool.handed = pool.taken := by
  refine Finset.sum_congr rfl fun i _ => ?_
  rw [(h.workers i).taken_exit (h.exit_none returned nil i)]

theorem Sound.emptied (h : pool.Sound ch) (some : 0 < W) (returned : pool.returned = true)
    (nil : pool.groupErr = none) : ch.buf = [] := by
  have first := h.exit_none returned nil ⟨0, some⟩
  exact (h.drained ⟨0, some⟩ (by rw [first]; rfl)).2

end RsyncPool

namespace DeleteConsumer

variable {done : Bool} {d d' : DeleteConsumer} {ch ch' : Chan GoString} {e : DeletesEvent}

/-- The requests are the answered ones and the one that waits for its answer. -/
structure Sent (d : DeleteConsumer) : Prop where
  requests : d.requests = d.worker.jobs ++ if d.awaiting then [d.worker.batch] else []
  waits : d.awaiting = true →
    (∃ last, d.worker.pc = .job last) ∨ d.worker.pc = .exit (some .recvAck)

structure Sound (d : DeleteConsumer) (ch : Chan GoString) : Prop where
  worker : d.worker.Sound deleteBatchSize DeletesErr.ofBatch
  drained : d.worker.pc.drained = true → ch.closed = true ∧ ch.buf = []
  sent : d.Sent
  sizes : ∀ request ∈ d.requests, request ≠ [] ∧ request.length ≤ deleteBatchSize

theorem new_sound (ch : Chan GoString) : new.Sound ch where
  worker := Worker.new_sound (by decide)
  drained h := by cases h
  sent := ⟨rfl, by simp [new]⟩
  sizes _ h := by cases h

theorem exited_stuck (exited : d.worker.pc.exited = true) :
    d.step done ch d.worker.pc e = none := by
  cases hpc : d.worker.pc with
  | exit err => rfl
  | _ => rw [hpc] at exited; cases exited

theorem Sound.send (h : d.Sound ch) (open_ : ch.closed = false) (path : GoString) :
    d.Sound (ch.send path) :=
  ⟨h.worker, fun hw => absurd (h.drained hw).1 (by simp [open_]), h.sent, h.sizes⟩

theorem Sound.close (h : d.Sound ch) : d.Sound ch.close :=
  ⟨h.worker, fun hw => ⟨rfl, (h.drained hw).2⟩, h.sent, h.sizes⟩

theorem step_cases (h : d.step done ch d.worker.pc e = some (d', ch')) :
    Consumes deleteBatchSize DeletesErr.ofBatch d.worker ch d'.worker ch' := by
  unfold step at h
  split at h
  · rename_i ready
    split at h
    · cases h
    · cases h
      split
      · exact .idle
      · exact .fail _ (by simp [ready, PC.exited]) (by simp [DeletesErr.ofBatch])
  · rename_i ready
    split at h
    · split at h
      · cases h; exact .take ready ‹_›
      · split at h <;> cases h
        exact .finish ready ‹_› ‹_›
    · cases h
  · split at h <;> cases h
    exact .fail _ (by simp [*, PC.exited]) (by simp [DeletesErr.ofBatch])
  · rename_i last _ runs
    cases h
    have active : d.worker.pc.exited = false := by rw [runs]; rfl
    unfold sendDeleteBatch
    split_ifs
    · exact .complete runs
    · exact .fail _ active fun _ => ⟨last, runs⟩
    · exact .idle
    · exact .fail _ active fun _ => ⟨last, runs⟩
  · cases h

theorem Sound.exit_none (h : d.Sound ch) (nil : d.worker.pc = .exit none) :
    ch.buf = [] ∧ d.requests = d.worker.jobs ∧ d.worker.taken = d.requests.flatten := by
  have none : d.awaiting = false := by
    cases ha : d.awaiting with
    | false => rfl
    | true =>
      rcases h.sent.waits ha with ⟨last, runs⟩ | failed
      · rw [nil] at runs; cases runs
      · rw [nil] at failed; cases failed
  have requests : d.requests = d.worker.jobs := by simpa [none] using h.sent.requests
  refine ⟨(h.drained (by rw [nil]; rfl)).2, requests, ?_⟩
  rw [requests]
  exact h.worker.taken_exit nil

theorem Sent.settled (h : d.Sent) (ready : d.worker.pc = .recv) :
    d.awaiting = false ∧ d.requests = d.worker.jobs := by
  have none : d.awaiting = false := by
    cases ha : d.awaiting with
    | false => rfl
    | true =>
      rcases h.waits ha with ⟨last, runs⟩ | failed
      · rw [ready] at runs; cases runs
      · rw [ready] at failed; cases failed
  exact ⟨none, by simpa [none] using h.requests⟩

theorem Sent.sendDeleteBatch (h : d.Sent) {last : Bool} (runs : d.worker.pc = .job last)
    (ok : Bool) : (d.sendDeleteBatch last ok).Sent := by
  have requests := h.requests
  cases ha : d.awaiting with
  | true =>
    rw [ha, if_pos rfl] at requests
    cases ok with
    | true => exact ⟨by simp [DeleteConsumer.sendDeleteBatch, ha, requests, Worker.complete],
        by simp [DeleteConsumer.sendDeleteBatch, ha]⟩
    | false => exact ⟨by simp [DeleteConsumer.sendDeleteBatch, ha, requests, fail, Worker.fail],
        by simp [DeleteConsumer.sendDeleteBatch, ha, fail, Worker.fail]⟩
  | false =>
    rw [ha, if_neg (by simp), List.append_nil] at requests
    cases ok with
    | true => exact ⟨by simp [DeleteConsumer.sendDeleteBatch, ha, requests],
        by simp [DeleteConsumer.sendDeleteBatch, ha, runs]⟩
    | false => exact ⟨by simp [DeleteConsumer.sendDeleteBatch, ha, requests, fail, Worker.fail],
        by simp [DeleteConsumer.sendDeleteBatch, ha, fail]⟩

theorem Sent.step (h : d.Sent) (hs : d.step done ch d.worker.pc e = some (d', ch')) : d'.Sent := by
  unfold DeleteConsumer.step at hs
  split at hs
  · rename_i ok ready
    obtain ⟨none, requests⟩ := h.settled ready
    split at hs <;> cases hs
    cases ok
    · exact ⟨by simp [fail, Worker.fail, none, requests], by simp [fail, none]⟩
    · exact ⟨by simp [none, requests], by simp [none]⟩
  · rename_i ready
    obtain ⟨none, requests⟩ := h.settled ready
    split at hs
    · split at hs
      · cases hs
        exact ⟨by simp [Worker.take, none, requests], by simp [none]⟩
      · split at hs <;> cases hs
        exact ⟨by simp [Worker.finish, none, requests], by simp [none]⟩
    · cases hs
  · rename_i ready
    obtain ⟨none, requests⟩ := h.settled ready
    split at hs <;> cases hs
    exact ⟨by simp [fail, Worker.fail, none, requests], by simp [fail, none]⟩
  · cases hs
    exact h.sendDeleteBatch ‹_› _
  · cases hs

theorem step_requests (hs : d.step done ch d.worker.pc e = some (d', ch')) :
    d'.requests = d.requests ∨
      ∃ last, d.worker.pc = .job last ∧ d'.requests = d.requests ++ [d.worker.batch] := by
  unfold DeleteConsumer.step at hs
  split at hs
  · rename_i ok _
    split at hs <;> cases hs
    cases ok <;> exact .inl rfl
  · split at hs
    · split at hs
      · cases hs; exact .inl rfl
      · split at hs <;> cases hs
        exact .inl rfl
    · cases hs
  · split at hs <;> cases hs
    exact .inl rfl
  · rename_i last ok runs
    cases hs
    cases ha : d.awaiting with
    | true => exact .inl (by cases ok <;> simp [DeleteConsumer.sendDeleteBatch, ha, fail])
    | false =>
      cases ok with
      | true => exact .inr ⟨last, runs, by simp [DeleteConsumer.sendDeleteBatch, ha]⟩
      | false => exact .inl (by simp [DeleteConsumer.sendDeleteBatch, ha, fail])
  · cases hs

theorem Sound.step (h : d.Sound ch) (hs : d.step done ch d.worker.pc e = some (d', ch')) :
    d'.Sound ch' := by
  have consumes := step_cases hs
  refine ⟨consumes.sound h.worker, consumes.drained h.drained, h.sent.step hs, ?_⟩
  rcases step_requests hs with same | ⟨last, runs, more⟩
  · rw [same]
    exact h.sizes
  · have batch := h.worker.filled
    rw [runs] at batch
    rw [more, List.forall_mem_append]
    exact ⟨h.sizes, by simpa [Worker.Filled] using batch⟩

end DeleteConsumer

end CephVolsync.CephFs
