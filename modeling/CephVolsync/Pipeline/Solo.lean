import CephVolsync.Pipeline.WindDown

/-! Runs in which one goroutine moves alone. They are the pieces from which a particular
schedule of the whole pipeline is put together: a read worker carries a chunk from
`chunkCh` to `readCh`, a send worker takes it from there. -/

namespace CephVolsync.Pipeline

open Function TransitionSystem WaitQueue

variable {R S : ℕ} {cfg : Config}

/-- A read worker on its own, as long as it does not return an error. -/
def readerAlone (cfg : Config) (done : Bool) (r : Fin R) (q : ReaderPC × Shared R)
    (e : ReaderEvent) :
    Option (ReaderPC × Shared R) :=
  (readWorker cfg done r q.2 q.1 e).filter fun q' => q'.1.exitErr.isNone

/-- A send worker on its own, as long as it does not return an error. -/
def workerAlone (cfg : Config) (done : Bool) (q : SendWorker × Shared R) (e : WorkerEvent) :
    Option (SendWorker × Shared R) :=
  (sendWorker cfg done q.1 q.2 q.1.pc e).filter fun q' => q'.1.exitErr.isNone

theorem reach_readerAlone {p : State R S} {r : Fin R} {es : List ReaderEvent} {pc : ReaderPC}
    {sh : Shared R} (h : exec (readerAlone cfg p.readDone r) (p.readers r, p.shared) es =
    some (pc, sh)) :
    Reach (restrict (fun _ a => a.own) (step cfg)) p
      { p with readers := update p.readers r pc, shared := sh } := by
  induction es generalizing p with
  | nil =>
    cases h
    rw [update_eq_self]
    exact .refl
  | cons e es ih =>
    obtain ⟨⟨pc₁, sh₁⟩, h₁, rest⟩ := Option.bind_eq_some_iff.mp h
    obtain ⟨moved, clean⟩ := Option.filter_eq_some_iff.mp h₁
    have none : pc₁.exitErr = none := by simpa using clean
    have taken : step cfg p (.reader r e) = some { p with
        readers := update p.readers r pc₁, shared := sh₁ } := by
      simp only [step, moved, Option.map_some, none, Option.or_none]
    have reached := @ih { p with readers := update p.readers r pc₁, shared := sh₁ }
      (by simpa [State.readDone, State.runDone] using rest)
    simp only [update_idem] at reached
    exact .head (restrict_eq_some.mpr ⟨rfl, taken⟩) reached

theorem reach_workerAlone {p : State R S} {i : Fin S} {es : List WorkerEvent} {w : SendWorker}
    {sh : Shared R} (own : ∀ e ∈ es, (Action.worker i e : Action R S).own = true)
    (h : exec (workerAlone cfg p.sendDone) (p.workers i, p.shared) es = some (w, sh)) :
    Reach (restrict (fun _ a => a.own) (step cfg)) p
      { p with workers := update p.workers i w, shared := sh } := by
  induction es generalizing p with
  | nil =>
    cases h
    rw [update_eq_self]
    exact .refl
  | cons e es ih =>
    obtain ⟨⟨w₁, sh₁⟩, h₁, rest⟩ := Option.bind_eq_some_iff.mp h
    obtain ⟨moved, clean⟩ := Option.filter_eq_some_iff.mp h₁
    have none : w₁.exitErr = none := by simpa using clean
    have taken : step cfg p (.worker i e) = some { p with
        workers := update p.workers i w₁, shared := sh₁ } := by
      simp only [step, moved, Option.map_some, none, Option.or_none]
    have reached := @ih { p with workers := update p.workers i w₁, shared := sh₁ }
      (fun e he => own e (List.mem_cons_of_mem _ he))
      (by simpa [State.sendDone, State.runDone] using rest)
    simp only [update_idem] at reached
    exact .head (restrict_eq_some.mpr ⟨own e List.mem_cons_self, taken⟩) reached

theorem MemSemaphore.release_acquired {γ : Type} {m : MemSemaphore γ} (h : m.waiters = []) (n : ℤ) :
    ({ m with cur := m.cur + n } : MemSemaphore γ).release n = m := by
  cases m
  simp_all [MemSemaphore.release, MemSemaphore.wakeWaiters, wake]

theorem readerAlone_eq {done : Bool} {r : Fin R} {pc pc' : ReaderPC} {sh sh' : Shared R}
    {e : ReaderEvent}
    (h : readWorker cfg done r sh pc e = some (pc', sh')) (clean : pc'.exitErr = none) :
    readerAlone cfg done r (pc, sh) e = some (pc', sh') := by
  simp [readerAlone, h, clean]

/-- The events by which a read worker takes a chunk, reads zeros and passes the chunk on. -/
def readZeros : List ReaderEvent :=
  [.select .ready, .select .ready, .select .ready, .data (some [0]), .select .ready, .select .ready]

theorem readerAlone_readZeros {done : Bool} {r : Fin R} {sh : Shared R} {c : Chunk}
    (hc : sh.chunkCh.buf = [c]) (hz : c.isZero = false) (hw : sh.mem.waiters = [])
    (hm : sh.mem.cur + acquireSize cfg c ≤ sh.mem.capacity)
    (hin : WindowSemaphore.inWindow sh.win.base sh.win.limit c.reqID = true)
    (hb : sh.readCh.buf.length < cfg.readChanBuf.toNat) :
    exec (readerAlone cfg done r) (.recv, sh) readZeros =
      some (.recv, { sh with
        chunkCh := { sh.chunkCh with buf := [] }
        readCh := sh.readCh.send (zeroChunk c)
        win := { sh.win with inFlight := sh.win.inFlight + 1 }
        log := { sh.log with reads := sh.log.reads ++ [(c.reqID, [0])] } }) := by
  have mem : sh.mem.acquire (acquireSize cfg c) r =
      ({ sh.mem with cur := sh.mem.cur + acquireSize cfg c }, true) := by
    simp [MemSemaphore.acquire, hm, hw]
  have win : sh.win.acquire c.reqID r =
    ({ sh.win with inFlight := sh.win.inFlight + 1 }, true) := by
    simp [WindowSemaphore.acquire, hin]
  let sh₁ : Shared R := { sh with chunkCh := { sh.chunkCh with buf := [] } }
  let sh₂ : Shared R := { sh₁ with mem := { sh.mem with cur := sh.mem.cur + acquireSize cfg c } }
  let sh₃ : Shared R := { sh₂ with win := { sh.win with inFlight := sh.win.inFlight + 1 } }
  let sh₄ : Shared R :=
    { sh₃ with log := { sh.log with reads := sh.log.reads ++ [(c.reqID, [0])] } }
  have h₁ : readerAlone cfg done r (.recv, sh) (.select .ready) = some (.memAcquire c, sh₁) :=
    readerAlone_eq (by simp [readWorker, hc, hz, sh₁]) rfl
  have h₂ : readerAlone cfg done r (.memAcquire c, sh₁) (.select .ready) =
      some (.winAcquire c, sh₂) :=
    readerAlone_eq (by simp [readWorker, mem, sh₁, sh₂]) rfl
  have h₃ : readerAlone cfg done r (.winAcquire c, sh₂) (.select .ready) = some (.read c, sh₃) :=
    readerAlone_eq (by simp [readWorker, win, hz, afterWin, sh₁, sh₂, sh₃]) rfl
  have h₄ : readerAlone cfg done r (.read c, sh₃) (.data (some [0])) = some (.freeMem c, sh₄) :=
    readerAlone_eq (by simp [readWorker, isAllZero, sh₁, sh₂, sh₃, sh₄]) rfl
  have h₅ : readerAlone cfg done r (.freeMem c, sh₄) (.select .ready) =
      some (.emit (zeroChunk c), { sh₄ with mem := sh.mem }) :=
    readerAlone_eq (by simp [readWorker, Shared.releaseMem, MemSemaphore.release_acquired hw, sh₂,
      sh₃, sh₄]) rfl
  rw [readZeros, exec_cons _ h₁, exec_cons _ h₂, exec_cons _ h₃, exec_cons _ h₄, exec_cons _ h₅]
  exact exec_cons _ (readerAlone_eq (by simp [readWorker, hb, sh₁, sh₂, sh₃, sh₄]) rfl)

theorem workerAlone_eq {done : Bool} {w w' : SendWorker} {sh sh' : Shared R} {e : WorkerEvent}
    (h : sendWorker cfg done w sh w.pc e = some (w', sh')) (clean : w'.exitErr = none) :
    workerAlone cfg done (w, sh) e = some (w', sh') := by
  simp [workerAlone, h, clean]

structure SendWorker.Ready (w : SendWorker) : Prop where
  running : w.pc = .running
  recv : w.sender = .recv
  free : ∀ e ∈ w.batch.entries, e.2.hasMem = false

/-- The events by which a send worker takes one chunk, with a `Send` first if the chunk does
not fit into the batch. -/
def SendWorker.absorb (cfg : Config) (w : SendWorker) (cc : ReadChunk) : List WorkerEvent :=
  if w.batch.overflows cfg cc then
    .sender .ready :: .send true :: List.replicate (w.batch.entries.length + 1) (.sender .ready)
  else [.sender .ready]

theorem workerAlone_sent {done : Bool} {w : SendWorker} {sh : Shared R} {cc : ReadChunk}
    {todo : List Held}
    (hp : w.pc = .running) (hs : w.sender = .sent todo (some cc))
    (hm : ∀ h ∈ todo, h.hasMem = false) :
    exec (workerAlone cfg done) (w, sh) (List.replicate (todo.length + 1) (.sender .ready)) =
      some ({ w with sender := .recv, batch := Batch.empty.append cc }, sh) := by
  induction todo generalizing w with
  | nil =>
    exact exec_cons _ (workerAlone_eq (by simp [sendWorker, hp, hs, dataSender])
      (by simp [SendWorker.exitErr, hp]))
  | cons hd todo ih =>
    have moved : workerAlone cfg done (w, sh) (.sender .ready) =
        some ({ w with sender := .sent todo (some cc) }, sh) :=
      workerAlone_eq (by simp [sendWorker, hp, hs, dataSender, hm hd])
        (by simp [SendWorker.exitErr, hp])
    rw [List.length_cons, List.replicate_succ, exec_cons _ moved]
    rw [@ih { w with sender := .sent todo (some cc) } hp rfl fun h hh =>
      hm h (List.mem_cons_of_mem _ hh)]

theorem workerAlone_absorb {done : Bool} {w : SendWorker} {sh : Shared R} {cc : ReadChunk}
    (hw : w.Ready) (hc : sh.readCh.buf = [cc]) (hm : cc.held.hasMem = false) :
    ∃ w' log, exec (workerAlone cfg done) (w, sh) (w.absorb cfg cc) =
        some (w', { sh with readCh := { sh.readCh with buf := [] }, log := log }) ∧
      w'.Ready ∧ w'.ack = w.ack ∧ w'.groupErr = w.groupErr := by
  obtain ⟨hp, hs, hfree⟩ := hw
  have clean : ∀ w' : SendWorker, w'.pc = .running → w'.exitErr = none := fun w' h => by
    simp [SendWorker.exitErr, h]
  unfold SendWorker.absorb
  cases hov : w.batch.overflows cfg cc with
  | false =>
    refine ⟨{ w with batch := w.batch.append cc }, sh.log,
      exec_cons _ (workerAlone_eq (by simp [sendWorker, hp, hs, dataSender, hc, hov]) (clean _ hp)),
      ⟨hp, hs, fun e he => ?_⟩, rfl, rfl⟩
    rcases List.mem_append.mp he with he | he
    · exact hfree e he
    · rw [List.mem_singleton.mp he]
      exact hm
  | true =>
    let sh₁ : Shared R := { sh with readCh := { sh.readCh with buf := [] } }
    let w₁ : SendWorker := { w with sender := .send (some cc) }
    have taken : workerAlone cfg done (w, sh) (.sender .ready) = some (w₁, sh₁) :=
      workerAlone_eq (by simp [sendWorker, hp, hs, dataSender, hc, hov, w₁, sh₁]) (clean _ hp)
    have sent : workerAlone cfg done (w₁, sh₁) (.send true) =
        some (sendBatch w₁ sh₁ (some cc) true) :=
      workerAlone_eq (by simp only [sendWorker, hp, w₁]; rfl) (clean _ hp)
    refine ⟨{ (sendBatch w₁ sh₁ (some cc) true).1 with
      sender := .recv, batch := Batch.empty.append cc },
      (sendBatch w₁ sh₁ (some cc) true).2.log, ?_, ⟨hp, rfl, ?_⟩, rfl, rfl⟩
    · rw [if_pos rfl, exec_cons _ taken, exec_cons _ sent]
      have freed := @workerAlone_sent R cfg done (sendBatch w₁ sh₁ (some cc) true).1
        (sendBatch w₁ sh₁ (some cc) true).2 cc (w.batch.entries.map (·.2)) hp rfl
        (fun h hh => by
          obtain ⟨e, he, rfl⟩ := List.mem_map.mp hh
          exact hfree e he)
      rw [List.length_map] at freed
      exact freed
    · simpa [Batch.append, Batch.empty] using hm

end CephVolsync.Pipeline
