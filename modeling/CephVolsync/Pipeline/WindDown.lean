import CephVolsync.Pipeline.Delivery

/-! A cancelled pipeline returns. Once the context is cancelled and the iterator has
answered, every goroutine has a step that does not wait for anybody, and each of these
steps brings its goroutine nearer to its end. -/

namespace CephVolsync.Pipeline

open Function TransitionSystem IndexedFamily

variable {R S : ℕ} {cfg : Config}

/-- A step of one of the pipeline's own goroutines, in which a call that it waits for may
return. The iterator, the caller, the destination and failures of its streams are others. -/
def Action.own : Action R S → Bool
  | .cancel | .iterNext _ | .takeRelease => false
  | .worker _ .handler | .worker _ .handlerFail | .worker _ .recvErr => false
  | _ => true

theorem step_ctxDone {s s' : State R S} {a : Action R S} (h : step cfg s a = some s')
    (hd : s.ctxDone = true) : s'.ctxDone = true := by
  cases step_cases h with
  | cancel => rfl
  | _ => exact hd

def ReaderPC.wind : ReaderPC → ReaderEvent
  | .recv | .memWait _ | .winWait _ | .emit _ => .select .ctxDone
  | .read _ => .data (some [])
  | _ => .select .ready

def Held.weight (h : Held) : ℕ := 1 + h.hasMem.toNat + h.hasWin.toNat

def ReaderPC.rank : ReaderPC → ℕ
  | .exit _ => 0
  | .releasing h _ => h.weight
  | .recv => 1
  | .emit _ => 4
  | .freeMem _ => 5
  | .read _ => 6
  | .winWait _ => 7
  | .winAcquire _ => 8
  | .memWait _ => 9
  | .memAcquire _ => 10

theorem Held.weight_pos (h : Held) : 0 < h.weight := by
  unfold Held.weight
  omega

theorem Held.weight_le (h : Held) : h.weight ≤ 3 := by
  have mem := Bool.toNat_le h.hasMem
  have win := Bool.toNat_le h.hasWin
  unfold Held.weight
  omega

theorem afterWin_rank (c : Chunk) : (afterWin c).rank < 7 := by
  unfold afterWin
  split <;> simp [ReaderPC.rank]

theorem readWorker_wind (r : Fin R) (sh : Shared R) {pc : ReaderPC} (h : pc.exited = false) :
    ∃ pc' sh', readWorker cfg true r sh pc pc.wind = some (pc', sh') ∧ pc'.rank < pc.rank := by
  cases pc with
  | recv => exact ⟨_, _, rfl, by simp [ReaderPC.rank]⟩
  | memAcquire c =>
    refine ⟨_, _, rfl, ?_⟩
    split <;> simp [ReaderPC.rank]
  | memWait c =>
    by_cases hc : r ∈ sh.mem.closed
    · exact ⟨.winAcquire c, _, by simp [ReaderPC.wind, readWorker, hc]; rfl,
        by simp [ReaderPC.rank]⟩
    · exact ⟨.exit (some .ctx), _, by simp [ReaderPC.wind, readWorker, hc]; rfl,
        by simp [ReaderPC.rank]⟩
  | winAcquire c =>
    have after := afterWin_rank c
    refine ⟨_, _, rfl, ?_⟩
    split
    · exact after.trans (by simp [ReaderPC.rank])
    · simp [ReaderPC.rank]
  | winWait c =>
    by_cases hc : r ∈ sh.win.closed
    · exact ⟨afterWin c, _, by simp [ReaderPC.wind, readWorker, hc]; rfl, afterWin_rank c⟩
    · refine ⟨.releasing ⟨c.reqID, acquireSize cfg c, false, !c.isZero⟩ .ctx, _,
        by simp [ReaderPC.wind, readWorker, hc]; rfl, ?_⟩
      exact (Held.weight_le _).trans_lt (by simp [ReaderPC.rank])
  | read c => exact ⟨.freeMem c, _, by simp [ReaderPC.wind, readWorker, isAllZero]; rfl,
      by simp [ReaderPC.rank]⟩
  | freeMem c => exact ⟨_, _, rfl, by simp [ReaderPC.rank]⟩
  | emit rc => exact ⟨_, _, rfl, (Held.weight_le _).trans_lt (by simp [ReaderPC.rank])⟩
  | releasing hd err =>
    cases hm : hd.hasMem with
    | true =>
      exact ⟨_, _, by simp [ReaderPC.wind, readWorker, hm]; exact ⟨rfl, rfl⟩,
        by simp [ReaderPC.rank, Held.weight, hm]⟩
    | false =>
      cases hw : hd.hasWin with
      | true =>
        exact ⟨_, _, by simp [ReaderPC.wind, readWorker, hm, hw]; exact ⟨rfl, rfl⟩,
          by simp [ReaderPC.rank, Held.weight, hm, hw]⟩
      | false =>
        exact ⟨_, _, by simp [ReaderPC.wind, readWorker, hm, hw]; exact ⟨rfl, rfl⟩,
          by simp [ReaderPC.rank, Held.weight, hm, hw]⟩
  | exit err => simp [ReaderPC.exited] at h

/-- The event by which a send worker with a cancelled context goes on: its sender ends
first, then its ack receiver, then the worker. -/
def SendWorker.wind (w : SendWorker) : WorkerEvent :=
  match w.pc, w.sender, w.ack with
  | .opening, _, _ => .open true
  | _, .recv, _ => .sender .ctxDone
  | _, .send _, _ => .send true
  | _, .sent _ _, _ | _, .abort _ _, _ => .sender .ready
  | _, .exit _, .recv => .ack .ctxDone
  | _, .exit _, .release _ => .ack .ready
  | _, .exit _, .exit _ => .ret

def weights (todo : List Held) : ℕ := (todo.map Held.weight).sum

def SendWorker.senderRank (w : SendWorker) : ℕ :=
  match w.sender with
  | .exit _ => 0
  | .abort todo _ => 1 + weights todo
  | .recv => 2 + weights (w.batch.entries.map (·.2))
  | .sent todo next => 3 + todo.length + weights (next.map (·.held)).toList
  | .send next => 4 + w.batch.entries.length + weights (next.map (·.held)).toList

def AckPC.rank : AckPC → ℕ
  | .exit _ => 0
  | .recv => 1
  | .release ids => 2 + ids.length

def SendWorker.rank (w : SendWorker) : ℕ :=
  match w.pc with
  | .exit _ => 0
  | .running => 1 + w.senderRank + w.ack.rank
  | .opening => 2 + w.senderRank + w.ack.rank

theorem releaseHead_weights (sh : Shared R) (hd : Held) (todo : List Held) :
    weights (releaseHead sh hd todo).1 < weights (hd :: todo) := by
  have pos := hd.weight_pos
  unfold releaseHead
  split_ifs with hm hw <;> simp only [weights, List.map_cons, List.sum_cons]
  · simp [Held.weight, hm]
  · omega
  · omega

theorem SendWorker.wind_own (i : Fin S) (w : SendWorker) :
    (Action.worker i w.wind : Action R S).own = true := by
  unfold SendWorker.wind
  split <;> rfl

theorem sendWorker_wind (w : SendWorker) (sh : Shared R) (h : w.exited = false) :
    ∃ w' sh', sendWorker cfg true w sh w.pc w.wind = some (w', sh') ∧ w'.rank < w.rank := by
  cases hpc : w.pc with
  | exit err => simp [SendWorker.exited, hpc] at h
  | opening => exact ⟨_, _, by simp only [SendWorker.wind, hpc, sendWorker]; rfl,
      by simp [SendWorker.rank, SendWorker.senderRank, hpc]⟩
  | running =>
    cases hs : w.sender with
    | recv =>
      exact ⟨_, _,
        by simp only [SendWorker.wind, hpc, hs, sendWorker, dataSender, Bool.true_or, if_true]; rfl,
        by simp [SendWorker.rank, SendWorker.senderRank, hpc, hs]⟩
    | send next =>
      exact ⟨_, _, by simp only [SendWorker.wind, hpc, hs, sendWorker]; rfl,
        by simp [SendWorker.rank, SendWorker.senderRank, hpc, hs]⟩
    | sent todo next =>
      rcases todo with _ | ⟨hd, todo⟩
      · cases next with
        | none => exact ⟨_, _, by simp only [SendWorker.wind, hpc, hs, sendWorker, dataSender]; rfl,
            by simp [SendWorker.rank, SendWorker.senderRank, hpc, hs, SendWorker.exitSender]⟩
        | some cc => exact ⟨_, _,
            by simp only [SendWorker.wind, hpc, hs, sendWorker, dataSender]; rfl,
            by simp [SendWorker.rank, SendWorker.senderRank, hpc, hs, Batch.append, Batch.empty]⟩
      · exact ⟨_, _, by simp only [SendWorker.wind, hpc, hs, sendWorker, dataSender]; rfl,
            by simp [SendWorker.rank, SendWorker.senderRank, hpc, hs]⟩
    | abort todo err =>
      rcases todo with _ | ⟨hd, todo⟩
      · exact ⟨_, _, by simp only [SendWorker.wind, hpc, hs, sendWorker, dataSender]; rfl,
            by simp [SendWorker.rank, SendWorker.senderRank, hpc, hs, SendWorker.exitSender]⟩
      · refine ⟨_, _, by simp only [SendWorker.wind, hpc, hs, sendWorker, dataSender]; rfl, ?_⟩
        have less := releaseHead_weights sh hd todo
        simp only [SendWorker.rank, SendWorker.senderRank, hpc, hs]
        omega
    | exit err =>
      cases ha : w.ack with
      | recv =>
        refine ⟨_, _, by
          simp only [SendWorker.wind, hpc, hs, ha, sendWorker, ackReceiver, Bool.true_or, if_true]
          rfl, ?_⟩
        simp [SendWorker.rank, SendWorker.senderRank, hpc, hs, ha, SendWorker.exitAck, AckPC.rank]
      | release ids =>
        cases ids with
        | nil => exact ⟨_, _,
            by simp only [SendWorker.wind, hpc, hs, ha, sendWorker, ackReceiver]; rfl,
            by simp [SendWorker.rank, SendWorker.senderRank, hpc, hs, ha, AckPC.rank]⟩
        | cons id ids => exact ⟨_, _,
            by simp only [SendWorker.wind, hpc, hs, ha, sendWorker, ackReceiver]; rfl,
            by simp [SendWorker.rank, SendWorker.senderRank, hpc, hs, ha, AckPC.rank]⟩
      | exit err' => exact ⟨_, _, by simp only [SendWorker.wind, hpc, hs, ha, sendWorker]; rfl,
            by simp [SendWorker.rank, SendWorker.senderRank, hpc, hs, ha]⟩

def FeederPC.rank : FeederPC → ℕ
  | .exit _ => 0
  | _ => 1

def State.rank (s : State R S) : ℕ :=
  s.feeder.rank + ∑ r, (s.readers r).rank + ∑ i, (s.workers i).rank + s.stageRead.isNone.toNat +
    s.stageSend.isNone.toNat + (!s.returned).toNat

theorem wind_step {s : State R S} (hctx : s.ctxDone = true) (hf : s.feeder ≠ .next)
    (hr : s.returned = false) :
    ∃ a s', a.own = true ∧ step cfg s a = some s' ∧ s'.rank < s.rank ∧ s'.ctxDone = true ∧
      s'.feeder ≠ .next := by
  have run : s.runDone = true := by simp [State.runDone, hctx]
  have read : s.readDone = true := by simp [State.readDone, run]
  have send : s.sendDone = true := by simp [State.sendDone, run]
  cases hfe : s.feeder with
  | next => exact absurd hfe hf
  | send c =>
    have taken : step cfg s (.feeder .ctxDone) =
        some ({ s with shared := s.shared.drop c.reqID }.exitFeeder (some .ctx)) := by
      simp only [step, feeder, hfe, run, if_true]
    refine ⟨_, _, rfl, taken, ?_, hctx, by simp [State.exitFeeder]⟩
    simp only [State.rank, State.exitFeeder, FeederPC.rank, hfe]
    omega
  | exit err =>
    by_cases readers : ∀ r, (s.readers r).exited = true
    · by_cases sr : s.stageRead = none
      · have taken : step cfg s .stageRead = some { s with
            stageRead := some s.readErr
            runErr := s.runErr.or s.readErr
            shared := { s.shared with readCh := s.shared.readCh.close } } := by
          simp only [step, sr, readers, implies_true, and_self, if_true]
        refine ⟨_, _, rfl, taken, ?_, hctx, hf⟩
        simp [State.rank, sr]
      · by_cases workers : ∀ i, (s.workers i).exited = true
        · by_cases ss : s.stageSend = none
          · have taken : step cfg s .stageSend = some { s with
                stageSend := some s.sendErr, runErr := s.runErr.or s.sendErr } := by
              simp only [step, ss, workers, implies_true, and_self, if_true]
            refine ⟨_, _, rfl, taken, ?_, hctx, hf⟩
            simp [State.rank, ss]
          · have taken : step cfg s .run = some { s with returned := true } := by
              simp only [step, hfe, hr, Option.isSome_iff_ne_none.mpr sr,
                Option.isSome_iff_ne_none.mpr ss, and_self, if_true]
            refine ⟨_, _, rfl, taken, ?_, hctx, hf⟩
            simp [State.rank, hr]
        · obtain ⟨i, hi⟩ := not_forall.mp workers
          obtain ⟨w', sh', hstep, less⟩ := @sendWorker_wind R cfg (s.workers i) s.shared
            (by simpa using hi)
          have total := sum_update_add SendWorker.rank s.workers i w'
          have taken : step cfg s (.worker i (s.workers i).wind) = some { s with
              workers := update s.workers i w', sendErr := s.sendErr.or w'.exitErr, shared :=
                sh' } := by
            simp only [step, send, hstep, Option.map_some]
          refine ⟨_, _, SendWorker.wind_own _ _, taken, ?_, hctx, hf⟩
          simp only [State.rank]
          omega
    · obtain ⟨r, hr'⟩ := not_forall.mp readers
      obtain ⟨pc', sh', hstep, less⟩ := @readWorker_wind R cfg r s.shared (s.readers r)
        (by simpa using hr')
      have total := sum_update_add ReaderPC.rank s.readers r pc'
      have taken : step cfg s (.reader r (s.readers r).wind) = some { s with
          readers := update s.readers r pc', readErr := s.readErr.or pc'.exitErr, shared :=
            sh' } := by
        simp only [step, read, hstep, Option.map_some]
      refine ⟨_, _, rfl, taken, ?_, hctx, hf⟩
      simp only [State.rank]
      omega

theorem winds_down {s : State R S} (hctx : s.ctxDone = true) (hf : s.feeder ≠ .next) :
    ∃ s', Reach (restrict (fun _ a => a.own) (step cfg)) s s' ∧ s'.returned = true := by
  induction hm : s.rank using Nat.strong_induction_on generalizing s with
  | h m ih =>
    by_cases hr : s.returned = true
    · exact ⟨s, .refl, hr⟩
    · obtain ⟨a, s₁, own, hstep, less, hctx₁, hf₁⟩ :=
        @wind_step R S cfg s hctx hf (by simpa using hr)
      obtain ⟨s', reached, returned⟩ := ih _ (hm ▸ less) hctx₁ hf₁ rfl
      exact ⟨s', .head (restrict_eq_some.mpr ⟨own, hstep⟩) reached, returned⟩

end CephVolsync.Pipeline
