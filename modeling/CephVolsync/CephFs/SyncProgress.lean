import CephVolsync.CephFs.SyncSafety

/-! The goroutines of a stateless sync do not block each other. A producer that waits for room in
a channel has a consumer that will take from it, or the group is cancelled; a consumer that
waits for an entry has a producer that will send one or close the channel. If a sync stands
still, `runSnapdiffBlockPipeline` is still running. -/

namespace CephVolsync.CephFs

open BatchWorker Pipeline TransitionSystem

variable {R S W : ℕ}

theorem RsyncPool.enabled {pool : RsyncPool W} {ch : Chan GoString}
    (some : ch.closed = true ∨ ch.buf ≠ []) (busy : pool.returned = false) (done : Bool) :
    ∃ i e r, pool.step done ch i e = .some r := by
  obtain ⟨i, active⟩ : ∃ i, (pool.workers i).pc.exited ≠ true := by
    simpa [returned] using busy
  cases hpc : (pool.workers i).pc with
  | recv =>
    refine ⟨i, .select .ready, ?_⟩
    cases hq : ch.buf with
    | cons p rest => simp [RsyncPool.step, rsyncWorkerLoop, hpc, hq]
    | nil =>
      have closed : ch.closed = true := some.resolve_right (by simp [hq])
      simp [RsyncPool.step, rsyncWorkerLoop, hpc, hq, closed]
  | job last => exact ⟨i, .rsyncBatch true, by simp [RsyncPool.step, rsyncWorkerLoop, hpc]⟩
  | exit err => rw [hpc] at active; exact absurd rfl active

theorem DeleteConsumer.enabled {d : DeleteConsumer} {ch : Chan GoString}
    (some : ch.closed = true ∨ ch.buf ≠ []) (busy : d.worker.pc.exited = false) (done : Bool) :
    ∃ e r, d.step done ch d.worker.pc e = .some r := by
  cases hpc : d.worker.pc with
  | recv =>
    cases ho : d.opened with
    | false => exact ⟨.rpc true, by simp [DeleteConsumer.step, ho]⟩
    | true =>
      refine ⟨.select .ready, ?_⟩
      cases hq : ch.buf with
      | cons p rest => simp [DeleteConsumer.step, ho, hq]
      | nil =>
        have closed : ch.closed = true := some.resolve_right (by simp [hq])
        simp [DeleteConsumer.step, ho, hq, closed]
  | job last => exact ⟨.rpc true, by simp [DeleteConsumer.step]⟩
  | exit err => rw [hpc] at busy; cases busy

namespace StatelessSync

variable {src : SyncSource} {s : StatelessSync R S W}

/-- Somebody other than the caller can make a step, or the block pipeline runs. -/
def Goes (src : SyncSource) (s : StatelessSync R S W) : Prop :=
  (∃ a s', a ≠ .cancel ∧ statelessStep src s a = some s') ∨ s.blocks = .running

theorem goes {a : StatelessAction R S W} (own : a ≠ .cancel)
    (h : (statelessStep src s a).isSome = true) : s.Goes src := by
  obtain ⟨s', hs⟩ := Option.isSome_iff_exists.mp h
  exact .inl ⟨a, s', own, hs⟩

theorem gctxDone_of_err (err : s.groupErr ≠ none) : s.gctxDone = true := by
  simp [gctxDone, Option.isSome_iff_ne_none.mpr err]

theorem special_goes (hw : s.Wired) (hr : s.Reported) (some : 0 < W)
    (input : s.smallCh.closed = true ∨ s.smallCh.buf ≠ []) :
    s.Goes src ∨ s.specialLeft = true ∧ (s.smallCh.buf = [] ∨ s.gctxDone = true) := by
  cases returned : s.special.returned with
  | false =>
    obtain ⟨i, e, r, step⟩ := RsyncPool.enabled input returned s.gctxDone
    exact .inl (goes (a := .special i e) (by simp) (by simp [statelessStep, step]))
  | true =>
    cases left : s.specialLeft with
    | false => exact .inl (goes (a := .specialReturn) (by simp) (by
        simp [statelessStep, returned, left]))
    | true =>
      refine .inr ⟨rfl, ?_⟩
      by_cases nil : s.special.groupErr = none
      · exact .inl (hw.special.emptied some returned nil)
      · exact .inr (gctxDone_of_err ((hr.special left).2 nil))

theorem metaRsync_goes (closed : s.committedCh.closed = true) :
    s.Goes src ∨ s.metaLeft = true := by
  cases returned : s.metaRsync.returned with
  | false =>
    obtain ⟨i, e, r, step⟩ := RsyncPool.enabled (.inl closed) returned s.gctxDone
    exact .inl (goes (a := .metaRsync i e) (by simp) (by simp [statelessStep, step]))
  | true =>
    cases left : s.metaLeft with
    | false => exact .inl (goes (a := .metaReturn) (by simp) (by
        simp [statelessStep, returned, left]))
    | true => exact .inr rfl

theorem deletes_goes (hw : s.Wired) (hr : s.Reported)
    (input : s.deletedCh.closed = true ∨ s.deletedCh.buf ≠ []) :
    s.Goes src ∨ s.deletes.worker.pc.exited = true ∧
      (s.deletedCh.buf = [] ∨ s.gctxDone = true) := by
  cases exited : s.deletes.worker.pc.exited with
  | false =>
    obtain ⟨e, r, step⟩ := DeleteConsumer.enabled input exited s.gctxDone
    exact .inl (goes (a := .deletes e) (by simp) (by simp [statelessStep, step]))
  | true =>
    refine .inr ⟨rfl, ?_⟩
    cases hpc : s.deletes.worker.pc with
    | exit err =>
      cases err with
      | none => exact .inl (hw.deletes.exit_none hpc).1
      | some err => exact .inr (gctxDone_of_err (hr.deletes err hpc))
    | _ => rw [hpc] at exited; cases exited

theorem blocks_goes (hm : s.Mirrored src) (hr : s.Reported)
    (input : s.largeCh.closed = true ∨ s.largeCh.buf ≠ []) :
    s.Goes src ∨ s.blocks.exited = true ∧ (s.largeCh.buf = [] ∨ s.gctxDone = true) := by
  cases hb : s.blocks with
  | peek =>
    refine .inl (goes (a := .peek) (by simp) ?_)
    cases hq : s.largeCh.buf with
    | cons first rest => simp [statelessStep, peek, hb, hq]
    | nil =>
      have closed : s.largeCh.closed = true := input.resolve_right (by simp [hq])
      simp [statelessStep, peek, hb, hq, closed]
  | openCommit =>
    exact .inl (goes (a := .openCommit true) (by simp) (by simp [statelessStep, openCommit, hb]))
  | running => exact .inl (.inr hb)
  | exit err =>
    refine .inr ⟨rfl, ?_⟩
    cases err with
    | some err => exact .inr (gctxDone_of_err (hr.blocks err hb))
    | none =>
      cases live : s.gctxDone with
      | true => exact .inr rfl
      | false =>
        rcases hm.nil hb with ⟨-, -, -, queue⟩ | ⟨x, hx, returned, nil⟩
        · exact .inl queue
        · obtain ⟨first, taken, -, mirrors⟩ := hm.snap x hx
          have ctx : x.ctxDone = false := by
            cases hc : x.ctxDone with
            | false => rfl
            | true => rw [hm.ctx x hx hc] at live; cases live
          exact .inl (mirrors.returned returned nil ctx).2.1

theorem producer_goes (active : s.producer.exited = false) :
    s.Goes src ∨ s.gctxDone = false ∧
      ∃ c dirPath left readErr, s.producer = .send c dirPath left readErr ∧ s.room c = false := by
  have ready (h : (s.produce src s.producer .ready).isSome = true) : s.Goes src :=
    goes (a := .producer .ready) (by simp) h
  cases hp : s.producer with
  | range =>
    refine .inl (ready ?_)
    cases hw : s.walk <;> simp [hp, produce, hw]
  | check dirPath =>
    refine .inl (ready ?_)
    cases hi : src.newSnapDiffIterator dirPath <;> cases hg : s.gctxDone <;>
      simp [hp, produce, hi, hg]
  | read dirPath left readErr =>
    refine .inl (ready ?_)
    cases left with
    | nil => simp [hp, produce]
    | cons entry left =>
      cases hc : src.route dirPath entry with
      | none => simp [hp, produce, hc]
      | some c => cases c <;> simp [hp, produce, hc]
  | send c dirPath left readErr =>
    cases fits : s.room c with
    | true => exact .inl (ready (by simp [hp, produce, fits]))
    | false =>
      cases live : s.gctxDone with
      | true => exact .inl (goes (a := .producer .ctxDone) (by simp) (by
          simp [statelessStep, hp, produce, live]))
      | false => exact .inr ⟨rfl, c, dirPath, left, readErr, rfl, fits⟩
  | exit err => rw [hp] at active; cases active

end StatelessSync

open StatelessSync in
/-- A sync that has not returned makes a step, or its block pipeline is running. -/
theorem sync_stands_still_in_pipeline (src : SyncSource) (s : StatelessSync 8 8 rsyncWorkers)
    (reached : Reach (statelessStep src) (statelessInit src 8 8 rsyncWorkers) s)
    (unreturned : ∀ err, s.main ≠ .returned err) : s.Goes src := by
  have wired := reach_wired reached
  have reported := reach_reported reached
  have mirrored := reach_mirrored reached
  by_contra stuck
  have full {α : Type} {buf : List α} (h : ¬buf.length < entryChanCap) : buf ≠ [] := by
    rintro rfl
    exact h (by simp [entryChanCap])
  have exited : s.producer.exited = true := by
    by_contra active
    obtain ⟨live, c, -, -, -, -, blocked⟩ :=
      (producer_goes (by simpa using active)).resolve_left stuck
    -- the channel is full, so its consumer goes on or the group is cancelled
    have waits {α : Type} {buf : List α} (queue : buf ≠ []) : ¬(buf = [] ∨ s.gctxDone = true) := by
      rw [live]
      simp [queue]
    cases c with
    | large fe =>
      have queue := full (by simpa [room] using blocked)
      exact waits queue ((blocks_goes mirrored reported (.inr queue)).resolve_left stuck).2
    | special path =>
      have queue := full (by simpa [room] using blocked)
      exact waits queue
        ((special_goes wired reported (by decide) (.inr queue)).resolve_left stuck).2
    | deleted path =>
      have queue := full (by simpa [room] using blocked)
      exact waits queue ((deletes_goes wired reported (.inr queue)).resolve_left stuck).2
    | directory => cases blocked
  have blocks := ((blocks_goes mirrored reported
    (.inl (wired.large.trans exited))).resolve_left stuck).1
  have special := ((special_goes wired reported (by decide)
    (.inl (wired.small.trans exited))).resolve_left stuck).1
  have deletes := ((deletes_goes wired reported
    (.inl (wired.deleted.trans exited))).resolve_left stuck).1
  have metaLeft := (metaRsync_goes (wired.committed.trans blocks)).resolve_left stuck
  have left : s.allLeft = true := by simp [allLeft, exited, blocks, special, deletes, metaLeft]
  refine stuck ?_
  cases hm : s.main with
  | wait => exact goes (a := .wait) (by simp) (by simp [statelessStep, hm, left])
  | convergence => exact goes (a := .convergence true) (by simp) (by simp [statelessStep, hm])
  | signalDone => exact goes (a := .signalDone true) (by simp) (by simp [statelessStep, hm])
  | returned err => exact absurd hm (unreturned err)

theorem sync_stands_still_in_pipeline_failed : ∃ (s : StatelessSync 8 8 4)
    (a : StatelessAction 8 8 4) (s' : StatelessSync 8 8 4),
    s.groupErr = some (.deletes .recvAck) ∧ (s.special.workers 0).pc = .exit (some .flush) ∧
      a ≠ .cancel ∧ statelessStep fourEntries s a = some s' := by
  obtain ⟨s, reached, -, failed, -, cancelled, peek, waits⟩ := failedBatch_reach
  have goes := sync_stands_still_in_pipeline fourEntries s reached (by simp [waits])
  obtain ⟨a, s', own, next⟩ := goes.resolve_right (by simp [peek])
  exact ⟨s, a, s', cancelled, failed, own, next⟩

end CephVolsync.CephFs
