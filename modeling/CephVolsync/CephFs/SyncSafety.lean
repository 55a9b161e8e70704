import CephVolsync.CephFs.CommitOrder
import CephVolsync.CephFs.SyncOutcome

/-! What holds at every moment of a stateless sync, whatever fails or is cancelled: nothing is
taken twice or without being listed, batches are never empty and never too large, and the
metadata of a file is touched only after the destination has acknowledged the commit of the
file. -/

namespace CephVolsync.Pipeline

variable {γ : Type} {R S : ℕ} {cfg : Config} {done : Bool}

theorem release_base_le (win : WindowSemaphore γ) (reqID : ℕ) :
    win.base ≤ (win.release reqID).base := by
  unfold WindowSemaphore.release
  split
  · exact le_rfl
  · exact CephFs.advance_base_le _ _ _ _

theorem ReaderStep.base_le {r : Fin R} {pc pc' : ReaderPC} {sh sh' : Shared R} {e : ReaderEvent}
    (h : ReaderStep cfg done r pc sh e pc' sh') : sh.win.base ≤ sh'.win.base := by
  cases h with
  | winTake | winQueue => exact (WindowSemaphore.acquire_frame).1.ge
  | relWin => exact release_base_le _ _
  | _ => exact le_rfl

theorem WorkerStep.base_le {w w' : SendWorker} {sh sh' : Shared R} {e : WorkerEvent}
    (h : WorkerStep cfg done w sh e w' sh') : sh.win.base ≤ sh'.win.base := by
  cases h with
  | abortWin | ackRelease => exact release_base_le _ _
  | @free hd => cases hm : hd.hasMem <;> exact le_rfl
  | _ => exact le_rfl

theorem PipelineStep.base_le {s s' : State R S} {a : Action R S} (h : PipelineStep cfg s a s') :
    s.shared.win.base ≤ s'.shared.win.base := by
  cases h with
  | reader hr => exact hr.base_le
  | worker hw => exact hw.base_le
  | _ => exact le_rfl

end CephVolsync.Pipeline

namespace CephVolsync.CephFs

open BatchWorker Pipeline TransitionSystem

variable {R S W : ℕ}

theorem StatelessSync.Listed.routed_of_changes {src : SyncSource} {s : StatelessSync R S W}
    (h : s.Listed src) : s.routed <+: src.changes := by
  have same : (s.routed.map some).filterMap id = s.routed := by simp
  exact same ▸ h.sofar.filterMap id

theorem deletes_of_changes {src : SyncSource} {s : StatelessSync R S W}
    (reached : Reach (statelessStep src) (statelessInit src R S W) s) :
    s.deletes.worker.taken <+: src.changes.filterMap Changed.deleted? := by
  have front : s.deletes.worker.taken <+: s.routed.filterMap Changed.deleted? := by
    rw [← (reach_syncAccounted reached).deleted]
    exact List.prefix_append _ _
  exact front.trans ((reach_listed reached).routed_of_changes.filterMap _)

theorem DeleteConsumer.Sent.front {d : DeleteConsumer} (h : d.Sent) :
    d.requests.flatten <+: d.worker.taken := by
  rw [h.requests, Worker.taken, List.flatten_append]
  cases d.awaiting <;> simp

/-- At every moment, also behind a failure, the paths that the special workers took are among the
listed ones, each as often as it is listed; the paths for deletion were taken in the order of the
listing, the requests hold a front of them and at most one is unanswered; and no batch that was
handed over is empty or above its limit, whether the hand-over succeeded, is under way or
failed. -/
theorem entries_handled_at_most_once (src : SyncSource) (s : StatelessSync 8 8 rsyncWorkers)
    (reached : Reach (statelessStep src) (statelessInit src 8 8 rsyncWorkers) s) :
    s.special.taken ≤ (src.changes.filterMap Changed.special? : Multiset GoString) ∧
      s.deletes.worker.taken <+: src.changes.filterMap Changed.deleted? ∧
      s.deletes.requests.flatten <+: s.deletes.worker.taken ∧
      s.deletes.requests.length ≤ s.deletes.worker.jobs.length + 1 ∧
      (∀ batch ∈ s.deletes.requests ++ s.deletes.worker.submitted DeletesErr.ofBatch,
        batch ≠ [] ∧ batch.length ≤ deleteBatchSize) ∧
      ∀ i, ∀ batch ∈ (s.special.workers i).submitted RsyncErr.ofBatch ++
        (s.metaRsync.workers i).submitted RsyncErr.ofBatch,
        batch ≠ [] ∧ batch.length ≤ smallBatchSize := by
  have accounted := reach_syncAccounted reached
  have wired := reach_wired reached
  have routed := (reach_listed reached).routed_of_changes
  refine ⟨?_, deletes_of_changes reached, wired.deletes.sent.front, ?_, ?_, fun i => ?_⟩
  · calc
      s.special.taken ≤ s.special.taken + (s.smallCh.buf : Multiset GoString) :=
        Multiset.le_add_right _ _
      _ = (s.routed.filterMap Changed.special? : Multiset GoString) := accounted.special
      _ ≤ _ := Multiset.coe_le.mpr (routed.filterMap _).sublist.subperm
  · rw [wired.deletes.sent.requests]
    cases s.deletes.awaiting <;> simp
  · rw [List.forall_mem_append]
    exact ⟨wired.deletes.sizes, wired.deletes.worker.submitted⟩
  · rw [List.forall_mem_append]
    exact ⟨(wired.special.workers i).submitted, (wired.metaRsync.workers i).submitted⟩

/-- The delete request is sent and its answer fails; then the only rsync of a special file
fails. The other workers are still there. -/
def failedBatchSchedule : List (StatelessAction 8 8 4) :=
  List.flatten [List.replicate 11 (.producer .ready),
    [.deletes (.rpc true), .deletes (.select .ready), .deletes (.select .ready),
      .deletes (.rpc true), .deletes (.rpc false)],
    [.special 0 (.select .ready), .special 0 (.select .ready), .special 0 (.rsyncBatch false)]]

theorem failedBatch_reach : ∃ s : StatelessSync 8 8 4,
    Reach (statelessStep fourEntries) (statelessInit fourEntries 8 8 4) s ∧
      (s.special.workers 0).submitted RsyncErr.ofBatch = [[goString "/l"]] ∧
      (s.special.workers 0).pc = .exit (some .flush) ∧
      s.deletes.requests = [[goString "/g"]] ∧ s.groupErr = some (.deletes .recvAck) ∧
      s.blocks = .peek ∧ s.main = .wait := by
  have run : (exec (statelessStep fourEntries) (statelessInit fourEntries 8 8 4)
      failedBatchSchedule).any (fun s =>
        (s.special.workers 0).submitted RsyncErr.ofBatch = [[goString "/l"]] ∧
        (s.special.workers 0).pc = .exit (some .flush) ∧ s.deletes.requests = [[goString "/g"]] ∧
        s.groupErr = some (.deletes .recvAck) ∧ s.blocks = .peek ∧ s.main = .wait) = true := by
    decide +kernel
  obtain ⟨s, reached, hs⟩ := Reach.of_exec_any run
  exact ⟨s, reached, of_decide_eq_true hs⟩

theorem entries_handled_at_most_once_failed : ∃ s : StatelessSync 8 8 4,
    (s.special.workers 0).pc = .exit (some .flush) ∧ s.special.taken ≤ {goString "/l"} ∧
      s.deletes.requests = [[goString "/g"]] ∧ s.deletes.worker.taken <+: [goString "/g"] ∧
      [goString "/l"].length ≤ smallBatchSize := by
  obtain ⟨s, reached, batch, failed, requests, -⟩ := failedBatch_reach
  obtain ⟨special, deleted, -, -, -, sizes⟩ := entries_handled_at_most_once fourEntries s reached
  rw [fourEntries_changes] at special deleted
  refine ⟨s, failed, special, requests, deleted, (sizes (0 : Fin 4) _ ?_).2⟩
  rw [batch]
  simp

theorem snapStep_base_le {cfg : Config} {newIter : GoString → Option FileDiff}
    {x x' : Snapdiff R S} {a : SnapAction R S} (h : snapStep cfg newIter x a = some x') :
    x.pipe.shared.win.base ≤ x'.pipe.shared.win.base := by
  cases snapStep_cases h with
  | answer _ hp => exact (step_cases hp).base_le
  | pipe _ hp => exact (step_cases hp).base_le
  | drainer hd =>
    rw [(Snapdiff.leaveGroup_pipe _).1]
    rcases hd.win_eq with same | ⟨-, same⟩
    · simp [Snapdiff.drained, same]
    · simp [Snapdiff.drained, same, WindowSemaphore.takeRelease]
  | closeCh => rw [(Snapdiff.leaveGroup_pipe _).1]
  | _ => exact le_rfl

def DrainerPC.unanswered : DrainerPC → Bool
  | .recvAck _ _ | .exit (some .recvCommitAck) => true
  | _ => false

/-- The commit requests that the destination has answered. -/
def CommitDrainer.acknowledged (d : CommitDrainer) : List (List CommitEntry) :=
  if d.pc.unanswered then d.requests.dropLast else d.requests

namespace CommitDrainer

variable {γ : Type} {maxWindow : ℕ} {done : Bool} {d d' : CommitDrainer}
  {ch ch' : Chan FileBoundary} {win win' : WindowSemaphore γ} {e : DrainEvent}

theorem Committing.mono {isReleased isReleased' : ℕ → Bool} {answered : List (List CommitEntry)}
    (h : d.Committing isReleased answered)
    (more : ∀ id, isReleased id = true → isReleased' id = true) :
    d.Committing isReleased' answered := by
  obtain ⟨front, received, released, rest⟩ := h.front
  exact ⟨⟨front, received, fun fb hfb => more _ (released fb hfb), rest⟩, h.sizes, h.stage⟩

theorem acknowledged_of (h : d.pc.unanswered = false) : d.acknowledged = d.requests := by
  simp [acknowledged, h]

theorem run_acknowledged (h : d.run maxWindow done ch win d.pc e = some (d', ch', win'))
    (quiet : ∀ l more, d.pc ≠ .recvAck l more) : d'.acknowledged = d.acknowledged := by
  have settled : d.pc.unanswered = false := by
    unfold DrainerPC.unanswered
    split
    · exact absurd ‹_› (quiet _ _)
    · rename_i exit
      rw [exit] at h
      cases h
    · rfl
  rw [acknowledged_of settled]
  cases run_cases h with
  | take => exact acknowledged_of (by simp only [take]; split <;> rfl)
  | @finish l => exact acknowledged_of (by cases l <;> simp only [finish, leave] <;> split <;> rfl)
  | @send l more ok =>
    cases ok with
    | true => simp [acknowledged, sendCommit, DrainerPC.unanswered]
    | false => exact acknowledged_of rfl
  | recvAck hpc => exact absurd hpc (quiet _ _)
  | notify => exact acknowledged_of rfl
  | @notified l more =>
    exact acknowledged_of (by cases more <;> cases l <;> rfl)
  | _ => exact acknowledged_of rfl

theorem Committing.run (hd : d.Committing win.isReleased d.acknowledged)
    (h : d.run maxWindow done ch win d.pc e = some (d', ch', win')) :
    d'.Committing win'.isReleased d'.acknowledged := by
  by_cases answer : ∃ l more, d.pc = .recvAck l more
  · obtain ⟨l, more, hpc⟩ := answer
    obtain ⟨ok, -, rfl, -, rfl⟩ := run_recvAck hpc h
    have next := hd.recvAck hpc ok
    have before : d.acknowledged = d.requests.dropLast := by
      simp [acknowledged, hpc, DrainerPC.unanswered]
    have after : (d.recvCommit l more ok).acknowledged =
        d.requests.dropLast ++ if ok then d.requests.getLast?.toList else [] := by
      cases ok with
      | true =>
        have last : d.requests = d.requests.dropLast ++ d.requests.getLast?.toList := by
          rcases d.requests.eq_nil_or_concat with none | ⟨front, last, some⟩
          · simp [none]
          · simp [some]
        simpa [acknowledged, recvCommit, DrainerPC.unanswered] using last
      | false => simp [acknowledged, recvCommit, DrainerPC.unanswered]
    rw [after, ← before]
    exact next
  · have quiet : ∀ l more, d.pc ≠ .recvAck l more := fun l more hpc => answer ⟨l, more, hpc⟩
    rw [run_acknowledged h quiet]
    exact Committing.step (run_cases h) hd quiet

end CommitDrainer

theorem reach_committing {cfg : Config} {newIter : GoString → Option FileDiff}
    {first : ChangedFileEntry} {rest : List ChangedFileEntry} {x : Snapdiff R S}
    (h : Reach (snapStep cfg newIter) (snapInit cfg R S first rest) x) :
    x.drainer.Committing x.pipe.shared.win.isReleased x.drainer.acknowledged := by
  refine h.invariant (P := fun x : Snapdiff R S =>
    x.drainer.Committing x.pipe.shared.win.isReleased x.drainer.acknowledged) ?_ ?_
  · exact ⟨⟨[], rfl, by simp, rfl, rfl⟩, by simp [snapInit, CommitDrainer.new], rfl, rfl, rfl, rfl⟩
  intro x a x' _ hx next
  cases a with
  | drainer e =>
    obtain ⟨⟨d, ch, win⟩, run, rfl⟩ := Option.map_eq_some_iff.mp next
    rw [(Snapdiff.leaveGroup_frame _).2.2.1, (Snapdiff.leaveGroup_pipe _).1]
    exact hx.run run
  | _ =>
    rw [snapStep_drainer next (by simp)]
    refine hx.mono fun id released => ?_
    have grows := snapStep_base_le next
    simp only [WindowSemaphore.isReleased, decide_eq_true_eq] at released ⊢
    omega

/-- The metadata workers hold a path only after the destination has answered the commit request
that names it, and not more often than it was committed. -/
theorem metadata_after_commit (src : SyncSource) (s : StatelessSync 8 8 rsyncWorkers)
    (reached : Reach (statelessStep src) (statelessInit src 8 8 rsyncWorkers) s) :
    s.metaRsync.taken = 0 ∨ ∃ x, s.snap = some x ∧
      s.metaRsync.taken ≤ (commitPaths x.drainer.acknowledged : Multiset GoString) := by
  have committed := (reach_syncAccounted reached).committed
  have taken : s.metaRsync.taken ≤ (s.notified : Multiset GoString) :=
    committed ▸ Multiset.le_add_right _ _
  cases hx : s.snap with
  | none =>
    left
    rw [StatelessSync.notified, hx] at taken
    exact Multiset.le_zero.mp taken
  | some x =>
    right
    refine ⟨x, rfl, ?_⟩
    rw [StatelessSync.notified, hx] at taken
    obtain ⟨first, received, -, mirrors⟩ := (reach_mirrored reached).snap x hx
    obtain ⟨rest, left, run⟩ := mirrors.reach
    have told := (reach_committing run).stage.failed.2
    exact taken.trans (Multiset.coe_le.mpr told.sublist.subperm)

theorem metadata_after_commit_four : ∃ (s : StatelessSync 8 8 rsyncWorkers) (x : Snapdiff 8 8),
    s.doneSent = true ∧ s.snap = some x ∧ s.metaRsync.taken = {goString "/a"} ∧
      goString "/a" ∈ commitPaths x.drainer.acknowledged := by
  obtain ⟨s, reached, done, live⟩ := fourEntries_reach
  obtain ⟨ok, -⟩ := (reach_concluded reached).succeeded (reach_reported reached) done
  have taken : s.metaRsync.taken = {goString "/a"} := by
    rw [← (reach_wired reached).metaRsync.handed_eq ok.metaRsync.1 ok.metaRsync.2,
      metadata_handled reached ok (by decide) live, fourEntries_commits]
    rfl
  rcases metadata_after_commit fourEntries s reached with none | ⟨x, hx, committed⟩
  · rw [taken] at none
    exact absurd none (Multiset.singleton_ne_zero _)
  · rw [taken] at committed
    exact ⟨s, x, done, hx, taken, Multiset.mem_coe.mp (Multiset.singleton_le.mp committed)⟩

end CephVolsync.CephFs
