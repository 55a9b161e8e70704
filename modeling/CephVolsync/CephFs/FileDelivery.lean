import CephVolsync.CephFs.CommitSafety

/-! Which files a successful `runSnapdiffBlockPipeline` commits and reports on `committedCh`:
exactly those of which the iterator returned a block, each once. A file whose diff cannot
be opened, or whose diff begins with an error or without blocks, is passed over. -/

namespace CephVolsync.CephFs

open Pipeline TransitionSystem

variable {R S : ℕ} {cfg : Config} {newIter : GoString → Option FileDiff} {opts : IterOptions}

/-- An error of a goroutine is the group's error; without one the iterator was exhausted. -/
structure Snapdiff.Accounted (s : Snapdiff R S) : Prop where
  drainer : ∀ err, s.drainer.pc = .exit (some err) → s.groupErr ≠ none
  closer : s.closer = .exit → s.groupErr = none → s.feed.pc = .exhausted

theorem Snapdiff.leaveGroup_err {s : Snapdiff R S} {err : Option SnapErr}
    (h : (s.leaveGroup err).groupErr = none) : s.groupErr = none ∧ err = none := by
  cases err with
  | none => exact ⟨h, rfl⟩
  | some e => cases hg : s.groupErr <;> simp [Snapdiff.leaveGroup, hg] at h

theorem SnapStep.accounted {files : List ChangedFileEntry} {s s' : Snapdiff R S}
    {a : SnapAction R S}
    (h : SnapStep cfg opts s a s') (hr : Reach (step cfg) (init cfg R S) s.pipe)
    (ht : s.Traced opts files) (hs : s.Accounted) : s'.Accounted := by
  cases h with
  | next hf =>
    refine ⟨hs.drainer, fun hc => ?_⟩
    exact absurd ((ht.feeding hr hf).symm.trans hc) (by simp)
  | @answer b f p ha hp =>
    refine ⟨hs.drainer, fun hc => ?_⟩
    exact absurd ((ht.feeding hr (step_iterNext hp).1).symm.trans hc) (by simp)
  | @drainer e d ch win hd =>
    obtain ⟨hfeed, -, hdr, hcl, -⟩ := (s.drained d ch win).leaveGroup_frame (Snapdiff.exitErr d.pc)
    refine ⟨fun err he hg => ?_, fun hc hg => ?_⟩
    · have none := (Snapdiff.leaveGroup_err hg).2
      rw [hdr] at he
      simp [Snapdiff.exitErr, show d.pc = _ from he] at none
    · rw [hfeed]
      rw [hcl] at hc
      exact hs.closer hc (Snapdiff.leaveGroup_err hg).1
  | closeCh hpc =>
    obtain ⟨hfeed, -, hdr, -, -⟩ := ({ s with
      closer := .exit, feed := { s.feed with boundaryCh := s.feed.boundaryCh.close } } :
        Snapdiff R S).leaveGroup_frame (s.pipe.runErr.map .pipeline)
    refine ⟨fun err he hg => ?_, fun _ hg => ?_⟩
    · rw [hdr] at he
      exact hs.drainer err he (Snapdiff.leaveGroup_err hg).1
    · rw [hfeed]
      have none : s.pipe.runErr = none := Option.map_eq_none_iff.mp (Snapdiff.leaveGroup_err hg).2
      exact ht.ended (State.Succeeded.finished ⟨ht.returned (by simp [hpc]), none⟩ hr).feeder
  | closeStart | closeIter | flush | flushStop | flushEnd => exact ⟨hs.drainer, by simp⟩
  | _ => exact ⟨hs.drainer, hs.closer⟩

theorem reach_accounted {first : ChangedFileEntry} {rest : List ChangedFileEntry} {s : Snapdiff R S}
    (h : Reach (snapStep cfg newIter) (snapInit cfg R S first rest) s) : s.Accounted := by
  refine h.invariant ?_ fun _ _ _ reached hs next =>
    (snapStep_cases next).accounted (snap_reach reached) (reach_traced reached) hs
  exact ⟨by simp [snapInit, CommitDrainer.new], by simp [snapInit]⟩

theorem Snapdiff.Returned.received {first : ChangedFileEntry} {rest : List ChangedFileEntry}
    {s : Snapdiff R S} (hs : s.Returned)
    (h : Reach (snapStep cfg newIter) (snapInit cfg R S first rest) s) (hctx : s.ctxDone = false)
    (herr : s.groupErr = none) :
    s.drainer.pc = .exit none ∧ (s.drainer.received.map (·.file)).Perm
      ((first :: rest).filter (iterOptions cfg newIter).commits) := by
  obtain ⟨hcl, err, hpc⟩ := hs
  have accounted := reach_accounted h
  have traced := reach_traced h
  have booked := reach_booked h
  have ended : s.drainer.pc = .exit none := by
    cases err with
    | none => exact hpc
    | some e => exact absurd herr (accounted.drainer e hpc)
  have exhausted := accounted.closer hcl herr
  obtain ⟨hbuf, hclosed⟩ := traced.exhausted hctx exhausted
  have entered : s.feed.entered = first :: rest := by
    have complete := traced.complete hctx
    rwa [hbuf, traced.forwarded hctx hclosed, List.append_nil, List.append_nil] at complete
  have perm : s.drainer.received.Perm s.feed.emitted := by
    refine List.perm_iff_count.mpr fun fb => ?_
    have tally := booked.tally_eq hctx fb
    rw [Snapdiff.tally, (booked.flushing (by rw [ended]; rfl)).1, Snapdiff.unsent, hcl] at tally
    simpa using tally
  refine ⟨ended, (perm.map _).trans ?_⟩
  rw [traced.follows.emitted, Feed.past, exhausted, entered]

/-- If `runSnapdiffBlockPipeline` returns nil and the caller's context was not cancelled, the
commit entries sent are those of the files that had a block, with their sizes, and the same
paths were put on `committedCh`, each of them once. -/
theorem files_with_blocks_committed (newIter : GoString → Option FileDiff)
    (first : ChangedFileEntry)
    (rest : List ChangedFileEntry) (hd : ((first :: rest).map (·.path)).Nodup) (s : Snapdiff 8 8)
    (h : Reach (snapStep snapConfig newIter) (snapInit snapConfig 8 8 first rest) s)
    (hctx : s.ctxDone = false) (hret : s.Returned) (herr : s.groupErr = none) :
    let files := (first :: rest).filter (iterOptions snapConfig newIter).commits
    s.drainer.requests.flatten.Perm (files.map fun fe => ⟨fe.path, uint64 fe.size⟩) ∧
      s.drainer.notified.Perm (files.map (·.path)) ∧ s.drainer.notified.Nodup := by
  obtain ⟨ended, received⟩ := hret.received h hctx herr
  have booked := reach_booked h
  obtain ⟨-, entries, paths⟩ := booked.balanced
  have orderly := booked.orderly
  simp only [CommitDrainer.Orderly, ended, CommitDrainer.OrderlyAt] at orderly
  obtain ⟨batch, committed, pending⟩ := orderly
  have notified : s.drainer.notified.Perm
      (((first :: rest).filter (iterOptions snapConfig newIter).commits).map (·.path)) := by
    have paths := paths (by simp [ended])
    simp only [committed, pending, ended, DrainerPC.todo, List.append_nil, List.map_nil] at paths
    rw [paths]
    simpa [Function.comp_def, FileBoundary.file] using received.map (·.path)
  refine ⟨?_, notified, ?_⟩
  · simp only [batch, pending, List.append_nil, List.map_nil] at entries
    have mapped := received.map fun fe => (⟨fe.path, uint64 fe.size⟩ : CommitEntry)
    rw [List.map_map] at mapped
    rw [entries]
    exact mapped
  · exact notified.nodup_iff.mpr (hd.sublist (List.filter_sublist.map _))

def committedSchedule : List (SnapAction 8 8) :=
  ackedSchedule ++ [.drainer (.rpc true), .drainer (.select .ready), .drainer (.select .ready)]

theorem files_with_blocks_committed_skipped : ∃ s : Snapdiff 8 8,
    s.Returned ∧ s.feed.entered = [largeFile "a", largeFile "b"] ∧
      s.drainer.notified.Perm [goString "a"] := by
  have run : (exec (snapStep snapConfig diffOfA)
      (snapInit snapConfig 8 8 (largeFile "a") [largeFile "b"]) committedSchedule).any (fun s =>
        s.closer = .exit ∧ s.drainer.pc = .exit none ∧ s.ctxDone = false ∧ s.groupErr = none ∧
          s.feed.entered = [largeFile "a", largeFile "b"]) = true := by
    decide +kernel
  obtain ⟨s, reached, hs⟩ := Reach.of_exec_any run
  simp only [decide_eq_true_eq] at hs
  obtain ⟨closer, drainer, ctx, err, entered⟩ := hs
  have returned : s.Returned := ⟨closer, none, drainer⟩
  obtain ⟨-, notified, -⟩ := files_with_blocks_committed diffOfA (largeFile "a") [largeFile "b"]
    (by decide +kernel) s reached ctx returned err
  have paths : (([largeFile "a", largeFile "b"].filter
      (iterOptions snapConfig diffOfA).commits).map (·.path)) = [goString "a"] := by
    decide +kernel
  exact ⟨s, returned, entered, paths ▸ notified⟩

def emptySchedule : List (SnapAction 8 8) :=
  List.flatten [[.pipe (.iterNext none)],
    (List.finRange 8).map fun r => .pipe (.reader r (.select .ready)),
    [.pipe .stageRead], (List.finRange 8).flatMap idleWorker,
    repeats [(1, .pipe .stageSend), (1, .pipe .run), (4, .closer .ready),
      (2, .drainer (.select .ready))]]

/-- The diff of the only file cannot be opened: `Next` passes over it. -/
def skipSchedule : List (SnapAction 8 8) :=
  repeats [(7, .next .ready), (1, .proxy .ready), (1, .next .ready)] ++ emptySchedule

/-- A nil return without a commit of a file of the stream and without its path on `committedCh`. -/
theorem unopened_file_skipped : ∃ s : Snapdiff 8 8,
    Reach (snapStep snapConfig fun _ => none) (snapInit snapConfig 8 8 (largeFile "a") []) s ∧
      s.Returned ∧ s.groupErr = none ∧ s.ctxDone = false ∧ (largeFile "a").path ≠ [] ∧
      0 < (largeFile "a").size ∧ s.drainer.requests = [] ∧
      (largeFile "a").path ∉ s.drainer.notified := by
  have run : (exec (snapStep snapConfig fun _ => none) (snapInit snapConfig 8 8 (largeFile "a") [])
      skipSchedule).any (fun s => s.closer = .exit ∧ s.drainer.pc = .exit none ∧ s.groupErr = none ∧
        s.ctxDone = false ∧ s.drainer.requests = [] ∧ s.drainer.notified = []) = true := by
    decide +kernel
  obtain ⟨s, reached, hs⟩ := Reach.of_exec_any run
  simp only [decide_eq_true_eq] at hs
  obtain ⟨closer, drainer, err, ctx, requests, notified⟩ := hs
  exact ⟨s, reached, ⟨closer, none, drainer⟩, err, ctx, by decide +kernel, by decide,
    requests, by simp [notified]⟩

/-- Also a file with a block is passed over when the context is cancelled: `nextFile` may return
false before it looks at the channel, and then nobody reports an error. -/
theorem cancelled_file_skipped : ∃ s : Snapdiff 8 8,
    Reach (snapStep snapConfig fun _ => none) (snapInit snapConfig 8 8 smallFile []) s ∧
      s.Returned ∧ s.groupErr = none ∧ s.ctxDone = true ∧
      (iterOptions snapConfig fun _ => none).commits smallFile = true ∧
      s.drainer.requests = [] ∧ smallFile.path ∉ s.drainer.notified := by
  have run : (exec (snapStep snapConfig fun _ => none) (snapInit snapConfig 8 8 smallFile [])
      (repeats [(1, .cancel), (3, .next .ready), (1, .next .ctxDone)] ++ emptySchedule)).any
      (fun s => s.closer = .exit ∧ s.drainer.pc = .exit none ∧ s.groupErr = none ∧
        s.ctxDone = true ∧ s.drainer.requests = [] ∧ s.drainer.notified = []) = true := by
    decide +kernel
  obtain ⟨s, reached, hs⟩ := Reach.of_exec_any run
  simp only [decide_eq_true_eq] at hs
  obtain ⟨closer, drainer, err, ctx, requests, notified⟩ := hs
  exact ⟨s, reached, ⟨closer, none, drainer⟩, err, ctx, by decide +kernel, requests,
    by simp [notified]⟩

end CephVolsync.CephFs
