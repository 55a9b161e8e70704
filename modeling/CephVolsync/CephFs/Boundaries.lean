import CephVolsync.CephFs.Snapdiff

/-! File boundaries over a whole run. The iterator enters the files in order and emits one
boundary behind each file that had a block; the boundary carries the id of the file's last
block; and every boundary is in `boundaryCh`, waiting in the iterator, or received by the
drainer. -/

namespace CephVolsync.CephFs

open Extents Pipeline TransitionSystem

/-- The iterator returns a block of the file. -/
def IterOptions.emits (opts : IterOptions) (fe : ChangedFileEntry) : Bool :=
  if fe.size = 0 then false
  else if opts.smallFileThreshold > 0 ∧ fe.size > 0 ∧ fe.size ≤ opts.smallFileThreshold then true
  else
    match opts.newIter fe.path with
    | some (some blocks :: _) => blocks.elems ≠ []
    | _ => false

/-- The iterator emits a boundary for the file. -/
def IterOptions.commits (opts : IterOptions) (fe : ChangedFileEntry) : Bool :=
  fe.path ≠ [] ∧ opts.emits fe

def CephFSBlockIterator.HasBatch (it : CephFSBlockIterator) : Prop :=
  ∃ blocks rest, it.curIter = some (some blocks :: rest) ∧ blocks.elems ≠ []

def CephFSBlockIterator.file (it : CephFSBlockIterator) : ChangedFileEntry :=
  ⟨it.curFile, it.totalSize⟩

def CephFSBlockIterator.Yields (it : CephFSBlockIterator) : Prop :=
  it.fileStartReqID < it.reqID ∨ it.buf ≠ [] ∨ it.HasBatch

namespace Feed

def past (f : Feed) : List ChangedFileEntry :=
  match f.pc with
  | .scan | .boundary => f.entered.dropLast
  | _ => f.entered

def InFile (opts : IterOptions) (f : Feed) : Prop :=
  match f.pc, f.entered.getLast? with
  | .scan, some fe => f.it.file = fe ∧ (opts.emits fe = true ↔ f.it.Yields)
  | .scan, none => ¬ f.it.Yields ∧ f.it.curFile = []
  | .boundary, some fe =>
    f.it.buf = [] ∧ f.it.file = fe ∧ (opts.emits fe = true ↔ f.it.fileStartReqID < f.it.reqID)
  | .boundary, none => f.it.buf = [] ∧ f.it.curFile = []
  | .exhausted, _ => f.it.curFile = []
  | _, _ => f.it.buf = []

structure Follows (opts : IterOptions) (fed : List ChangeBlock) (f : Feed) : Prop where
  numbered : Numbered fed
  reqID : f.it.reqID = fed.length
  start_le : f.it.fileStartReqID ≤ f.it.reqID
  inFile : f.InFile opts
  emitted : f.emitted.map (·.file) = f.past.filter opts.commits

theorem new_follows (opts : IterOptions) (files : Chan ChangedFileEntry) :
    (new files).Follows opts [] where
  numbered := rfl
  reqID := rfl
  start_le := le_rfl
  inFile := by
    simp [InFile, new, CephFSBlockIterator.new, CephFSBlockIterator.Yields,
      CephFSBlockIterator.HasBatch]
  emitted := rfl

end Feed

namespace CephFSBlockIterator

variable {opts : IterOptions} {it : CephFSBlockIterator}

theorem closeCurrentIter_curIter : it.closeCurrentIter.curIter = none := by
  unfold closeCurrentIter
  split <;> simp_all

theorem closeCurrentIter_buf (h : it.buf = []) : it.closeCurrentIter.buf = [] := by
  unfold closeCurrentIter
  split <;> simp_all

theorem closeCurrentIter_frame : it.closeCurrentIter.file = it.file ∧
    it.closeCurrentIter.reqID = it.reqID ∧ it.closeCurrentIter.fileStartReqID = it.fileStartReqID ∧
    it.closeCurrentIter.pendingBoundaries = it.pendingBoundaries := by
  unfold closeCurrentIter
  split <;> exact ⟨rfl, rfl, rfl, rfl⟩

theorem enter_frame (fe : ChangedFileEntry) : (it.enter opts fe).file = fe ∧
    (it.enter opts fe).reqID = it.reqID ∧ (it.enter opts fe).fileStartReqID = it.reqID ∧
    (it.enter opts fe).pendingBoundaries = it.pendingBoundaries := by
  unfold enter
  split_ifs
  · exact ⟨rfl, rfl, rfl, rfl⟩
  · exact ⟨rfl, rfl, rfl, rfl⟩
  · cases opts.newIter fe.path <;> exact ⟨rfl, rfl, rfl, rfl⟩

theorem enter_yields (hbuf : it.buf = []) (hcur : it.curIter = none) (fe : ChangedFileEntry) :
    opts.emits fe = true ↔ (it.enter opts fe).Yields := by
  unfold IterOptions.emits enter Yields HasBatch
  split_ifs with hsize hsmall
  · simp [hbuf, hcur]
  · simp [splitLargeBlocks_ne_nil]
  · cases hn : opts.newIter fe.path with
    | none => simp [hbuf, hcur]
    | some diff =>
      rcases diff with _ | ⟨_ | blocks, rest⟩ <;> simp [hbuf]

end CephFSBlockIterator

variable {opts : IterOptions} {done : Bool} {f f' : Feed} {fed : List ChangeBlock}

theorem Feed.emitBoundary_frame (opts : IterOptions) (f : Feed) :
    (f.emitBoundary opts).entered = f.entered ∧ (f.emitBoundary opts).fileCh = f.fileCh ∧
      (f.emitBoundary opts).it.buf = f.it.buf ∧ (f.emitBoundary opts).it.reqID = f.it.reqID ∧
      (f.emitBoundary opts).it.fileStartReqID = f.it.fileStartReqID := by
  unfold Feed.emitBoundary
  split_ifs <;> exact ⟨rfl, rfl, rfl, rfl, rfl⟩

theorem Feed.emitBoundary_emitted (opts : IterOptions) (f : Feed) :
    (f.emitBoundary opts).emitted = f.emitted ++ if f.it.emitted then [f.it.boundary] else [] := by
  unfold Feed.emitBoundary
  split_ifs <;> simp_all

theorem Feed.InFile.passed (hpc : f.pc = .boundary) (h : f.InFile opts) :
    f.it.buf = [] ∧ f.entered.filter opts.commits =
      f.entered.dropLast.filter opts.commits ++ if f.it.emitted then [f.it.file] else [] := by
  simp only [Feed.InFile, hpc] at h
  cases hlast : f.entered.getLast? with
  | none =>
    simp only [hlast] at h
    rw [List.getLast?_eq_none_iff.mp hlast]
    simp [h.1, h.2, CephFSBlockIterator.emitted]
  | some fe =>
    simp only [hlast] at h
    have commits : opts.commits fe = f.it.emitted := by
      have path := congrArg ChangedFileEntry.path h.2.1
      simp only [CephFSBlockIterator.file] at path
      simp [IterOptions.commits, CephFSBlockIterator.emitted, path, h.2.2]
    have last : f.entered = f.entered.dropLast ++ [fe] :=
      (List.dropLast_append_getLast? fe hlast).symm
    refine ⟨h.1, ?_⟩
    rw [last, List.filter_append, List.dropLast_concat]
    cases he : f.it.emitted <;> simp [commits, he, h.2.1]

theorem Feed.Follows.emitBoundary (hpc : f.pc = .boundary) (hf : f.Follows opts fed) :
    ({ f.emitBoundary opts with pc := .drain } : Feed).Follows opts fed := by
  obtain ⟨numbered, reqID, start_le, inFile, emitted⟩ := hf
  have frame := f.emitBoundary_frame opts
  have grown := f.emitBoundary_emitted opts
  obtain ⟨hbuf, passed⟩ := inFile.passed hpc
  simp only [Feed.past, hpc] at emitted
  refine ⟨numbered, frame.2.2.2.1.trans reqID,
    frame.2.2.2.2.trans_le (start_le.trans_eq frame.2.2.2.1.symm), ?_, ?_⟩
  · simpa [Feed.InFile] using frame.2.2.1.trans hbuf
  · simp only [Feed.past, grown, frame.1, passed, List.map_append, emitted]
    cases f.it.emitted <;> rfl

theorem FeedStep.follows (h : FeedStep opts done f f') (hf : f.Follows opts fed) :
    f'.Follows opts fed := by
  obtain ⟨numbered, reqID, start_le, inFile, emitted⟩ := hf
  cases h with
  | read hpc hbuf hcur hne =>
    have yields : f.it.Yields := .inr (.inr ⟨_, _, hcur, hne⟩)
    refine ⟨numbered, reqID, start_le, ?_, ?_⟩
    · simp only [Feed.InFile, hpc] at inFile ⊢
      have yields' : ∀ rest, CephFSBlockIterator.Yields { f.it with
          curIter := rest, buf := splitLargeBlocks _ maxBlockLen } := fun rest =>
        .inr (.inl (splitLargeBlocks_ne_nil hne maxBlockLen))
      cases hlast : f.entered.getLast? with
      | none => simp only [hlast] at inFile; exact absurd yields inFile.1
      | some fe =>
        simp only [hlast] at inFile ⊢
        exact ⟨inFile.1, fun _ => yields' _, fun _ => inFile.2.mpr yields⟩
    · simpa [Feed.past, hpc] using emitted
  | @endFile it hpc hbuf hno hit =>
    have frame : it.file = f.it.file ∧ it.reqID = f.it.reqID ∧
        it.fileStartReqID = f.it.fileStartReqID ∧ it.buf = [] := by
      rcases hit with rfl | rfl
      · exact ⟨rfl, rfl, rfl, hbuf⟩
      · have same := f.it.closeCurrentIter_frame
        exact ⟨same.1, same.2.1, same.2.2.1, f.it.closeCurrentIter_buf hbuf⟩
    have yields : f.it.Yields ↔ f.it.fileStartReqID < f.it.reqID := by
      have none : ¬ f.it.HasBatch := fun ⟨blocks, rest, hcur, hne⟩ => hne (hno blocks rest hcur)
      simp [CephFSBlockIterator.Yields, hbuf, none]
    refine ⟨numbered, frame.2.1.trans reqID, by rw [frame.2.1, frame.2.2.1]; exact start_le, ?_, ?_⟩
    · simp only [Feed.InFile, hpc] at inFile ⊢
      cases hlast : f.entered.getLast? with
      | none =>
        simp only [hlast] at inFile ⊢
        exact ⟨frame.2.2.2, (congrArg ChangedFileEntry.path frame.1).trans inFile.2⟩
      | some fe =>
        simp only [hlast] at inFile ⊢
        rw [frame.1, frame.2.1, frame.2.2.1, ← yields]
        exact ⟨frame.2.2.2, inFile⟩
    · simpa [Feed.past, hpc] using emitted
  | boundary hpc => exact .emitBoundary hpc ⟨numbered, reqID, start_le, inFile, emitted⟩
  | drainOne hpc hp =>
    simp only [Feed.InFile, Feed.past, hpc] at inFile emitted
    exact ⟨numbered, reqID, start_le, by simpa [Feed.InFile, hpc] using inFile,
      by simpa [Feed.past, hpc] using emitted⟩
  | drained hpc =>
    simp only [Feed.InFile, Feed.past, hpc] at inFile emitted
    exact ⟨numbered, reqID, start_le, by simpa [Feed.InFile] using inFile,
      by simpa [Feed.past] using emitted⟩
  | @enter fe rest hpc hfe =>
    simp only [Feed.InFile, Feed.past, hpc] at inFile emitted
    have frame := @CephFSBlockIterator.enter_frame opts f.it.closeCurrentIter fe
    refine ⟨numbered, frame.2.1.trans (f.it.closeCurrentIter_frame.2.1.trans reqID),
      (frame.2.2.1.trans frame.2.1.symm).le, ?_, ?_⟩
    · simp only [Feed.InFile, List.getLast?_append, List.getLast?_singleton, Option.some_or]
      exact ⟨frame.1, CephFSBlockIterator.enter_yields (f.it.closeCurrentIter_buf inFile)
        f.it.closeCurrentIter_curIter fe⟩
    · simpa [Feed.past] using emitted
  | exhaust hpc =>
    simp only [Feed.past, hpc] at emitted
    have frame := f.it.closeCurrentIter_frame
    exact ⟨numbered, frame.2.1.trans reqID, frame.2.2.1.trans_le (start_le.trans_eq frame.2.1.symm),
      by simp [Feed.InFile, Feed.exhaust], by simpa [Feed.past, Feed.exhaust] using emitted⟩

theorem Feed.Follows.answer {e : Extent} {rest : List Extent} (hf : f.Follows opts fed)
    (hpc : f.pc = .scan) (hbuf : f.it.buf = e :: rest) :
    ({ f with it := { f.it with buf := rest, reqID := f.it.reqID + 1 } } : Feed).Follows opts
      (fed ++ [f.it.changeBlock e]) := by
  obtain ⟨numbered, reqID, start_le, inFile, emitted⟩ := hf
  have yields : f.it.Yields := .inr (.inl (by simp [hbuf]))
  refine ⟨numbered.concat reqID, by simp [reqID], Nat.le_succ_of_le start_le, ?_,
    by simpa [Feed.past, hpc] using emitted⟩
  simp only [Feed.InFile, hpc] at inFile ⊢
  cases hlast : f.entered.getLast? with
  | none => simp only [hlast] at inFile; exact absurd yields inFile.1
  | some fe =>
    simp only [hlast] at inFile ⊢
    exact ⟨inFile.1, fun _ => .inl (Nat.lt_succ_of_le start_le), fun _ => inFile.2.mpr yields⟩

theorem Feed.Follows.channels (h : f.Follows opts fed) (files : Chan ChangedFileEntry)
    (boundaries : Chan FileBoundary) :
    ({ f with fileCh := files, boundaryCh := boundaries } : Feed).Follows opts fed :=
  ⟨h.numbered, h.reqID, h.start_le, h.inFile, h.emitted⟩

theorem Feed.Follows.setFailed (h : f.Follows opts fed) (failed : Bool) :
    ({ f with it := { f.it with failed := failed } } : Feed).Follows opts fed :=
  ⟨h.numbered, h.reqID, h.start_le, h.inFile, h.emitted⟩

theorem FeedStep.files (h : FeedStep opts done f f') :
    f'.entered ++ f'.fileCh.buf = f.entered ++ f.fileCh.buf ∧
      f'.fileCh.closed = f.fileCh.closed := by
  cases h with
  | boundary =>
    have frame := f.emitBoundary_frame opts
    simp [frame.1, frame.2.1]
  | enter _ hfe => simp [hfe]
  | _ => exact ⟨rfl, rfl⟩

theorem FeedStep.exhausted (h : FeedStep opts done f f') (he : f'.pc = .exhausted) :
    (f'.fileCh.buf = [] ∧ f'.fileCh.closed = true) ∨ done = true := by
  cases h with
  | read hpc | drainOne hpc => simp [hpc] at he
  | exhaust _ why => exact why
  | _ => simp at he

theorem Feed.answer_files {b : Option ChangeBlock} (h : f.answer = some (b, f')) :
    f'.entered = f.entered ∧ f'.fileCh = f.fileCh ∧ f'.pc = f.pc := by
  rcases Feed.answer_cases h with ⟨e, rest, hpc, hbuf, -, rfl⟩ | ⟨hpc, -, rfl⟩ <;>
    exact ⟨rfl, rfl, rfl⟩

variable {R S : ℕ} {cfg : Config} {newIter : GoString → Option FileDiff}

namespace Snapdiff

variable {s s' : Snapdiff R S}

theorem leaveGroup_frame (err : Option SnapErr) :
    (s.leaveGroup err).feed = s.feed ∧ (s.leaveGroup err).largeCh = s.largeCh ∧
      (s.leaveGroup err).drainer = s.drainer ∧ (s.leaveGroup err).closer = s.closer ∧
      (s.leaveGroup err).ctxDone = s.ctxDone := by
  cases err <;> exact ⟨rfl, rfl, rfl, rfl, rfl⟩

theorem leaveGroup_pipe (err : Option SnapErr) :
    (s.leaveGroup err).pipe.shared = s.pipe.shared ∧
    (s.leaveGroup err).pipe.feeder = s.pipe.feeder ∧
      (s.leaveGroup err).pipe.returned = s.pipe.returned := by
  cases err <;> exact ⟨rfl, rfl, rfl⟩

theorem leaveGroup_reach (err : Option SnapErr) :
    Reach (step cfg) s.pipe (s.leaveGroup err).pipe := by
  cases err with
  | none => exact .refl
  | some e => exact .single (a := .cancel) rfl

end Snapdiff

theorem DrainStep.win_eq {γ : Type} {maxWindow : ℕ} {d d' : CommitDrainer}
    {ch ch' : Chan FileBoundary} {win win' : WindowSemaphore γ}
    (h : DrainStep maxWindow done d ch win d' ch' win') :
    win' = win ∨ win.releaseCh = true ∧ win' = win.takeRelease := by
  cases h with
  | wake _ ht => exact .inr ⟨ht, rfl⟩
  | _ => exact .inl rfl

theorem SnapStep.pipe_reach {s s' : Snapdiff R S} {a : SnapAction R S}
    (h : SnapStep cfg opts s a s') : Reach (step cfg) s.pipe s'.pipe := by
  cases h with
  | cancel => exact .single (a := .cancel) rfl
  | answer _ hp | pipe _ hp => exact .single hp
  | @drainer e d ch win hd =>
    refine Reach.trans ?_ (Snapdiff.leaveGroup_reach _)
    rcases hd.win_eq with hw | ⟨ht, hw⟩
    · rw [hw]; exact .refl
    · rw [hw]
      exact .single (a := .takeRelease) (by simp only [step, ht, if_true]; rfl)
  | closeCh =>
    refine Reach.trans ?_ (Snapdiff.leaveGroup_reach _)
    exact .refl
  | _ => exact .refl

theorem snap_reach {first : ChangedFileEntry} {rest : List ChangedFileEntry} {s : Snapdiff R S}
    (h : Reach (snapStep cfg newIter) (snapInit cfg R S first rest) s) :
    Reach (step cfg) (init cfg R S) s.pipe :=
  h.simulate Snapdiff.pipe fun _ _ _ next => (snapStep_cases next).pipe_reach

/-- The run against the stream of files. Cancellation of the caller's context may drop files
from the end of the stream, never from its middle. -/
structure Snapdiff.Traced (opts : IterOptions) (files : List ChangedFileEntry) (s : Snapdiff R S) :
    Prop where
  follows : s.feed.Follows opts s.pipe.log.fed
  sublist : (s.feed.entered ++ s.feed.fileCh.buf ++ s.largeCh).Sublist files
  complete : s.ctxDone = false → s.feed.entered ++ s.feed.fileCh.buf ++ s.largeCh = files
  forwarded : s.ctxDone = false → s.feed.fileCh.closed = true → s.largeCh = []
  ended : s.pipe.feeder = .exit none → s.feed.pc = .exhausted
  exhausted : s.ctxDone = false → s.feed.pc = .exhausted →
    s.feed.fileCh.buf = [] ∧ s.feed.fileCh.closed = true
  returned : s.closer ≠ .running → s.pipe.returned = true
  closing : s.closer = .close → s.feed.it.failed = false → s.feed.pc = .exhausted

theorem Snapdiff.Traced.feeding {files : List ChangedFileEntry} {s : Snapdiff R S}
    (h : s.Traced opts files) (hr : Reach (step cfg) (init cfg R S) s.pipe)
    (hf : s.pipe.feeder = .next) : s.closer = .running := by
  by_contra hne
  obtain ⟨err, he⟩ := ((reach_coherent hr).returned (h.returned hne)).1
  simp [hf] at he

theorem Snapdiff.Traced.closeIter {files : List ChangedFileEntry} {s : Snapdiff R S}
    (h : s.Traced opts files) (hpc : s.closer = .close)
    (hf : f = if s.feed.it.failed then s.feed else s.feed.emitBoundary opts) : f = s.feed := by
  -- `Close` has no boundary left to emit: after a failure it must not, and after a success the
  -- iterator was exhausted
  rw [hf]
  split
  · rfl
  · rename_i hfailed
    have inFile := h.follows.inFile
    simp only [Feed.InFile, h.closing hpc (by simpa using hfailed)] at inFile
    simp [Feed.emitBoundary, CephFSBlockIterator.emitted, inFile]

theorem Snapdiff.Traced.leaveGroup {files : List ChangedFileEntry} {s : Snapdiff R S}
    (h : s.Traced opts files) (err : Option SnapErr) : (s.leaveGroup err).Traced opts files := by
  cases err with
  | none => exact h
  | some e => exact ⟨h.1, h.2, h.3, h.4, h.5, h.6, h.7, h.8⟩

theorem SnapStep.traced {files : List ChangedFileEntry} {s s' : Snapdiff R S} {a : SnapAction R S}
    (h : SnapStep cfg opts s a s') (hr : Reach (step cfg) (init cfg R S) s.pipe)
    (hs : s.Traced opts files) : s'.Traced opts files := by
  have feeding := hs.feeding hr
  obtain ⟨follows, sublist, complete, forwarded, ended, exhausted, returned, closing⟩ := id hs
  cases h with
  | cancel => exact ⟨follows, sublist, by simp, by simp, ended, by simp, returned, closing⟩
  | @forward fe rest hc hl =>
    have same : s.feed.entered ++ (s.feed.fileCh.buf ++ [fe]) ++ rest =
        s.feed.entered ++ s.feed.fileCh.buf ++ s.largeCh := by simp [hl]
    refine ⟨follows.channels _ _, same ▸ sublist, fun hctx => same ▸ complete hctx,
      fun _ hclosed => absurd hclosed (by simp [Chan.send, hc]), ended, fun hctx hex => ?_,
      returned, closing⟩
    exact absurd (exhausted hctx hex).2 (by simp [hc])
  | proxyEnd hc hl =>
    refine ⟨follows.channels _ _, sublist, complete, fun _ _ => hl, ended, fun hctx hex => ?_,
      returned, closing⟩
    exact absurd (exhausted hctx hex).2 (by simp [hc])
  | proxyStop hctx =>
    exact ⟨follows.channels _ _, (List.Sublist.append_left (List.tail_sublist _) _).trans sublist,
      by simp [hctx], by simp [hctx], ended, by simp [hctx], returned, closing⟩
  | @next b f hf hstep =>
    obtain ⟨same, closed⟩ := hstep.files
    refine ⟨hstep.follows follows, same.symm ▸ sublist, fun hctx => same.symm ▸ complete hctx,
      fun hctx hcl => forwarded hctx (closed ▸ hcl), fun he => absurd he (by simp [hf]),
      fun hctx hex => (hstep.exhausted hex).resolve_right (ne_true_of_eq_false hctx), returned,
      fun hcl => absurd ((feeding hf).symm.trans hcl) (by simp)⟩
  | @answer b f p ha hp =>
    obtain ⟨hent, hfile, hpc⟩ := Feed.answer_files ha
    have same : f.entered ++ f.fileCh.buf = s.feed.entered ++ s.feed.fileCh.buf :=
      by rw [hent, hfile]
    obtain ⟨hf, fed, done⟩ := step_iterNext hp
    have running := feeding hf
    refine ⟨?_, same.symm ▸ sublist, fun hctx => same.symm ▸ complete hctx, hfile ▸ forwarded, ?_,
      hfile ▸ hpc ▸ exhausted, fun hne => absurd running hne,
      fun hcl => absurd (running.symm.trans hcl) (by simp)⟩
    · rw [fed]
      rcases Feed.answer_cases ha with ⟨e, rest, hscan, hbuf, rfl, rfl⟩ | ⟨hex, rfl, rfl⟩
      · exact follows.answer hscan hbuf
      · simpa using follows
    · intro he
      rcases Feed.answer_cases ha with ⟨e, rest, -, -, rfl, -⟩ | ⟨hex, -, rfl⟩
      · exact absurd (done he) (by simp)
      · exact hex
  | @pipe a p hno hp =>
    rcases step_fed hp with ⟨b, rfl, -⟩ | ⟨rfl, -⟩ | ⟨-, fed, back⟩
    · exact absurd rfl (hno _)
    · exact absurd rfl (hno _)
    · exact ⟨fed.symm ▸ follows, sublist, complete, forwarded, fun he => ended (back he), exhausted,
        fun hne => step_returned hp (returned hne), closing⟩
  | drainer =>
    refine Snapdiff.Traced.leaveGroup ?_ _
    exact ⟨follows.channels _ _, sublist, complete, forwarded, ended, exhausted, returned, closing⟩
  | closeStart hpc hret =>
    refine ⟨follows.setFailed _, sublist, complete, forwarded, ended, exhausted, fun _ => hret, ?_⟩
    intro _ hfailed
    have none : s.pipe.runErr = none := by simpa using hfailed
    exact ended (State.Succeeded.finished ⟨hret, none⟩ hr).feeder
  | @closeIter f hpc hf =>
    rw [hs.closeIter hpc hf]
    exact ⟨follows, sublist, complete, forwarded, ended, exhausted,
      fun _ => returned (by simp [hpc]), by simp⟩
  | flush hpc =>
    exact ⟨follows.channels _ _, sublist, complete, forwarded, ended, exhausted,
      fun _ => returned (by simp [hpc]), by simp⟩
  | flushStop hpc | flushEnd hpc =>
    exact ⟨follows, sublist, complete, forwarded, ended, exhausted,
      fun _ => returned (by simp [hpc]), by simp⟩
  | closeCh hpc =>
    refine Snapdiff.Traced.leaveGroup ?_ _
    exact ⟨follows.channels _ _, sublist, complete, forwarded, ended, exhausted,
      fun _ => returned (by simp [hpc]), by simp⟩

theorem reach_traced {first : ChangedFileEntry} {rest : List ChangedFileEntry} {s : Snapdiff R S}
    (h : Reach (snapStep cfg newIter) (snapInit cfg R S first rest) s) :
    s.Traced (iterOptions cfg newIter) (first :: rest) := by
  refine h.invariant ?_ fun _ _ _ reached hs next =>
    (snapStep_cases next).traced (snap_reach reached) hs
  exact ⟨Feed.new_follows _ _, List.Sublist.refl _, fun _ => rfl,
    by simp [snapInit, Feed.new, Chan.new, Chan.send],
    by simp [snapInit, init], by simp [snapInit, Feed.new], by simp [snapInit], by simp [snapInit]⟩

def Snapdiff.unsent (s : Snapdiff R S) : List FileBoundary :=
  match s.closer with
  | .running | .close => s.feed.it.pendingBoundaries
  | .flush todo => todo
  | _ => []

theorem FeedStep.ledger (h : FeedStep opts done f f') (fb : FileBoundary) :
    f'.boundaryCh.buf.count fb + f'.it.pendingBoundaries.count fb + f.emitted.count fb =
      f.boundaryCh.buf.count fb + f.it.pendingBoundaries.count fb + f'.emitted.count fb := by
  cases h with
  | endFile _ _ _ hit =>
    rcases hit with rfl | rfl
    · rfl
    · rw [f.it.closeCurrentIter_frame.2.2.2]
  | boundary =>
    unfold Feed.emitBoundary
    split_ifs <;> simp [Chan.send] <;> omega
  | drainOne _ hp =>
    simp only [Chan.send, hp, List.count_append, List.count_cons, List.count_nil]
    omega
  | @enter fe =>
    rw [(@CephFSBlockIterator.enter_frame opts f.it.closeCurrentIter fe).2.2.2,
      f.it.closeCurrentIter_frame.2.2.2]
  | exhaust => simp [Feed.exhaust, f.it.closeCurrentIter_frame.2.2.2]
  | _ => rfl

def Snapdiff.tally (s : Snapdiff R S) (fb : FileBoundary) : ℕ :=
  s.feed.boundaryCh.buf.count fb + s.unsent.count fb + s.drainer.received.count fb

/-- Where the boundaries are, and what the drainer's books and its phase say. -/
structure Snapdiff.Booked (s : Snapdiff R S) : Prop where
  tally_le : ∀ fb, s.tally fb ≤ s.feed.emitted.count fb
  tally_eq : s.ctxDone = false → ∀ fb, s.tally fb = s.feed.emitted.count fb
  balanced : s.drainer.Balanced
  orderly : s.drainer.Orderly
  closed : s.feed.boundaryCh.closed = true → s.closer = .exit
  flushing : s.drainer.pc.flushing = true →
    s.feed.boundaryCh.buf = [] ∧ s.feed.boundaryCh.closed = true

namespace Snapdiff.Booked

variable {s s' : Snapdiff R S}

theorem leaveGroup (h : s.Booked) (err : Option SnapErr) : (s.leaveGroup err).Booked := by
  cases err with
  | none => exact h
  | some e => exact ⟨h.1, h.2, h.3, h.4, h.5, h.6⟩

theorem receiving (h : s.Booked) (hc : s.closer ≠ .exit) :
    s.feed.boundaryCh.closed = false ∧ s.drainer.pc.flushing = false := by
  have still : s.feed.boundaryCh.closed = false :=
    Bool.eq_false_iff.mpr fun hcl => hc (h.closed hcl)
  exact ⟨still, Bool.eq_false_iff.mpr fun hf => by simp [(h.flushing hf).2] at still⟩

theorem keep (h : s.Booked) (hc : s.closer ≠ .exit) (hd : s'.drainer = s.drainer)
    (hch : s'.feed.boundaryCh.closed = s.feed.boundaryCh.closed) (hctx : s'.ctxDone = s.ctxDone)
    (move : ∀ fb, s'.tally fb + s.feed.emitted.count fb = s.tally fb + s'.feed.emitted.count fb) :
    s'.Booked := by
  obtain ⟨still, receiving⟩ := h.receiving hc
  refine ⟨fun fb => ?_, fun hc' fb => ?_, hd ▸ h.balanced, hd ▸ h.orderly, ?_, ?_⟩
  · have := h.tally_le fb
    have := move fb
    omega
  · have := h.tally_eq (hctx ▸ hc') fb
    have := move fb
    omega
  · exact fun hcl => absurd (hch ▸ hcl) (by simp [still])
  · exact fun hf => absurd (hd ▸ hf) (by simp [receiving])

end Snapdiff.Booked

theorem FeedStep.boundaryCh_closed (h : FeedStep opts done f f') :
    f'.boundaryCh.closed = f.boundaryCh.closed := by
  cases h with
  | boundary =>
    unfold Feed.emitBoundary
    split_ifs <;> rfl
  | _ => rfl

theorem SnapStep.booked {files : List ChangedFileEntry} {s s' : Snapdiff R S} {a : SnapAction R S}
    (h : SnapStep cfg opts s a s') (hr : Reach (step cfg) (init cfg R S) s.pipe)
    (ht : s.Traced opts files) (hs : s.Booked) : s'.Booked := by
  cases h with
  | cancel => exact ⟨hs.tally_le, by simp, hs.balanced, hs.orderly, hs.closed, hs.flushing⟩
  | forward | proxyEnd | proxyStop | pipe =>
    exact ⟨hs.tally_le, hs.tally_eq, hs.balanced, hs.orderly, hs.closed, hs.flushing⟩
  | @next b f hf hstep =>
    have running := ht.feeding hr hf
    refine hs.keep (by simp [running]) rfl hstep.boundaryCh_closed rfl fun fb => ?_
    have move := hstep.ledger fb
    simp only [Snapdiff.tally, Snapdiff.unsent, running]
    omega
  | @answer b f p ha hp =>
    rcases Feed.answer_cases ha with ⟨e, rest, hpc, hbuf, -, rfl⟩ | ⟨hpc, -, rfl⟩
    · exact ⟨hs.tally_le, hs.tally_eq, hs.balanced, hs.orderly, hs.closed, hs.flushing⟩
    · exact ⟨hs.tally_le, hs.tally_eq, hs.balanced, hs.orderly, hs.closed, hs.flushing⟩
  | @drainer e d ch win hd =>
    obtain ⟨same, hcl⟩ := hd.ledger
    have move : ∀ fb, (s.drained d ch win).tally fb = s.tally fb := by
      intro fb
      have counts := congrArg (List.count fb) same
      simp only [List.count_append] at counts
      simp only [Snapdiff.tally, Snapdiff.drained, Snapdiff.unsent]
      omega
    refine Snapdiff.Booked.leaveGroup ?_ _
    refine ⟨fun fb => (move fb).trans_le (hs.tally_le fb), fun hctx fb =>
      (move fb).trans (hs.tally_eq hctx fb),
      hd.balanced hs.balanced, hd.orderly hs.orderly, fun hc => hs.closed (hcl ▸ hc), fun hf => ?_⟩
    obtain ⟨hb, hc⟩ := (hd.flushing hf).elim id hs.flushing
    exact ⟨hd.buf_nil hb, hcl.trans hc⟩
  | closeStart hpc hret =>
    refine hs.keep (by simp [hpc]) rfl rfl rfl fun fb => ?_
    simp [Snapdiff.tally, Snapdiff.unsent, hpc]
  | @closeIter f hpc hf =>
    rw [ht.closeIter hpc hf]
    refine hs.keep (by simp [hpc]) rfl rfl rfl fun fb => ?_
    simp [Snapdiff.tally, Snapdiff.unsent, hpc]
  | flush hpc =>
    refine hs.keep (by simp [hpc]) rfl rfl rfl fun fb => ?_
    simp only [Snapdiff.tally, Snapdiff.unsent, hpc, Chan.send, List.count_append, List.count_cons,
      List.count_nil]
    omega
  | @flushStop todo hpc hctx =>
    obtain ⟨still, receiving⟩ := hs.receiving (by simp [hpc])
    refine ⟨fun fb => le_trans ?_ (hs.tally_le fb), by simp [hctx], hs.balanced, hs.orderly,
      by simp [still],
      fun hf => absurd hf (ne_true_of_eq_false receiving)⟩
    simp [Snapdiff.tally, Snapdiff.unsent, hpc]
  | flushEnd hpc =>
    refine hs.keep (by simp [hpc]) rfl rfl rfl fun fb => ?_
    simp [Snapdiff.tally, Snapdiff.unsent, hpc]
  | closeCh hpc =>
    obtain ⟨still, receiving⟩ := hs.receiving (by simp [hpc])
    have move : ∀ fb, Snapdiff.tally { s with
        closer := .exit, feed := { s.feed with boundaryCh := s.feed.boundaryCh.close } } fb =
          s.tally fb := fun fb => by simp [Snapdiff.tally, Snapdiff.unsent, hpc, Chan.close]
    refine Snapdiff.Booked.leaveGroup ?_ _
    exact ⟨fun fb => (move fb).trans_le (hs.tally_le fb), fun hctx fb =>
      (move fb).trans (hs.tally_eq hctx fb),
      hs.balanced, hs.orderly, fun _ => rfl, fun hf => absurd hf (ne_true_of_eq_false receiving)⟩

theorem reach_booked {first : ChangedFileEntry} {rest : List ChangedFileEntry} {s : Snapdiff R S}
    (h : Reach (snapStep cfg newIter) (snapInit cfg R S first rest) s) : s.Booked := by
  refine h.invariant ?_ fun _ _ _ reached hs next =>
    (snapStep_cases next).booked (snap_reach reached) (reach_traced reached) hs
  exact ⟨fun _ => le_rfl, fun _ _ => rfl, ⟨List.suffix_rfl, rfl, fun _ => rfl⟩, ⟨rfl, rfl⟩,
    by simp [snapInit, Feed.new, Chan.new],
    by simp [snapInit, CommitDrainer.new, DrainerPC.flushing]⟩

end CephVolsync.CephFs
