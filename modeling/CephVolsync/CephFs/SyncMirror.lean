import CephVolsync.CephFs.FileDelivery
import CephVolsync.CephFs.SyncAccounting

/-! The block pipeline inside a stateless sync is a run of `runSnapdiffBlockPipeline` on its
own. Its files are those that were received from `largeCh`, followed by any files that might
still come: as long as the proxy has not seen the end of the channel, the pipeline cannot tell
its stream from a longer one. -/

namespace CephVolsync.CephFs

open BatchWorker Pipeline TransitionSystem

variable {R S W : ℕ}

theorem snapStep_largeCh {cfg : Config} {newIter : GoString → Option FileDiff}
    {x x' : Snapdiff R S} {a : SnapAction R S} (h : snapStep cfg newIter x a = some x')
    (other : ∀ b, a ≠ .proxy b) (left : List ChangedFileEntry) :
    snapStep cfg newIter { x with largeCh := left } a = some { x' with largeCh := left } := by
  cases a with
  | cancel => cases h; rfl
  | proxy b => exact absurd rfl (other b)
  | next b =>
    simp only [snapStep] at h ⊢
    split at h
    · rename_i feeds
      obtain ⟨f, hf, rfl⟩ := Option.map_eq_some_iff.mp h
      simp [feeds, hf]
    · cases h
  | pipe a =>
    cases a with
    | cancel | takeRelease => cases h
    | iterNext b =>
      simp only [snapStep, Snapdiff.pipeStep] at h ⊢
      split at h
      · rename_i ha
        split at h
        · obtain ⟨p, hp, rfl⟩ := Option.map_eq_some_iff.mp h
          simp_all
        · cases h
      · cases h
    | _ =>
      obtain ⟨p, hp, rfl⟩ := Option.map_eq_some_iff.mp h
      simp [snapStep, Snapdiff.pipeStep, hp]
  | drainer e =>
    obtain ⟨r, hr, rfl⟩ := Option.map_eq_some_iff.mp h
    refine Option.map_eq_some_iff.mpr ⟨r, hr, ?_⟩
    cases Snapdiff.exitErr r.1.pc <;> rfl
  | closer b =>
    simp only [snapStep] at h ⊢
    cases hc : x.closer with
    | running =>
      cases b <;> simp only [hc, Snapdiff.close, reduceCtorEq] at h ⊢
      split at h <;> cases h
      simp [*]
    | close =>
      cases b <;> simp only [hc, Snapdiff.close, reduceCtorEq] at h ⊢
      cases h
      rfl
    | flush todo =>
      cases todo <;> cases b <;> simp only [hc, Snapdiff.close, reduceCtorEq] at h ⊢
      · cases h; rfl
      · split at h <;> cases h
        simp [*]
      · split at h <;> cases h
        simp [*]
    | closeCh =>
      cases b <;> simp only [hc, Snapdiff.close, reduceCtorEq] at h ⊢
      cases h
      cases x.pipe.runErr <;> rfl
    | exit => cases b <;> simp only [hc, Snapdiff.close, reduceCtorEq] at h

theorem snapStep_keeps {cfg : Config} {newIter : GoString → Option FileDiff} {x x' : Snapdiff R S}
    {a : SnapAction R S} (h : snapStep cfg newIter x a = some x') (other : ∀ b, a ≠ .proxy b) :
    x'.largeCh = x.largeCh ∧ x'.feed.fileCh.closed = x.feed.fileCh.closed ∧
      (x'.ctxDone = x.ctxDone ∨ a = .cancel) := by
  cases snapStep_cases h with
  | cancel => exact ⟨rfl, rfl, .inr rfl⟩
  | forward | proxyEnd | proxyStop => exact absurd rfl (other _)
  | next _ hf => exact ⟨rfl, hf.files.2, .inl rfl⟩
  | answer ha => exact ⟨rfl, congrArg Chan.closed (Feed.answer_files ha).2.1, .inl rfl⟩
  | pipe => exact ⟨rfl, rfl, .inl rfl⟩
  | drainer =>
    obtain ⟨hf, hl, -, -, hc⟩ := Snapdiff.leaveGroup_frame (s := x.drained _ _ _) _
    exact ⟨hl, by rw [hf]; rfl, .inl hc⟩
  | closeCh =>
    obtain ⟨hf, hl, -, -, hc⟩ := Snapdiff.leaveGroup_frame (s := ({ x with
      closer := .exit, feed := { x.feed with boundaryCh := x.feed.boundaryCh.close } } :
        Snapdiff R S)) (x.pipe.runErr.map .pipeline)
    exact ⟨hl, by rw [hf], .inl hc⟩
  | closeIter _ hf =>
    refine ⟨rfl, ?_, .inl rfl⟩
    subst hf
    split
    · rfl
    · exact congrArg Chan.closed (Feed.emitBoundary_frame _ _).2.1
  | _ => exact ⟨rfl, rfl, .inl rfl⟩

/-- The pipeline `x` with `taken` received behind `first`, and `ch` what is left of the channel. -/
structure Mirrors (newIter : GoString → Option FileDiff) (x : Snapdiff R S)
    (first : ChangedFileEntry) (taken : List ChangedFileEntry) (ch : Chan ChangedFileEntry) :
    Prop where
  largeCh : x.largeCh = []
  streaming : x.feed.fileCh.closed = false → ∀ future,
    Reach (snapStep snapConfig newIter) (snapInit snapConfig R S first (taken ++ future))
      { x with largeCh := future }
  ended : x.feed.fileCh.closed = true → ∃ rest left,
    Reach (snapStep snapConfig newIter) (snapInit snapConfig R S first rest)
      { x with largeCh := left } ∧
    (x.ctxDone = false → rest = taken ∧ left = [] ∧ ch.closed = true ∧ ch.buf = [])

namespace Mirrors

variable {newIter : GoString → Option FileDiff} {x x' : Snapdiff R S} {first : ChangedFileEntry}
  {taken : List ChangedFileEntry} {ch : Chan ChangedFileEntry}

theorem start (newIter : GoString → Option FileDiff) (first : ChangedFileEntry)
    (ch : Chan ChangedFileEntry) :
    Mirrors newIter (snapInit snapConfig R S first []) first [] ch where
  largeCh := rfl
  streaming _ _ := .refl
  ended closed := by cases closed

theorem reach (h : Mirrors newIter x first taken ch) : ∃ rest left,
    Reach (snapStep snapConfig newIter) (snapInit snapConfig R S first rest)
      { x with largeCh := left } := by
  cases closed : x.feed.fileCh.closed with
  | false => exact ⟨_, _, h.streaming closed []⟩
  | true =>
    obtain ⟨rest, left, run, -⟩ := h.ended closed
    exact ⟨rest, left, run⟩

theorem send (h : Mirrors newIter x first taken ch) (open_ : ch.closed = false)
    (fe : ChangedFileEntry) : Mirrors newIter x first taken (ch.send fe) := by
  refine ⟨h.largeCh, h.streaming, fun closed => ?_⟩
  obtain ⟨rest, left, run, live⟩ := h.ended closed
  exact ⟨rest, left, run, fun ctx => absurd (live ctx).2.2.1 (by simp [open_])⟩

theorem close (h : Mirrors newIter x first taken ch) : Mirrors newIter x first taken ch.close := by
  refine ⟨h.largeCh, h.streaming, fun closed => ?_⟩
  obtain ⟨rest, left, run, live⟩ := h.ended closed
  exact ⟨rest, left, run, fun ctx => ⟨(live ctx).1, (live ctx).2.1, rfl, (live ctx).2.2.2⟩⟩

theorem step (h : Mirrors newIter x first taken ch) {a : SnapAction R S}
    (next : snapStep snapConfig newIter x a = some x') (other : ∀ b, a ≠ .proxy b) :
    Mirrors newIter x' first taken ch := by
  obtain ⟨largeCh, fileCh, ctx⟩ := snapStep_keeps next other
  refine ⟨largeCh.trans h.largeCh, fun closed future => ?_, fun closed => ?_⟩
  · exact .tail a (h.streaming (fileCh ▸ closed) future) (snapStep_largeCh next other future)
  · obtain ⟨rest, left, run, live⟩ := h.ended (fileCh ▸ closed)
    refine ⟨rest, left, .tail a run (snapStep_largeCh next other left), fun open_ => ?_⟩
    rcases ctx with same | rfl
    · exact live (same ▸ open_)
    · cases next
      cases open_

theorem proxy (h : Mirrors newIter x first taken ch) {b : Branch}
    (more : ch.buf = [] → ch.closed = true)
    (next : Snapdiff.proxy { x with largeCh := ch.buf } b = some x') :
    Mirrors newIter { x' with largeCh := [] } first (taken ++ ch.buf.take 1)
      { ch with buf := x'.largeCh } := by
  have run (future : List ChangedFileEntry) {b : Branch} {y : Snapdiff R S}
      (open_ : x.feed.fileCh.closed = false)
      (hy : Snapdiff.proxy { x with largeCh := future } b = some y) :
      Reach (snapStep snapConfig newIter) (snapInit snapConfig R S first (taken ++ future)) y :=
    .tail (.proxy b) (h.streaming open_ future) hy
  cases b with
  | ready =>
    simp only [Snapdiff.proxy] at next
    split at next
    · cases next
    · rename_i open_
      have open_ : x.feed.fileCh.closed = false := by simpa using open_
      split at next
      · rename_i fe rest queue
        split at next <;> cases next
        rename_i fits
        refine ⟨rfl, fun _ future => ?_, fun closed => absurd closed (by simp [Chan.send, open_])⟩
        have forward := run (fe :: future) open_ (b := .ready) (y := _)
          (by simp only [Snapdiff.proxy, open_, if_pos fits]; rfl)
        simpa [show ch.buf = fe :: rest from queue] using forward
      · rename_i queue
        have queue : ch.buf = [] := queue
        cases next
        have stop := run [] open_ (b := .ready) (y := _)
          (by simp only [Snapdiff.proxy, open_]; rfl)
        refine ⟨rfl, fun closed => by simp [Chan.close] at closed, fun _ => ⟨taken, [], ?_, ?_⟩⟩
        · simpa using stop
        · simp [queue, more queue]
  | ctxDone =>
    have guard := next
    simp only [Snapdiff.proxy] at next
    split at next <;> cases next
    rename_i cancelled
    refine ⟨rfl, fun closed => by simp [Chan.close] at closed, fun _ => ?_⟩
    exact ⟨_, _, run ch.buf cancelled.2.1 guard, fun ctx => absurd cancelled.1 (by simp_all)⟩

end Mirrors

structure StatelessSync.Mirrored (src : SyncSource) (s : StatelessSync R S W) : Prop where
  peek : s.blocks = .peek → s.largeTaken = []
  snap : ∀ x, s.snap = some x → ∃ fe taken, s.largeTaken = fe :: taken ∧
    Mirrors src.newIter x fe taken s.largeCh
  ctx : ∀ x, s.snap = some x → x.ctxDone = true → s.gctxDone = true
  nil : s.blocks = .exit none →
    (s.snap = none ∧ s.largeTaken = [] ∧ s.largeCh.closed = true ∧ s.largeCh.buf = []) ∨
      ∃ x, s.snap = some x ∧ x.Returned ∧ x.groupErr = none

namespace StatelessSync

variable {src : SyncSource} {s s' : StatelessSync R S W}

theorem init_mirrored (src : SyncSource) (R S W : ℕ) : (statelessInit src R S W).Mirrored src :=
  ⟨fun _ => rfl, by simp [statelessInit], by simp [statelessInit], by simp [statelessInit]⟩

theorem gctxDone_leaveGroup {err : Option GroupErr} (h : s.gctxDone = true) :
    (s.leaveGroup err).gctxDone = true := by
  simp only [gctxDone, leaveGroup, Bool.or_eq_true, Option.isSome_or] at h ⊢
  tauto

theorem Mirrored.produced (h : s.Mirrored src) (err : Option ProducerErr) :
    (s.produced err).Mirrored src := by
  refine ⟨h.peek, fun x hx => ?_, fun x hx ctx => gctxDone_leaveGroup (h.ctx x hx ctx),
    fun exit => ?_⟩
  · obtain ⟨fe, taken, large, mirrors⟩ := h.snap x hx
    exact ⟨fe, taken, large, mirrors.close⟩
  · rcases h.nil exit with ⟨none, taken, -, empty⟩ | ran
    · exact .inl ⟨none, taken, rfl, empty⟩
    · exact .inr ran

theorem Mirrored.delivered (h : s.Mirrored src) (open_ : s.largeCh.closed = false) (c : Changed)
    (pc : ProducerPC) :
    ({ s.delivered c with producer := pc } : StatelessSync R S W).Mirrored src := by
  cases c with
  | large fe =>
    refine ⟨h.peek, fun x hx => ?_, h.ctx, fun exit => ?_⟩
    · obtain ⟨first, taken, large, mirrors⟩ := h.snap x hx
      exact ⟨first, taken, large, mirrors.send open_ fe⟩
    · rcases h.nil exit with ⟨-, -, closed, -⟩ | ran
      · rw [open_] at closed; cases closed
      · exact .inr ran
  | _ => exact ⟨h.peek, h.snap, h.ctx, h.nil⟩

theorem Mirrored.nil_of_snap (h : s.Mirrored src) {x : Snapdiff R S} (hx : s.snap = some x)
    (exit : s.blocks = .exit none) : x.Returned ∧ x.groupErr = none := by
  rcases h.nil exit with ⟨idle, -⟩ | ⟨y, hy, ended⟩
  · rw [hx] at idle; cases idle
  · rw [hx] at hy
    cases hy
    exact ended

theorem Mirrored.ran (h : s.Mirrored src) (running : s.blocks = .running) {x x' : Snapdiff R S}
    (hx : s.snap = some x) {a : SnapAction R S} (other : ∀ b, a ≠ .proxy b)
    (next : snapStep snapConfig src.newIter x a = some x')
    (ctx : x'.ctxDone = true → s.gctxDone = true) (ch : Chan GoString) :
    ({ s with snap := some x', committedCh := ch } : StatelessSync R S W).Mirrored src := by
  refine ⟨h.peek, fun y hy => ?_, fun y hy hc => ?_, fun exit => ?_⟩
  · cases hy
    obtain ⟨first, taken, large, mirrors⟩ := h.snap x hx
    exact ⟨first, taken, large, mirrors.step next other⟩
  · cases hy
    exact ctx hc
  · rw [show s.blocks = .exit none from exit] at running
    cases running

end StatelessSync

theorem Produces.mirrored {src : SyncSource} {s s' : StatelessSync R S W} (h : Produces src s s')
    (hw : s.Wired) (hs : s.Mirrored src) : s'.Mirrored src := by
  cases h with
  | walked => exact hs.produced none
  | failed err => exact hs.produced (some err)
  | directory at_ => exact hs.delivered (hw.large.trans (by rw [at_]; rfl)) _ _
  | deliver at_ => exact hs.delivered (hw.large.trans (by rw [at_]; rfl)) _ _
  | _ => exact ⟨hs.peek, hs.snap, hs.ctx, hs.nil⟩

theorem StatelessStep.mirrored {src : SyncSource} {s s' : StatelessSync R S W}
    (h : StatelessStep src s s') (ha : s.Accounted) (hw : s.Wired) (hs : s.Mirrored src) :
    s'.Mirrored src := by
  cases h with
  | produce next => exact next.mirrored hw hs
  | cancel => exact ⟨hs.peek, hs.snap, by simp [StatelessSync.gctxDone], hs.nil⟩
  | @peek fe rest at_ queue =>
    refine ⟨by simp, fun x hx => ?_, fun x hx ctx => ?_, by simp⟩
    · cases hx
      exact ⟨fe, [], by simp [hs.peek at_], Mirrors.start _ fe _⟩
    · cases hx
      cases ctx
  | peekEnd at_ queue closed =>
    have idle := ha.unstarted at_
    refine ⟨by simp [StatelessSync.blocksLeave, StatelessSync.leaveGroup], hs.snap,
      fun y hy ctx => StatelessSync.gctxDone_leaveGroup (hs.ctx y hy ctx),
      fun _ => .inl ⟨idle, hs.peek at_, closed, queue⟩⟩
  | opened at_ => exact ⟨by simp, hs.snap, hs.ctx, by simp⟩
  | unopened at_ =>
    exact ⟨by simp [StatelessSync.blocksLeave, StatelessSync.leaveGroup], hs.snap,
      fun y hy ctx => StatelessSync.gctxDone_leaveGroup (hs.ctx y hy ctx),
      by simp [StatelessSync.blocksLeave, StatelessSync.leaveGroup]⟩
  | @proxy x x' b hx more next =>
    obtain ⟨-, drainer, closer, groupErr, ctxDone⟩ := Snapdiff.proxy_takes next
    refine ⟨fun at_ => ?_, fun y hy => ?_, fun y hy ctx => ?_, fun exit => ?_⟩
    · rw [ha.unstarted at_] at hx; cases hx
    · cases hy
      obtain ⟨first, taken, large, mirrors⟩ := hs.snap x hx
      exact ⟨first, taken ++ s.largeCh.buf.take 1, by simp [large], mirrors.proxy more next⟩
    · cases hy
      exact hs.ctx x hx (ctxDone ▸ ctx)
    · obtain ⟨returned, nil⟩ := hs.nil_of_snap hx exit
      refine .inr ⟨_, rfl, ⟨closer.trans returned.1, ?_⟩, groupErr.trans nil⟩
      rw [show ({ x' with largeCh := [] } : Snapdiff R S).drainer = x.drainer from drainer]
      exact returned.2
  | @cancelBlocks x x' hx done next =>
    refine ⟨hs.peek, fun y hy => ?_, fun y hy _ => done, fun exit => ?_⟩
    · cases hy
      obtain ⟨first, taken, large, mirrors⟩ := hs.snap x hx
      exact ⟨first, taken, large, mirrors.step next (by simp)⟩
    · obtain ⟨returned, nil⟩ := hs.nil_of_snap hx exit
      cases next
      exact .inr ⟨_, rfl, returned, nil⟩
  | @blocks x x' a running hx keep other _ next =>
    refine hs.ran running hx other next (fun ctx => hs.ctx x hx ?_) _
    exact ((snapStep_keeps next other).2.2.resolve_right keep) ▸ ctx
  | @notify x x' a path running hx keep other _ next =>
    refine hs.ran running hx other next (fun ctx => hs.ctx x hx ?_) _
    exact ((snapStep_keeps next other).2.2.resolve_right keep) ▸ ctx
  | @blocksReturn x running hx closer drainer =>
    refine ⟨by simp [StatelessSync.blocksLeave, StatelessSync.leaveGroup], hs.snap,
      fun y hy ctx => StatelessSync.gctxDone_leaveGroup (hs.ctx y hy ctx), fun exit => ?_⟩
    refine .inr ⟨x, hx, ⟨closer, ?_⟩, ?_⟩
    · cases hd : x.drainer.pc with
      | exit err => exact ⟨err, rfl⟩
      | _ => rw [hd] at drainer; cases drainer
    · exact Option.map_eq_none_iff.mp (BlocksPC.exit.inj exit)
  | metaReturn | specialReturn | deletes =>
    exact ⟨hs.peek, hs.snap,
      fun y hy ctx => StatelessSync.gctxDone_leaveGroup (hs.ctx y hy ctx), hs.nil⟩
  | _ => exact ⟨hs.peek, hs.snap, hs.ctx, hs.nil⟩

end CephVolsync.CephFs
