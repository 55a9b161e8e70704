import CephVolsync.CephFs.Boundaries
import CephVolsync.CephFs.StatelessSync

/-! Where the entries of a stateless sync are. Every entry the producer routed is in a channel
or was taken from it by a consumer of that channel, in every state and under every schedule;
every path the drainer reported is in `committedCh` or with a metadata worker. A consumer that
returns nil has seen the end of its channel, and an error of a goroutine is an error of the
group. -/

namespace CephVolsync.CephFs

open BatchWorker Pipeline TransitionSystem

variable {R S W : ℕ}

theorem CommitDrainer.turn_notified (maxWindow : ℕ) (isReleased : ℕ → Bool) (d : CommitDrainer)
    (l : DrainLoop) (pending : List FileBoundary) :
    (d.turn maxWindow isReleased l pending).notified = d.notified := by
  cases pending with
  | nil => cases l <;> rfl
  | cons head rest =>
    cases l <;> simp only [turn] <;> split_ifs <;> rfl

theorem CommitDrainer.run_notified {γ : Type} {maxWindow : ℕ} {done : Bool} {d d' : CommitDrainer}
    {ch ch' : Chan FileBoundary} {win win' : WindowSemaphore γ} {pc : DrainerPC} {e : DrainEvent}
    (h : d.run maxWindow done ch win pc e = some (d', ch', win')) :
    d'.notified = d.notified ++ (pc.reports e).toList := by
  unfold run at h
  split at h
  · split at h
    · cases h; simp [receive, DrainerPC.reports]
    · split at h <;> cases h
      simp [DrainerPC.reports]
  · split at h <;> cases h
    simp [DrainerPC.reports]
  · cases h
    simp [turn_notified, DrainerPC.reports]
  · split at h <;> cases h
    simp [DrainerPC.reports]
  · split at h <;> cases h
    simp [DrainerPC.reports]
  · rename_i ok
    cases h
    cases ok <;> simp [sendCommit, DrainerPC.reports]
  · rename_i ok
    cases h
    cases ok <;> simp [recvCommit, DrainerPC.reports]
  · cases h; simp [DrainerPC.reports]
  · split at h <;> cases h
    simp [DrainerPC.reports]
  · cases h; simp [DrainerPC.reports]
  · cases h

theorem snapStep_drainer {cfg : Config} {newIter : GoString → Option FileDiff} {x x' : Snapdiff R S}
    {a : SnapAction R S} (h : snapStep cfg newIter x a = some x') (other : ∀ e, a ≠ .drainer e) :
    x'.drainer = x.drainer := by
  cases snapStep_cases h with
  | drainer => exact absurd rfl (other _)
  | closeCh => rw [(Snapdiff.leaveGroup_frame _).2.2.1]
  | _ => rfl

theorem snapStep_notified {cfg : Config} {newIter : GoString → Option FileDiff}
    {x x' : Snapdiff R S} {a : SnapAction R S} (h : snapStep cfg newIter x a = some x') :
    x'.drainer.notified = x.drainer.notified ++ (StatelessSync.notifies x a).toList := by
  cases a with
  | drainer e =>
    obtain ⟨⟨d, ch, win⟩, hr, rfl⟩ := Option.map_eq_some_iff.mp h
    rw [(Snapdiff.leaveGroup_frame _).2.2.1]
    exact CommitDrainer.run_notified hr
  | _ => simp [snapStep_drainer h (by simp), StatelessSync.notifies]

namespace StatelessSync

def notified (s : StatelessSync R S W) : List GoString :=
  match s.snap with
  | some x => x.drainer.notified
  | none => []

/-- Nothing is lost or doubled between the producer and its consumers. -/
structure Accounted (s : StatelessSync R S W) : Prop where
  large : s.largeTaken ++ s.largeCh.buf = s.routed.filterMap Changed.large?
  special : s.special.taken + (s.smallCh.buf : Multiset GoString) =
    (s.routed.filterMap Changed.special? : Multiset GoString)
  deleted : s.deletes.worker.taken ++ s.deletedCh.buf = s.routed.filterMap Changed.deleted?
  committed : s.metaRsync.taken + (s.committedCh.buf : Multiset GoString) =
    (s.notified : Multiset GoString)
  directory : s.dirChanged = true ↔ Changed.directory ∈ s.routed
  unstarted : s.blocks = .peek → s.snap = none

variable {src : SyncSource} {s s' : StatelessSync R S W}

theorem Accounted.delivered (h : s.Accounted) (c : Changed) : (s.delivered c).Accounted := by
  obtain ⟨hl, hsp, hd, hm, hc, hx, hb⟩ := s.delivered_frame c
  have split {β : Type} (f : Changed → Option β) :
      (s.routed ++ [c]).filterMap f = s.routed.filterMap f ++ (f c).toList := by
    cases hf : f c <;> simp [hf]
  refine ⟨?_, ?_, ?_, ?_, ?_, ?_⟩
  · rw [hl, delivered_largeCh, delivered_routed, split, ← List.append_assoc, h.large]
  · rw [hsp, delivered_smallCh, delivered_routed, split, ← Multiset.coe_add, ← Multiset.coe_add,
      ← add_assoc, h.special]
  · rw [hd, delivered_deletedCh, delivered_routed, split, ← List.append_assoc, h.deleted]
  · rw [hm, hc, notified, hx]
    exact h.committed
  · cases c <;> simp [h.directory]
  · rw [hb, hx]
    exact h.unstarted

theorem init_accounted (src : SyncSource) (R S W : ℕ) : (statelessInit src R S W).Accounted where
  large := rfl
  special := by simp [statelessInit, RsyncPool.new_taken, Chan.new]
  deleted := rfl
  committed := by simp [statelessInit, RsyncPool.new_taken, Chan.new, notified]
  directory := by simp [statelessInit]
  unstarted _ := rfl

end StatelessSync

theorem Produces.accounted {src : SyncSource} {s s' : StatelessSync R S W} (h : Produces src s s')
    (hs : s.Accounted) : s'.Accounted := by
  cases h with
  | directory =>
    have next := hs.delivered .directory
    exact ⟨next.large, next.special, next.deleted, next.committed, next.directory, next.unstarted⟩
  | @deliver c =>
    have next := hs.delivered c
    exact ⟨next.large, next.special, next.deleted, next.committed, next.directory, next.unstarted⟩
  | _ => exact ⟨hs.large, hs.special, hs.deleted, hs.committed, hs.directory, hs.unstarted⟩

theorem Snapdiff.proxy_takes {x x' : Snapdiff R S} {b : Branch} (h : x.proxy b = some x') :
    x.largeCh.take 1 ++ x'.largeCh = x.largeCh ∧ x'.drainer = x.drainer ∧
      x'.closer = x.closer ∧ x'.groupErr = x.groupErr ∧ x'.ctxDone = x.ctxDone := by
  cases b with
  | ready =>
    simp only [Snapdiff.proxy] at h
    split at h
    · cases h
    · split at h
      · rename_i queue
        split at h <;> cases h
        exact ⟨by simp [queue], rfl, rfl, rfl, rfl⟩
      · rename_i queue
        cases h
        exact ⟨by simp [queue], rfl, rfl, rfl, rfl⟩
  | ctxDone =>
    simp only [Snapdiff.proxy] at h
    split at h <;> cases h
    exact ⟨by cases x.largeCh <;> simp, rfl, rfl, rfl, rfl⟩

theorem StatelessStep.accounted {src : SyncSource} {s s' : StatelessSync R S W}
    (h : StatelessStep src s s') (hs : s.Accounted) : s'.Accounted := by
  -- what the drainer has reported, once there is a pipeline
  have reported {x : Snapdiff R S} (hx : s.snap = some x) {notified : List GoString}
      (same : notified = x.drainer.notified) :
      s.metaRsync.taken + (s.committedCh.buf : Multiset GoString) = (notified : Multiset _) := by
    have committed := hs.committed
    rw [StatelessSync.notified, hx] at committed
    rwa [same]
  have started {x : Snapdiff R S} (hx : s.snap = some x) {snap : Option (Snapdiff R S)}
      (at_ : s.blocks = .peek) : snap = none := by
    rw [hs.unstarted at_] at hx
    cases hx
  cases h with
  | produce next => exact next.accounted hs
  | peek at_ queue =>
    have large := hs.large
    have committed := hs.committed
    rw [queue] at large
    rw [StatelessSync.notified, hs.unstarted at_] at committed
    exact ⟨by simpa using large, hs.special, hs.deleted, committed, hs.directory, by simp⟩
  | opened at_ =>
    exact ⟨hs.large, hs.special, hs.deleted, hs.committed, hs.directory, by simp⟩
  | @proxy x x' b hx open_ next =>
    obtain ⟨taken, drainer, -⟩ := Snapdiff.proxy_takes next
    refine ⟨?_, hs.special, hs.deleted, reported hx (congrArg CommitDrainer.notified drainer),
      hs.directory, started hx⟩
    rw [List.append_assoc, taken]
    exact hs.large
  | @cancelBlocks x x' hx _ next =>
    have same : x'.drainer.notified = x.drainer.notified := by
      simpa [StatelessSync.notifies] using snapStep_notified next
    exact ⟨hs.large, hs.special, hs.deleted, reported hx same, hs.directory, started hx⟩
  | @blocks x x' a _ hx _ _ silent next =>
    have same : x'.drainer.notified = x.drainer.notified := by
      simpa [silent] using snapStep_notified next
    exact ⟨hs.large, hs.special, hs.deleted, reported hx same, hs.directory, started hx⟩
  | @notify x x' a path _ hx _ _ reports next =>
    have more : x'.drainer.notified = x.drainer.notified ++ [path] := by
      simpa [reports] using snapStep_notified next
    refine ⟨hs.large, hs.special, hs.deleted, ?_, hs.directory, started hx⟩
    change s.metaRsync.taken + ((s.committedCh.buf ++ [path] : List GoString) : Multiset GoString) =
      ((x'.drainer.notified : List GoString) : Multiset GoString)
    rw [more, ← Multiset.coe_add, ← Multiset.coe_add, ← reported hx rfl, add_assoc]
  | metaRsync next =>
    exact ⟨hs.large, hs.special, hs.deleted, (RsyncPool.step_taken next).trans hs.committed,
      hs.directory, hs.unstarted⟩
  | special next =>
    exact ⟨hs.large, (RsyncPool.step_taken next).trans hs.special, hs.deleted, hs.committed,
      hs.directory, hs.unstarted⟩
  | deletes next =>
    exact ⟨hs.large, hs.special, (DeleteConsumer.step_cases next).taken.trans hs.deleted,
      hs.committed, hs.directory, hs.unstarted⟩
  | peekEnd at_ | unopened at_ | blocksReturn at_ =>
    exact ⟨hs.large, hs.special, hs.deleted, hs.committed, hs.directory,
      by simp [StatelessSync.blocksLeave, StatelessSync.leaveGroup]⟩
  | _ => exact ⟨hs.large, hs.special, hs.deleted, hs.committed, hs.directory, hs.unstarted⟩

namespace StatelessSync

/-- The consumers are sound on their channels, and a channel is closed when the goroutine that
sends on it has returned. -/
structure Wired (s : StatelessSync R S W) : Prop where
  metaRsync : s.metaRsync.Sound s.committedCh
  special : s.special.Sound s.smallCh
  deletes : s.deletes.Sound s.deletedCh
  large : s.largeCh.closed = s.producer.exited
  small : s.smallCh.closed = s.producer.exited
  deleted : s.deletedCh.closed = s.producer.exited
  committed : s.committedCh.closed = s.blocks.exited

/-- A consumer that left the group has returned, and errors have been passed on. -/
structure Reported (s : StatelessSync R S W) : Prop where
  producer : ∀ err, s.producer = .exit (some err) → s.groupErr ≠ none
  blocks : ∀ err, s.blocks = .exit (some err) → s.groupErr ≠ none
  metaRsync : s.metaLeft = true →
    s.metaRsync.returned = true ∧ (s.metaRsync.groupErr ≠ none → s.groupErr ≠ none)
  special : s.specialLeft = true →
    s.special.returned = true ∧ (s.special.groupErr ≠ none → s.groupErr ≠ none)
  deletes : ∀ err, s.deletes.worker.pc = .exit (some err) → s.groupErr ≠ none

variable {src : SyncSource} {s s' : StatelessSync R S W}

theorem Wired.delivered (h : s.Wired) (active : s.producer.exited = false) (c : Changed)
    {pc : ProducerPC} (active' : pc.exited = false) :
    ({ s.delivered c with producer := pc } : StatelessSync R S W).Wired := by
  have large : s.largeCh.closed = pc.exited := by rw [h.large, active, active']
  have small : s.smallCh.closed = pc.exited := by rw [h.small, active, active']
  have deleted : s.deletedCh.closed = pc.exited := by rw [h.deleted, active, active']
  cases c with
  | large fe => exact ⟨h.metaRsync, h.special, h.deletes, large, small, deleted, h.committed⟩
  | special path =>
    exact ⟨h.metaRsync, h.special.send (h.small.trans active) path, h.deletes, large, small,
      deleted, h.committed⟩
  | deleted path =>
    exact ⟨h.metaRsync, h.special, h.deletes.send (h.deleted.trans active) path, large, small,
      deleted, h.committed⟩
  | directory => exact ⟨h.metaRsync, h.special, h.deletes, large, small, deleted, h.committed⟩

theorem Wired.moved (h : s.Wired) (active : s.producer.exited = false) (walk : List GoString)
    {pc : ProducerPC} (active' : pc.exited = false) :
    ({ s with walk := walk, producer := pc } : StatelessSync R S W).Wired :=
  ⟨h.metaRsync, h.special, h.deletes, by rw [h.large, active, active'],
    by rw [h.small, active, active'], by rw [h.deleted, active, active'], h.committed⟩

theorem Wired.produced (h : s.Wired) (err : Option ProducerErr) : (s.produced err).Wired :=
  ⟨h.metaRsync, h.special.close, h.deletes.close, rfl, rfl, rfl, h.committed⟩

theorem Wired.blocksLeave (h : s.Wired) (err : Option BlocksErr) : (s.blocksLeave err).Wired :=
  ⟨h.metaRsync.close, h.special, h.deletes, h.large, h.small, h.deleted, rfl⟩

theorem init_wired (src : SyncSource) (R S W : ℕ) : (statelessInit src R S W).Wired :=
  ⟨RsyncPool.new_sound W _, RsyncPool.new_sound W _, DeleteConsumer.new_sound _, rfl, rfl, rfl, rfl⟩

theorem leaveGroup_ne {err : Option GroupErr} (h : s.groupErr ≠ none) :
    (s.leaveGroup err).groupErr ≠ none := by
  cases hg : s.groupErr with
  | none => exact absurd hg h
  | some _ => simp [leaveGroup, hg]

theorem leaveGroup_some (err : GroupErr) : (s.leaveGroup (some err)).groupErr ≠ none := by
  cases hg : s.groupErr <;> simp [leaveGroup, hg]

theorem Reported.leaveGroup (h : s.Reported) (err : Option GroupErr) :
    (s.leaveGroup err).Reported where
  producer e he := leaveGroup_ne (h.producer e he)
  blocks e he := leaveGroup_ne (h.blocks e he)
  metaRsync left := ⟨(h.metaRsync left).1, fun e => leaveGroup_ne ((h.metaRsync left).2 e)⟩
  special left := ⟨(h.special left).1, fun e => leaveGroup_ne ((h.special left).2 e)⟩
  deletes e he := leaveGroup_ne (h.deletes e he)

theorem Reported.produced (h : s.Reported) (err : Option ProducerErr) :
    (s.produced err).Reported := by
  refine ⟨fun e he => ?_, fun e he => leaveGroup_ne (h.blocks e he),
    fun left => ⟨(h.metaRsync left).1, fun e => leaveGroup_ne ((h.metaRsync left).2 e)⟩,
    fun left => ⟨(h.special left).1, fun e => leaveGroup_ne ((h.special left).2 e)⟩,
    fun e he => leaveGroup_ne (h.deletes e he)⟩
  obtain rfl : err = some e := ProducerPC.exit.inj he
  exact leaveGroup_some _

theorem Reported.blocksLeave (h : s.Reported) (err : Option BlocksErr) :
    (s.blocksLeave err).Reported := by
  refine ⟨fun e he => leaveGroup_ne (h.producer e he), fun e he => ?_,
    fun left => ⟨(h.metaRsync left).1, fun e => leaveGroup_ne ((h.metaRsync left).2 e)⟩,
    fun left => ⟨(h.special left).1, fun e => leaveGroup_ne ((h.special left).2 e)⟩,
    fun e he => leaveGroup_ne (h.deletes e he)⟩
  obtain rfl : err = some e := BlocksPC.exit.inj he
  exact leaveGroup_some _

theorem init_reported (src : SyncSource) (R S W : ℕ) : (statelessInit src R S W).Reported :=
  ⟨by simp [statelessInit], by simp [statelessInit], by simp [statelessInit],
    by simp [statelessInit], by simp [statelessInit, DeleteConsumer.new, Worker.new]⟩

end StatelessSync

theorem Produces.wired {src : SyncSource} {s s' : StatelessSync R S W} (h : Produces src s s')
    (hs : s.Wired) : s'.Wired := by
  cases h with
  | next at_ => exact hs.moved (by rw [at_]; rfl) _ rfl
  | walked => exact hs.produced none
  | failed err => exact hs.produced (some err)
  | opened at_ | route at_ | dirEnd at_ => exact hs.moved (by rw [at_]; rfl) s.walk rfl
  | directory at_ => exact hs.delivered (by rw [at_]; rfl) _ rfl
  | deliver at_ => exact hs.delivered (by rw [at_]; rfl) _ rfl

theorem StatelessStep.wired {src : SyncSource} {s s' : StatelessSync R S W}
    (h : StatelessStep src s s') (hs : s.Wired) : s'.Wired := by
  cases h with
  | produce next => exact next.wired hs
  | peekEnd | unopened | blocksReturn => exact hs.blocksLeave _
  | peek at_ =>
    exact ⟨hs.metaRsync, hs.special, hs.deletes, hs.large, hs.small, hs.deleted,
      hs.committed.trans (by rw [at_]; rfl)⟩
  | opened at_ =>
    exact ⟨hs.metaRsync, hs.special, hs.deletes, hs.large, hs.small, hs.deleted,
      hs.committed.trans (by rw [at_]; rfl)⟩
  | notify running =>
    have open_ : s.committedCh.closed = false := hs.committed.trans (by rw [running]; rfl)
    exact ⟨hs.metaRsync.send open_ _, hs.special, hs.deletes, hs.large, hs.small, hs.deleted,
      hs.committed⟩
  | metaRsync next =>
    exact ⟨hs.metaRsync.step next, hs.special, hs.deletes, hs.large, hs.small, hs.deleted,
      (RsyncPool.step_closed next).trans hs.committed⟩
  | special next =>
    exact ⟨hs.metaRsync, hs.special.step next, hs.deletes, hs.large,
      (RsyncPool.step_closed next).trans hs.small, hs.deleted, hs.committed⟩
  | deletes next =>
    exact ⟨hs.metaRsync, hs.special, hs.deletes.step next, hs.large, hs.small,
      (DeleteConsumer.step_cases next).closed.trans hs.deleted, hs.committed⟩
  | _ =>
    exact ⟨hs.metaRsync, hs.special, hs.deletes, hs.large, hs.small, hs.deleted, hs.committed⟩

theorem Produces.reported {src : SyncSource} {s s' : StatelessSync R S W} (h : Produces src s s')
    (hs : s.Reported) : s'.Reported := by
  cases h with
  | walked => exact hs.produced none
  | failed err => exact hs.produced (some err)
  | @deliver c =>
    cases c <;> exact ⟨by simp, hs.blocks, hs.metaRsync, hs.special, hs.deletes⟩
  | _ => exact ⟨by simp, hs.blocks, hs.metaRsync, hs.special, hs.deletes⟩

theorem StatelessStep.reported {src : SyncSource} {s s' : StatelessSync R S W}
    (h : StatelessStep src s s') (hs : s.Reported) : s'.Reported := by
  cases h with
  | produce next => exact next.reported hs
  | peekEnd | unopened | blocksReturn => exact hs.blocksLeave _
  | peek | opened => exact ⟨hs.producer, by simp, hs.metaRsync, hs.special, hs.deletes⟩
  | @metaRsync pool ch i e next =>
    refine ⟨hs.producer, hs.blocks, fun left => ?_, hs.special, hs.deletes⟩
    rw [RsyncPool.returned_stuck (hs.metaRsync left).1] at next
    cases next
  | @special pool ch i e next =>
    refine ⟨hs.producer, hs.blocks, hs.metaRsync, fun left => ?_, hs.deletes⟩
    rw [RsyncPool.returned_stuck (hs.special left).1] at next
    cases next
  | metaReturn returned =>
    have rest := hs.leaveGroup (s.metaRsync.groupErr.map .metaRsync)
    refine ⟨rest.producer, rest.blocks, fun _ => ⟨returned, fun err => ?_⟩, rest.special,
      rest.deletes⟩
    obtain ⟨e, he⟩ := Option.ne_none_iff_exists'.mp err
    rw [show s.metaRsync.groupErr = some e from he]
    exact StatelessSync.leaveGroup_some _
  | specialReturn returned =>
    have rest := hs.leaveGroup (s.special.groupErr.map .special)
    refine ⟨rest.producer, rest.blocks, rest.metaRsync, fun _ => ⟨returned, fun err => ?_⟩,
      rest.deletes⟩
    obtain ⟨e, he⟩ := Option.ne_none_iff_exists'.mp err
    rw [show s.special.groupErr = some e from he]
    exact StatelessSync.leaveGroup_some _
  | @deletes d ch e next =>
    have rest := hs.leaveGroup (d.worker.pc.error.map .deletes)
    refine ⟨rest.producer, rest.blocks, rest.metaRsync, rest.special, fun err he => ?_⟩
    rw [show d.worker.pc = .exit (some err) from he]
    exact StatelessSync.leaveGroup_some _
  | _ => exact ⟨hs.producer, hs.blocks, hs.metaRsync, hs.special, hs.deletes⟩

section Reachable

variable {src : SyncSource} {s : StatelessSync R S W}
  (h : Reach (statelessStep src) (statelessInit src R S W) s)

include h

theorem reach_syncAccounted : s.Accounted :=
  h.invariant (StatelessSync.init_accounted src R S W) fun _ _ _ _ hs next =>
    (statelessStep_cases next).accounted hs

theorem reach_wired : s.Wired :=
  h.invariant (StatelessSync.init_wired src R S W) fun _ _ _ _ hs next =>
    (statelessStep_cases next).wired hs

theorem reach_reported : s.Reported :=
  h.invariant (StatelessSync.init_reported src R S W) fun _ _ _ _ hs next =>
    (statelessStep_cases next).reported hs

end Reachable

end CephVolsync.CephFs
