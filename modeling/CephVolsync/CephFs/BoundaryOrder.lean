import CephVolsync.CephFs.Boundaries

/-! The order in which file boundaries reach their consumer. `emitBoundary` tries the channel
first, also when earlier boundaries wait in `pendingBoundaries`; a boundary that finds room then
overtakes them. The iterator is called by one goroutine, in any order of `Next` and one `Close`
at the end, and the consumer receives whenever it likes. -/

namespace CephVolsync.CephFs

open Pipeline TransitionSystem

/-- The goroutine that calls the iterator: between two calls, in `Next`, in the loop of
`flushAllBoundaries`, and behind `Close`, which may have left boundaries unsent. Nobody uses the
iterator after that, so that its last fields stay as they are. -/
inductive CallerPC where
  | idle
  | next
  | flush (todo : List FileBoundary)
  | closed (unsent : List FileBoundary)
  deriving DecidableEq, Repr

structure BoundaryRun where
  feed : Feed
  coming : List ChangedFileEntry
  caller : CallerPC
  ctxDone : Bool
  waiting : Bool
  received : List FileBoundary

inductive BoundaryAction where
  | arrive
  | endFiles
  | cancel
  | call
  | next (b : Branch)
  | answer
  | setFailed
  | close
  | flush (b : Branch)
  | wait
  | receive
  deriving DecidableEq, Repr

/-- The boundary of the current file would go past those that wait. -/
def Feed.overtakes (opts : IterOptions) (f : Feed) : Bool :=
  f.it.emitted && f.room opts && !f.it.pendingBoundaries.isEmpty

namespace BoundaryRun

def start (files : List ChangedFileEntry) : BoundaryRun :=
  ⟨.new .new, files, .idle, false, false, []⟩

def opts (o : IterOptions) (s : BoundaryRun) : IterOptions := o.withReceiver s.waiting

def closed (o : IterOptions) (s : BoundaryRun) : Feed :=
  if s.feed.it.failed then s.feed else s.feed.emitBoundary (s.opts o)

def flush (o : IterOptions) (s : BoundaryRun) : CallerPC → Branch → Option BoundaryRun
  | .flush (fb :: todo), .ready =>
    if s.feed.room (s.opts o) then
      some { s with
        caller := .flush todo, feed := { s.feed with boundaryCh := s.feed.boundaryCh.send fb } }
    else none
  | .flush (fb :: todo), .ctxDone =>
    if s.ctxDone then some { s with caller := .closed (fb :: todo) } else none
  | .flush [], .ready => some { s with caller := .closed [] }
  | _, _ => none

def step (o : IterOptions) (s : BoundaryRun) : BoundaryAction → Option BoundaryRun
  | .arrive =>
    match s.coming with
    | fe :: rest =>
      some { s with coming := rest, feed := { s.feed with fileCh := s.feed.fileCh.send fe } }
    | [] => none
  | .endFiles =>
    if s.coming = [] ∧ s.feed.fileCh.closed = false then
      some { s with feed := { s.feed with fileCh := s.feed.fileCh.close } }
    else none
  | .cancel => some { s with ctxDone := true }
  | .call =>
    if s.caller = .idle then some { s with caller := .next, feed := { s.feed with pc := .scan } }
    else none
  | .next b =>
    if s.caller = .next then
      (s.feed.next (s.opts o) s.ctxDone s.feed.pc b).map fun f => { s with feed := f }
    else none
  | .answer =>
    if s.caller = .next then s.feed.answer.map fun r => { s with caller := .idle, feed := r.2 }
    else none
  | .setFailed =>
    if s.caller = .idle then
      some { s with feed := { s.feed with it := { s.feed.it with failed := true } } }
    else none
  | .close =>
    if s.caller = .idle then
      some { s with feed := s.closed o, caller := .flush (s.closed o).it.pendingBoundaries }
    else none
  | .flush b => s.flush o s.caller b
  | .wait => if s.feed.boundaryCh.buf = [] then some { s with waiting := true } else none
  | .receive =>
    match s.feed.boundaryCh.buf with
    | fb :: rest =>
      some { s with
        received := s.received ++ [fb]
        waiting := false
        feed := { s.feed with boundaryCh := { s.feed.boundaryCh with buf := rest } } }
    | [] => none

/-- No boundary overtakes another one. -/
def inTurn (o : IterOptions) (s : BoundaryRun) : BoundaryAction → Bool
  | .next _ => s.feed.pc ≠ .boundary || !s.feed.overtakes (s.opts o)
  | .close => s.feed.it.failed || !s.feed.overtakes (s.opts o)
  | _ => true

end BoundaryRun

namespace Feed

variable {opts : IterOptions} {done : Bool} {f f' : Feed}

/-- The numbers of the boundaries emitted grow, and the current file starts behind them. -/
structure Advances (f : Feed) : Prop where
  increasing : (f.emitted.map (·.lastReqID)).Pairwise (· < ·)
  below : ∀ fb ∈ f.emitted, fb.lastReqID < f.it.reqID
  current : f.pc = .scan ∨ f.pc = .boundary → f.it.curFile ≠ [] →
    ∀ fb ∈ f.emitted, fb.lastReqID < f.it.fileStartReqID
  exhausted : f.pc = .exhausted → f.it.curFile = []

theorem new_advances (files : Chan ChangedFileEntry) : (new files).Advances :=
  ⟨List.Pairwise.nil, nofun, nofun, nofun⟩

theorem Advances.channels (h : f.Advances) (files : Chan ChangedFileEntry)
    (boundaries : Chan FileBoundary) :
    ({ f with fileCh := files, boundaryCh := boundaries } : Feed).Advances :=
  ⟨h.increasing, h.below, h.current, h.exhausted⟩

theorem Advances.setFailed (h : f.Advances) (failed : Bool) :
    ({ f with it := { f.it with failed := failed } } : Feed).Advances :=
  ⟨h.increasing, h.below, h.current, h.exhausted⟩

theorem Advances.between (h : f.Advances) (hpc : f.pc = .scan ∨ f.pc = .exhausted)
    (named : f.it.curFile ≠ []) : ∀ fb ∈ f.emitted, fb.lastReqID < f.it.fileStartReqID := by
  rcases hpc with hpc | hpc
  · exact h.current (.inl hpc) named
  · exact absurd (h.exhausted hpc) named

theorem Advances.emitBoundary (h : f.Advances)
    (current : f.it.curFile ≠ [] → ∀ fb ∈ f.emitted, fb.lastReqID < f.it.fileStartReqID) :
    ((f.emitBoundary opts).emitted.map (·.lastReqID)).Pairwise (· < ·) ∧
      ∀ fb ∈ (f.emitBoundary opts).emitted, fb.lastReqID < f.it.reqID := by
  rw [f.emitBoundary_emitted opts]
  split_ifs with emitted
  · obtain ⟨named, started⟩ := of_decide_eq_true emitted
    have last : f.it.boundary.lastReqID = f.it.reqID - 1 := rfl
    refine ⟨?_, fun fb hfb => ?_⟩
    · rw [List.map_append, List.pairwise_append]
      refine ⟨h.increasing, List.pairwise_singleton _ _, fun n hn m hm => ?_⟩
      obtain ⟨fb, hfb, rfl⟩ := List.mem_map.mp hn
      have earlier := current named fb hfb
      rw [List.map_singleton, List.mem_singleton, last] at hm
      omega
    · rcases List.mem_append.mp hfb with old | new
      · exact h.below fb old
      · rw [List.mem_singleton.mp new, last]
        omega
  · rw [List.append_nil]
    exact ⟨h.increasing, h.below⟩

end Feed

variable {opts : IterOptions} {done : Bool} {f f' : Feed}

theorem FeedStep.advances (h : FeedStep opts done f f') (hf : f.Advances) : f'.Advances := by
  obtain ⟨increasing, below, current, exhausted⟩ := id hf
  cases h with
  | read hpc => exact ⟨increasing, below, current, exhausted⟩
  | @endFile it hpc _ _ hit =>
    have frame : it.file = f.it.file ∧ it.reqID = f.it.reqID ∧
        it.fileStartReqID = f.it.fileStartReqID := by
      rcases hit with rfl | rfl
      · exact ⟨rfl, rfl, rfl⟩
      · have same := f.it.closeCurrentIter_frame
        exact ⟨same.1, same.2.1, same.2.2.1⟩
    have path : it.curFile = f.it.curFile := congrArg ChangedFileEntry.path frame.1
    refine ⟨increasing, ?_, fun _ => ?_, nofun⟩
    · rw [frame.2.1]
      exact below
    · rw [path, frame.2.2]
      exact current (.inl hpc)
  | boundary hpc =>
    have numbers := @Feed.Advances.emitBoundary opts f hf (current (.inr hpc))
    have frame := f.emitBoundary_frame opts
    refine ⟨numbers.1, ?_, by simp, nofun⟩
    rw [frame.2.2.2.1]
    exact numbers.2
  | drainOne hpc => exact ⟨increasing, below, current, exhausted⟩
  | drained hpc => exact ⟨increasing, below, by simp, nofun⟩
  | @enter fe rest hpc =>
    have frame := @CephFSBlockIterator.enter_frame opts f.it.closeCurrentIter fe
    have same := f.it.closeCurrentIter_frame
    refine ⟨increasing, ?_, fun _ _ => ?_, nofun⟩
    · rw [frame.2.1, same.2.1]
      exact below
    · rw [frame.2.2.1, same.2.1]
      exact below
  | exhaust hpc =>
    have same := f.it.closeCurrentIter_frame
    exact ⟨increasing, by simpa [Feed.exhaust, same.2.1] using below, by simp [Feed.exhaust],
      fun _ => rfl⟩

theorem Feed.emitBoundary_behind (h : f.overtakes opts = false) :
    ∃ new, (f.emitBoundary opts).emitted = f.emitted ++ new ∧
      (f.emitBoundary opts).boundaryCh.buf ++ (f.emitBoundary opts).it.pendingBoundaries =
        f.boundaryCh.buf ++ f.it.pendingBoundaries ++ new := by
  unfold Feed.emitBoundary
  split_ifs with emitted room
  · have none : f.it.pendingBoundaries = [] := by
      simpa [Feed.overtakes, emitted, room] using h
    exact ⟨[f.it.boundary], rfl, by simp [none, Chan.send]⟩
  · exact ⟨[f.it.boundary], rfl, by simp⟩
  · exact ⟨[], by simp, by simp⟩

theorem FeedStep.behind (h : FeedStep opts done f f')
    (turn : f.pc = .boundary → f.overtakes opts = false) :
    ∃ new, f'.emitted = f.emitted ++ new ∧
      f'.boundaryCh.buf ++ f'.it.pendingBoundaries =
        f.boundaryCh.buf ++ f.it.pendingBoundaries ++ new := by
  have same := f.it.closeCurrentIter_frame.2.2.2
  cases h with
  | boundary hpc => exact Feed.emitBoundary_behind (turn hpc)
  | drainOne _ hp => exact ⟨[], by simp, by simp [hp, Chan.send]⟩
  | endFile _ _ _ hit =>
    rcases hit with rfl | rfl
    · exact ⟨[], by simp, by simp⟩
    · exact ⟨[], by simp, by simp [same]⟩
  | @enter fe =>
    have frame := @CephFSBlockIterator.enter_frame opts f.it.closeCurrentIter fe
    exact ⟨[], by simp, by simp [frame.2.2.2, same]⟩
  | exhaust => exact ⟨[], by simp [Feed.exhaust], by simp [Feed.exhaust, same]⟩
  | read | drained => exact ⟨[], by simp, by simp⟩

namespace BoundaryRun

variable {o : IterOptions} {files : List ChangedFileEntry} {s s' : BoundaryRun}

def unsent (s : BoundaryRun) : List FileBoundary :=
  match s.caller with
  | .idle | .next => s.feed.it.pendingBoundaries
  | .flush todo => todo
  | .closed unsent => unsent

structure Ordered (s : BoundaryRun) : Prop where
  ledger : s.received ++ s.feed.boundaryCh.buf ++ s.unsent = s.feed.emitted
  increasing : (s.feed.emitted.map (·.lastReqID)).Pairwise (· < ·)
  advances : s.caller = .idle ∨ s.caller = .next → s.feed.Advances
  between : s.caller = .idle → s.feed.pc = .scan ∨ s.feed.pc = .exhausted

theorem start_ordered : (start files).Ordered :=
  ⟨rfl, List.Pairwise.nil, fun _ => Feed.new_advances _, fun _ => .inl rfl⟩

theorem Ordered.next (h : s.Ordered) (hc : s.caller = .next) {f : Feed}
    (hf : FeedStep (s.opts o) s.ctxDone s.feed f)
    (turn : s.feed.pc = .boundary → s.feed.overtakes (s.opts o) = false) :
    Ordered { s with feed := f } := by
  have advances := hf.advances (h.advances (.inr hc))
  obtain ⟨new, emitted, behind⟩ := hf.behind turn
  refine ⟨?_, advances.increasing, fun _ => advances, fun idle => ?_⟩
  · have ledger := h.ledger
    simp only [unsent, hc] at ledger ⊢
    rw [emitted, ← ledger, List.append_assoc, behind]
    simp
  · rw [hc] at idle
    cases idle

theorem Ordered.answer (h : s.Ordered) (hc : s.caller = .next) {r : Option ChangeBlock × Feed}
    (hr : s.feed.answer = some r) : Ordered { s with caller := .idle, feed := r.2 } := by
  obtain ⟨ledger, increasing, advances, between⟩ := id h
  obtain ⟨-, below, current, exhausted⟩ := advances (.inr hc)
  simp only [unsent, hc] at ledger
  rcases Feed.answer_cases hr with ⟨e, rest, hpc, -, -, feed⟩ | ⟨hpc, -, feed⟩
  · rw [feed]
    exact ⟨ledger, increasing,
      fun _ => ⟨increasing, fun fb hfb => (below fb hfb).trans (Nat.lt_succ_self _),
      current, exhausted⟩, fun _ => .inl hpc⟩
  · rw [feed]
    exact ⟨ledger, increasing, fun _ => advances (.inr hc), fun _ => .inr hpc⟩

theorem Ordered.close (h : s.Ordered) (hc : s.caller = .idle)
    (turn : s.feed.it.failed = true ∨ s.feed.overtakes (s.opts o) = false) :
    Ordered { s with feed := s.closed o, caller := .flush (s.closed o).it.pendingBoundaries } := by
  obtain ⟨ledger, increasing, advances, between⟩ := id h
  have advances := advances (.inl hc)
  simp only [unsent, hc] at ledger
  unfold BoundaryRun.closed
  split_ifs with failed
  · exact ⟨ledger, increasing, nofun, nofun⟩
  · obtain ⟨new, emitted, behind⟩ := Feed.emitBoundary_behind (turn.resolve_left failed)
    refine ⟨?_, (advances.emitBoundary (advances.between (between hc))).1, nofun, nofun⟩
    simp only [unsent]
    rw [emitted, ← ledger, List.append_assoc, behind]
    simp

theorem Ordered.flush (h : s.Ordered) {b : Branch} (hs : s.flush o s.caller b = some s') :
    s'.Ordered := by
  obtain ⟨ledger, increasing, -, -⟩ := id h
  cases hc : s.caller with
  | idle | next | closed =>
    cases b <;> simp [hc, BoundaryRun.flush] at hs
  | flush todo =>
    simp only [unsent, hc] at ledger
    cases todo with
    | nil =>
      cases b <;> simp only [hc, BoundaryRun.flush, reduceCtorEq] at hs
      cases hs
      exact ⟨ledger, increasing, by simp, by simp⟩
    | cons fb todo =>
      cases b <;> simp only [hc, BoundaryRun.flush] at hs <;> split at hs <;> cases hs
      · refine ⟨?_, increasing, by simp, by simp⟩
        simpa [unsent, Chan.send] using ledger
      · exact ⟨ledger, increasing, by simp, by simp⟩

theorem Ordered.step (h : s.Ordered) {a : BoundaryAction} (turn : s.inTurn o a = true)
    (hs : s.step o a = some s') : s'.Ordered := by
  obtain ⟨ledger, increasing, advances, between⟩ := id h
  cases a with
  | arrive =>
    simp only [BoundaryRun.step] at hs
    split at hs <;> cases hs
    exact ⟨ledger, increasing, fun hc => (advances hc).channels _ _, between⟩
  | endFiles =>
    simp only [BoundaryRun.step] at hs
    split at hs <;> cases hs
    exact ⟨ledger, increasing, fun hc => (advances hc).channels _ _, between⟩
  | cancel =>
    cases hs
    exact ⟨ledger, increasing, advances, between⟩
  | call =>
    simp only [BoundaryRun.step] at hs
    split at hs <;> cases hs
    rename_i hc
    have calling := advances (.inl hc)
    simp only [unsent, hc] at ledger
    exact ⟨ledger, increasing,
      fun _ => ⟨increasing, calling.below, fun _ => calling.between (between hc),
      nofun⟩, nofun⟩
  | next b =>
    simp only [BoundaryRun.step] at hs
    split at hs
    · rename_i hc
      obtain ⟨f, hf, rfl⟩ := Option.map_eq_some_iff.mp hs
      exact h.next hc (Feed.next_cases hf) fun hpc => by simpa [inTurn, hpc] using turn
    · cases hs
  | answer =>
    simp only [BoundaryRun.step] at hs
    split at hs
    · rename_i hc
      obtain ⟨r, hr, rfl⟩ := Option.map_eq_some_iff.mp hs
      exact h.answer hc hr
    · cases hs
  | setFailed =>
    simp only [BoundaryRun.step] at hs
    split at hs <;> cases hs
    exact ⟨ledger, increasing, fun hc => (advances hc).setFailed _, between⟩
  | close =>
    simp only [BoundaryRun.step] at hs
    split at hs <;> cases hs
    rename_i hc
    exact h.close hc (by simpa [inTurn] using turn)
  | flush b => exact h.flush hs
  | wait =>
    simp only [BoundaryRun.step] at hs
    split at hs <;> cases hs
    exact ⟨ledger, increasing, advances, between⟩
  | receive =>
    simp only [BoundaryRun.step] at hs
    split at hs <;> cases hs
    rename_i fb rest hbuf
    refine ⟨?_, increasing, fun hc => (advances hc).channels _ _, between⟩
    simp only [unsent, hbuf] at ledger ⊢
    rw [← ledger]
    simp

theorem reach_ordered (h : Reach (restrict (inTurn o) (step o)) (start files) s) : s.Ordered :=
  h.invariant start_ordered fun _ _ _ _ hs next =>
    have ⟨turn, next⟩ := restrict_eq_some.mp next
    hs.step turn next

/-- As long as no boundary is emitted into a channel with room while others wait, the
consumer receives the boundaries in the order of the files. -/
theorem boundaries_increasing (o : IterOptions) (files : List ChangedFileEntry) (s : BoundaryRun)
    (reached : Reach (restrict (inTurn o) (step o)) (start files) s) :
    (s.received.map (·.lastReqID)).Pairwise (· < ·) := by
  have ordered := reach_ordered reached
  refine ordered.increasing.sublist ?_
  rw [← ordered.ledger, List.append_assoc]
  exact (List.sublist_append_left _ _).map _

def sampleOptions (boundaryCap : ℕ) : IterOptions := ⟨fun _ => none, 10, boundaryCap⟩

def sampleFiles : List ChangedFileEntry :=
  [⟨goString "a", 1⟩, ⟨goString "b", 1⟩, ⟨goString "c", 1⟩]

def nextFile : List BoundaryAction :=
  [.call, .next .ready, .next .ready, .next .ready, .next .ready, .answer]

def arrivals : List BoundaryAction := [.arrive, .arrive, .arrive, .endFiles]

/-- The third boundary is emitted into the place that the first one has left, and the second
one follows with `Close`. -/
def overtaking : List BoundaryAction :=
  List.flatten [arrivals, nextFile, nextFile, nextFile, [.receive], nextFile,
    [.close, .receive, .flush .ready, .receive]]

theorem boundaries_overtaken : ∃ s, Reach (step (sampleOptions 1)) (start sampleFiles) s ∧
    s.received.map (·.lastReqID) = [0, 2, 1] := by
  have run : ((exec (step (sampleOptions 1)) (start sampleFiles) overtaking).any fun s =>
      s.received.map (·.lastReqID) = [0, 2, 1]) = true := by
    decide +kernel
  obtain ⟨s, reached, hs⟩ := Reach.of_exec_any run
  exact ⟨s, reached, of_decide_eq_true hs⟩

def rendezvous : List BoundaryAction :=
  List.flatten [arrivals, nextFile, [.wait], nextFile, [.receive], nextFile, nextFile,
    [.close, .wait, .flush .ready, .receive, .wait, .flush .ready, .receive]]

theorem boundaries_increasing_rendezvous : ∃ s,
    Reach (restrict (inTurn (sampleOptions 0)) (step (sampleOptions 0))) (start sampleFiles) s ∧
    s.received.length = 3 ∧ (s.received.map (·.lastReqID)).Pairwise (· < ·) := by
  have run : ((exec (restrict (inTurn (sampleOptions 0)) (step (sampleOptions 0)))
      (start sampleFiles) rendezvous).any fun s => s.received.length = 3) = true := by
    decide +kernel
  obtain ⟨s, reached, hs⟩ := Reach.of_exec_any run
  exact ⟨s, reached, of_decide_eq_true hs, boundaries_increasing _ _ s reached⟩

end BoundaryRun

end CephVolsync.CephFs
