import CephVolsync.CephFs.CommitDrainer

/-! The commit drainer on its own: boundaries arrive until their channel is closed, ids are
released on the window in any order, the commit stream may answer or fail, and the context
may be cancelled. Whatever happens, the requests carry the boundaries in the order in which
they were received, each once and none before its last id was released. -/

namespace CephVolsync.CephFs

open Pipeline TransitionSystem SlidingWindow

variable {γ : Type} {maxWindow : ℕ}

structure DrainRun (γ : Type) where
  drainer : CommitDrainer
  boundaryCh : Chan FileBoundary
  win : WindowSemaphore γ
  done : Bool

inductive DrainAction where
  | cancel
  | arrive (fb : FileBoundary)
  | close
  | release (reqID : ℕ)
  | drainer (e : DrainEvent)
  deriving DecidableEq, Repr

namespace DrainRun

def start (win : WindowSemaphore γ) : DrainRun γ := ⟨.new, .new, win, false⟩

def step (maxWindow : ℕ) (s : DrainRun γ) : DrainAction → Option (DrainRun γ)
  | .cancel => some { s with done := true }
  | .arrive fb =>
    if s.boundaryCh.closed then none else some { s with boundaryCh := s.boundaryCh.send fb }
  | .close => if s.boundaryCh.closed then none else some { s with boundaryCh := s.boundaryCh.close }
  | .release reqID => some { s with win := s.win.release reqID }
  | .drainer e =>
    (s.drainer.run maxWindow s.done s.boundaryCh s.win s.drainer.pc e).map fun r =>
      { s with drainer := r.1, boundaryCh := r.2.1, win := r.2.2 }

def answers (s : DrainRun γ) : DrainAction → List (List CommitEntry)
  | .drainer (.rpc true) =>
    match s.drainer.pc with
    | .recvAck _ _ => s.drainer.requests.getLast?.toList
    | _ => []
  | _ => []

end DrainRun

theorem advance_base_le (limit fuel : ℕ) (bits : ℕ → Bool) (base : ℕ) :
    base ≤ (advance limit fuel bits base).2 := by
  induction fuel generalizing bits base with
  | zero => exact le_rfl
  | succ fuel ih =>
    rw [advance]
    split
    · have := ih (Function.update bits (base % limit) false) (base + 1)
      omega
    · exact le_rfl

theorem isReleased_release {win : WindowSemaphore γ} {id : ℕ} (reqID : ℕ)
    (h : win.isReleased id = true) : (win.release reqID).isReleased id = true := by
  have grows : win.base ≤ (win.release reqID).base := by
    unfold WindowSemaphore.release
    split
    · exact le_rfl
    · exact advance_base_le _ _ _ _
  simp only [WindowSemaphore.isReleased, decide_eq_true_eq] at h ⊢
  omega

def commitPaths (requests : List (List CommitEntry)) : List GoString :=
  requests.flatten.map (·.path)

namespace CommitDrainer

/-- The size of the batch, what of the requests is answered, and what of the answered
entries is on `committedCh`. -/
def StageAt (d : CommitDrainer) (answered : List (List CommitEntry)) : DrainerPC → Prop
  | .recv =>
    d.batch = [] ∧ d.committed = [] ∧ d.requests = answered ∧ d.notified = commitPaths answered
  | .loop _ | .wait =>
    d.batch.length < commitBatchSize ∧ d.committed = d.batch.map (·.path) ∧
      d.requests = answered ∧ d.notified = commitPaths answered
  | .send _ _ =>
    (1 ≤ d.batch.length ∧ d.batch.length ≤ commitBatchSize) ∧ d.committed = d.batch.map (·.path) ∧
      d.requests = answered ∧ d.notified = commitPaths answered
  | .recvAck _ _ =>
    d.batch = [] ∧ ∃ last, d.requests = answered ++ [last] ∧ d.committed = last.map (·.path) ∧
      d.notified = commitPaths answered
  | .notify todo _ _ =>
    d.batch = [] ∧ d.committed = [] ∧ d.requests = answered ∧
      d.notified ++ todo = commitPaths answered
  | .exit none => d.requests = answered ∧ d.notified = commitPaths answered
  | .exit (some _) => answered <+: d.requests ∧ d.notified <+: commitPaths answered

/-- Where the boundaries are that the drainer received: those in front of `pending` are
released, their files are closed, and they make up the requests and the batch. -/
structure Committing (isReleased : ℕ → Bool) (answered : List (List CommitEntry))
    (d : CommitDrainer) : Prop where
  front : ∃ front, d.received = front ++ d.pending ∧
    (∀ fb ∈ front, isReleased fb.lastReqID = true) ∧
    d.requests.flatten ++ d.batch = front.map commitEntry ∧ d.closedFiles = front.map (·.path)
  sizes : ∀ req ∈ d.requests, 1 ≤ req.length ∧ req.length ≤ commitBatchSize
  stage : d.StageAt answered d.pc

variable {d d' : CommitDrainer} {ch ch' : Chan FileBoundary} {win win' : WindowSemaphore γ}
  {done : Bool} {answered : List (List CommitEntry)}

theorem StageAt.failed {pc : DrainerPC} (h : d.StageAt answered pc) :
    answered <+: d.requests ∧ d.notified <+: commitPaths answered := by
  cases pc with
  | recv => exact ⟨h.2.2.1 ▸ List.prefix_rfl, h.2.2.2 ▸ List.prefix_rfl⟩
  | loop | wait | send => exact ⟨h.2.2.1 ▸ List.prefix_rfl, h.2.2.2 ▸ List.prefix_rfl⟩
  | recvAck =>
    obtain ⟨-, last, requests, -, notified⟩ := h
    exact ⟨⟨[last], requests.symm⟩, notified ▸ List.prefix_rfl⟩
  | notify todo => exact ⟨h.2.2.1 ▸ List.prefix_rfl, ⟨todo, h.2.2.2⟩⟩
  | exit err =>
    cases err with
    | none => exact ⟨h.1 ▸ List.prefix_rfl, h.2 ▸ List.prefix_rfl⟩
    | some err => exact h

theorem Committing.release {win : WindowSemaphore γ} (reqID : ℕ)
    (h : d.Committing win.isReleased answered) :
    d.Committing (win.release reqID).isReleased answered := by
  obtain ⟨front, received, released, rest⟩ := h.front
  exact ⟨⟨front, received, fun fb hfb => isReleased_release reqID (released fb hfb), rest⟩,
    h.sizes, h.stage⟩

theorem run_recvAck {l : DrainLoop} {more : Bool} {e : DrainEvent} (hpc : d.pc = .recvAck l more)
    (h : d.run maxWindow done ch win d.pc e = some (d', ch', win')) :
    ∃ ok, e = .rpc ok ∧ d' = d.recvCommit l more ok ∧ ch' = ch ∧ win' = win := by
  rw [hpc] at h
  rcases e with (_ | _) | ok <;> simp only [run, reduceCtorEq] at h
  cases h
  exact ⟨ok, rfl, rfl, rfl, rfl⟩

theorem Committing.recvAck {l : DrainLoop} {more : Bool} (hpc : d.pc = .recvAck l more) (ok : Bool)
    (h : d.Committing win.isReleased answered) :
    (d.recvCommit l more ok).Committing win.isReleased
      (answered ++ if ok then d.requests.getLast?.toList else []) := by
  have stage := h.stage
  rw [hpc] at stage
  obtain ⟨batch, last, requests, committed, notified⟩ := stage
  cases ok with
  | true =>
    refine ⟨h.front, h.sizes, batch, rfl, ?_, ?_⟩
    · simp [recvCommit, requests]
    · simp [recvCommit, requests, committed, notified, commitPaths]
  | false =>
    refine ⟨h.front, h.sizes, ?_⟩
    simp only [Bool.false_eq_true, if_false, List.append_nil]
    exact ⟨⟨[last], requests.symm⟩, notified ▸ List.prefix_rfl⟩

theorem Committing.step (h : DrainStep maxWindow done d ch win d' ch' win')
    (hd : d.Committing win.isReleased answered) (quiet : ∀ l more, d.pc ≠ .recvAck l more) :
    d'.Committing win'.isReleased answered := by
  obtain ⟨⟨front, received, released, entries, files⟩, sizes, stage⟩ := hd
  cases h with
  | receive hpc =>
    rw [hpc] at stage
    obtain ⟨batch, committed, requests, notified⟩ := stage
    refine ⟨⟨front, by simp [receive, received], released, entries, files⟩, sizes, ?_, ?_, requests,
      notified⟩
    · simp [receive, batch, commitBatchSize]
    · simp [receive, batch, committed]
  | closed hpc =>
    rw [hpc] at stage
    obtain ⟨batch, committed, requests, notified⟩ := stage
    exact ⟨⟨front, received, released, entries, files⟩, sizes, by simp [batch, commitBatchSize],
      by simp [batch, committed], requests, notified⟩
  | done => exact ⟨⟨front, received, released, entries, files⟩, sizes, stage.failed⟩
  | @take l head rest hpc hp hr =>
    rw [hpc] at stage
    obtain ⟨room, committed, requests, notified⟩ := stage
    refine ⟨⟨front ++ [head], by simp [take, received, hp], ?_, by simp [take, ← entries],
      by simp [take, files]⟩, sizes, ?_⟩
    · simp only [List.mem_append, List.mem_singleton]
      rintro fb (hfb | rfl)
      · exact released fb hfb
      · exact hr
    · have paths : d.committed ++ [head.path] = (d.batch ++ [commitEntry head]).map (·.path) := by
        simp [committed, commitEntry]
      have length : (d.batch ++ [commitEntry head]).length = d.batch.length + 1 := by simp
      have some : 1 ≤ (d.batch ++ [commitEntry head]).length := by omega
      have most : (d.batch ++ [commitEntry head]).length ≤ commitBatchSize := by omega
      simp only [take]
      split
      · exact ⟨⟨some, most⟩, paths, requests, notified⟩
      · rename_i room
        exact ⟨not_le.mp room, paths, requests, notified⟩
  | @finish l hpc =>
    rw [hpc] at stage
    obtain ⟨room, committed, requests, notified⟩ := stage
    refine ⟨⟨front, received, released, entries, files⟩, sizes, ?_⟩
    simp only [finish]
    split
    · rename_i empty
      have batch : d.batch = [] := List.eq_nil_of_length_eq_zero empty
      cases l with
      | drainQualified => exact ⟨batch, by simp [committed, batch], requests, notified⟩
      | flushAll => exact ⟨requests, notified⟩
    · rename_i some
      exact ⟨⟨Nat.one_le_iff_ne_zero.mpr some, room.le⟩, committed, requests, notified⟩
  | sleep hpc | wake hpc =>
    rw [hpc] at stage
    exact ⟨⟨front, received, released, entries, files⟩, sizes, stage⟩
  | @send l more ok hpc =>
    rw [hpc] at stage
    obtain ⟨size, committed, requests, notified⟩ := stage
    cases ok with
    | true =>
      refine ⟨⟨front, received, released, by simpa [sendCommit] using entries, files⟩, ?_, rfl,
        d.batch, by simp [sendCommit, requests], committed, notified⟩
      simp only [sendCommit, if_true, List.mem_append, List.mem_singleton]
      rintro req (hreq | rfl)
      · exact sizes req hreq
      · exact size
    | false =>
      exact ⟨⟨front, received, released, entries, files⟩, sizes, requests ▸ List.prefix_rfl,
        notified ▸ List.prefix_rfl⟩
  | recvAck hpc => exact absurd hpc (quiet _ _)
  | notify hpc =>
    rw [hpc] at stage
    obtain ⟨batch, committed, requests, notified⟩ := stage
    exact ⟨⟨front, received, released, entries, files⟩, sizes, batch, committed, requests,
      by simpa using notified⟩
  | @notified l more hpc =>
    rw [hpc] at stage
    obtain ⟨batch, committed, requests, notified⟩ := stage
    rw [List.append_nil] at notified
    refine ⟨⟨front, received, released, entries, files⟩, sizes, ?_⟩
    cases more with
    | true => exact ⟨by simp [batch, commitBatchSize], by simp [batch, committed], requests,
        notified⟩
    | false =>
      cases l with
      | drainQualified => exact ⟨batch, committed, requests, notified⟩
      | flushAll => exact ⟨requests, notified⟩

end CommitDrainer

namespace DrainRun

structure Sound (s : DrainRun γ) (answered : List (List CommitEntry)) : Prop where
  committing : s.drainer.Committing s.win.isReleased answered
  orderly : s.drainer.Orderly
  flushing : s.drainer.pc.flushing = true → s.boundaryCh.buf = [] ∧ s.boundaryCh.closed = true

theorem start_sound (win : WindowSemaphore γ) : (start win).Sound [] where
  committing := ⟨⟨[], rfl, by simp, rfl, rfl⟩, by simp [start, CommitDrainer.new], rfl, rfl, rfl,
    rfl⟩
  orderly := ⟨rfl, rfl⟩
  flushing := fun h => by cases h

theorem Sound.drainer {s : DrainRun γ} {answered : List (List CommitEntry)} (hs : s.Sound answered)
    {e : DrainEvent} {d : CommitDrainer} {ch : Chan FileBoundary} {win : WindowSemaphore γ}
    (h : s.drainer.run maxWindow s.done s.boundaryCh s.win s.drainer.pc e = some (d, ch, win)) :
    Sound { s with drainer := d, boundaryCh := ch, win := win }
      (answered ++ s.answers (.drainer e)) := by
  have next := CommitDrainer.run_cases h
  refine ⟨?_, next.orderly hs.orderly, fun flushing => ?_⟩
  rotate_left
  · obtain ⟨empty, closed⟩ := (next.flushing flushing).elim id hs.flushing
    exact ⟨next.buf_nil empty, next.ledger.2.trans closed⟩
  by_cases awaited : ∃ l more, s.drainer.pc = .recvAck l more
  · obtain ⟨l, more, hpc⟩ := awaited
    obtain ⟨ok, rfl, rfl, rfl, rfl⟩ := CommitDrainer.run_recvAck hpc h
    have committing := hs.committing.recvAck hpc ok
    cases ok with
    | true =>
      have shown : s.answers (.drainer (.rpc true)) = s.drainer.requests.getLast?.toList := by
        simp [answers, hpc]
      rw [shown]
      exact committing
    | false => exact committing
  · have quiet : ∀ l more, s.drainer.pc ≠ .recvAck l more := fun l more hpc =>
      awaited ⟨l, more, hpc⟩
    have shown : s.answers (.drainer e) = [] := by
      unfold answers
      split
      · split
        · exact absurd ‹_› (quiet _ _)
        · rfl
      · rfl
    rw [shown, List.append_nil]
    exact CommitDrainer.Committing.step next hs.committing quiet

theorem Sound.step {s s' : DrainRun γ} {a : DrainAction} {answered : List (List CommitEntry)}
    (hs : s.Sound answered) (h : s.step maxWindow a = some s') :
    s'.Sound (answered ++ s.answers a) := by
  cases a with
  | cancel =>
    cases h
    simp only [answers, List.append_nil]
    exact ⟨hs.committing, hs.orderly, hs.flushing⟩
  | arrive | close =>
    simp only [DrainRun.step] at h
    split at h <;> cases h
    rename_i opened
    simp only [answers, List.append_nil]
    exact ⟨hs.committing, hs.orderly, fun flushing => absurd (hs.flushing flushing).2 opened⟩
  | release reqID =>
    cases h
    simp only [answers, List.append_nil]
    exact ⟨hs.committing.release reqID, hs.orderly, hs.flushing⟩
  | drainer e =>
    obtain ⟨⟨d, ch, win⟩, taken, rfl⟩ := Option.map_eq_some_iff.mp h
    exact hs.drainer taken

theorem reach_sound {win : WindowSemaphore γ} {p : DrainRun γ × List (List CommitEntry)}
    (h : Reach (record answers (step maxWindow)) (start win, []) p) : p.1.Sound p.2 := by
  refine h.invariant (P := fun p => p.1.Sound p.2) (start_sound win) fun p a p' _ hs next => ?_
  obtain ⟨taken, history⟩ := record_eq_some.mp next
  rw [history]
  exact hs.step taken

/-- The drainer commits every boundary once and in order. The first part holds at every
moment, so it also orders the events: a file is closed before its commit is sent, a commit
is sent when the last id is released, a path is handed on behind the response to its batch.
The second part is about a `Run` that returns nil. -/
theorem boundaries_committed_once (maxWindow : ℕ) (win : WindowSemaphore γ) (s : DrainRun γ)
    (answered : List (List CommitEntry))
    (h : Reach (record answers (step maxWindow)) (start win, []) (s, answered)) :
    ((∀ req ∈ s.drainer.requests, 1 ≤ req.length ∧ req.length ≤ commitBatchSize) ∧
      s.drainer.requests.flatten <+: s.drainer.received.map commitEntry ∧
      (∀ fb ∈ s.drainer.received.take s.drainer.requests.flatten.length,
        s.win.isReleased fb.lastReqID = true) ∧
      commitPaths s.drainer.requests <+: s.drainer.closedFiles ∧
      s.drainer.closedFiles <+: s.drainer.received.map (·.path) ∧
      answered <+: s.drainer.requests ∧ s.drainer.notified <+: commitPaths answered) ∧
    (s.drainer.pc = .exit none →
      s.boundaryCh.buf = [] ∧ s.boundaryCh.closed = true ∧
      s.drainer.requests.flatten = s.drainer.received.map commitEntry ∧
      s.drainer.closedFiles = s.drainer.received.map (·.path) ∧
      s.drainer.notified = s.drainer.received.map (·.path) ∧ answered = s.drainer.requests) := by
  have hs : s.Sound answered := reach_sound h
  obtain ⟨front, received, released, entries, files⟩ := hs.committing.front
  have paths : (s.drainer.requests.flatten ++ s.drainer.batch).map (·.path) = front.map
    (·.path) := by
    rw [entries, List.map_map]
    rfl
  obtain ⟨answers, notified⟩ := hs.committing.stage.failed
  refine ⟨⟨hs.committing.sizes, ?_, ?_, ?_, ?_, answers, notified⟩, fun returned => ?_⟩
  · rw [received, List.map_append, ← entries, List.append_assoc]
    exact List.prefix_append _ _
  · have le : s.drainer.requests.flatten.length ≤ front.length := by
      have := congrArg List.length entries
      simp only [List.length_append, List.length_map] at this
      omega
    intro fb hfb
    rw [received, List.take_append_of_le_length le] at hfb
    exact released fb (List.mem_of_mem_take hfb)
  · rw [files, ← paths, List.map_append]
    exact List.prefix_append _ _
  · rw [files, received, List.map_append]
    exact List.prefix_append _ _
  · obtain ⟨empty, closed⟩ := hs.flushing (by rw [returned]; rfl)
    have orderly := hs.orderly
    have stage := hs.committing.stage
    unfold CommitDrainer.Orderly at orderly
    rw [returned] at orderly stage
    obtain ⟨batch, -, pending⟩ := orderly
    obtain ⟨requests, notified⟩ := stage
    rw [pending, List.append_nil] at received
    rw [batch, List.append_nil] at entries
    refine ⟨empty, closed, by rw [entries, received], by rw [files, received], ?_, requests.symm⟩
    rw [notified, ← requests, commitPaths, entries, received, List.map_map]
    rfl

def twoBoundaries : List FileBoundary := [⟨goString "a", 0, 7⟩, ⟨goString "b", 5, 9⟩]

/-- The first file is committed by `drainQualified`, the second one by `flushAll`, which has
to wait for the last id. -/
def twoBoundariesSchedule : List DrainAction :=
  .release 0 :: twoBoundaries.map .arrive ++ repeats [(5, .drainer (.select .ready)),
    (2, .drainer (.rpc true)), (2, .drainer (.select .ready)), (1, .close),
    (2, .drainer (.select .ready)), (1, .release 1), (1, .release 2), (1, .release 3),
    (1, .release 4), (1, .release 5), (3, .drainer (.select .ready)), (2, .drainer (.rpc true)),
    (2, .drainer (.select .ready))]

theorem boundaries_committed_once_two : ∃ s : DrainRun Unit, s.drainer.pc = .exit none ∧
    s.drainer.received = twoBoundaries ∧
    s.drainer.requests = [[⟨goString "a", 7⟩], [⟨goString "b", 9⟩]] ∧
    s.drainer.notified = twoBoundaries.map (·.path) := by
  have run : ((exec (record answers (step 1))
      (start (WindowSemaphore.new 1 : WindowSemaphore Unit), []) twoBoundariesSchedule).any
      fun p => p.1.drainer.pc = .exit none ∧
        p.1.drainer.received = twoBoundaries ∧
        p.1.drainer.requests = [[⟨goString "a", 7⟩], [⟨goString "b", 9⟩]]) = true := by
    decide +kernel
  obtain ⟨⟨s, answered⟩, reached, hs⟩ := Reach.of_exec_any run
  simp only [decide_eq_true_eq] at hs
  obtain ⟨returned, received, requests⟩ := hs
  obtain ⟨-, -, -, -, notified, -⟩ :=
    (boundaries_committed_once 1 _ s answered reached).2 returned
  exact ⟨s, returned, received, requests, received ▸ notified⟩

end DrainRun

end CephVolsync.CephFs
