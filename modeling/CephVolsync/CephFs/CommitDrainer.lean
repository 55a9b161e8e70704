import CephVolsync.CephFs.BlockIterator

/-! The commit drainer of the CephFS source (`internal/worker/cephfs/commit_drainer.go`). It
receives file boundaries and sends a commit for a file once the window semaphore reports
the file's last request id as released.

One step is a channel operation, a look at the window or one message of the commit stream.
`drainQualified` and `flushAll` share their batching; they differ in the test on the head
of `pending` and in what happens when it fails. -/

namespace CephVolsync.CephFs

open Pipeline

def commitBatchSize : ℕ := 1000

structure CommitEntry where
  path : GoString
  totalSize : ℕ
  deriving DecidableEq, Repr

def commitEntry (fb : FileBoundary) : CommitEntry := ⟨fb.path, uint64 fb.totalSize⟩

inductive DrainErr where
  | ctx
  | sendCommit
  | recvCommitAck
  deriving DecidableEq, Repr

inductive DrainLoop where
  | drainQualified
  | flushAll
  deriving DecidableEq, Repr

/-- Where the drainer stands. `loop` is the head of the loop over `pending` and `wait` the
select of `flushAll`; `more` says that a batch was sent because it is full, so that the
loop goes on behind it. -/
inductive DrainerPC where
  | recv
  | loop (l : DrainLoop)
  | wait
  | send (l : DrainLoop) (more : Bool)
  | recvAck (l : DrainLoop) (more : Bool)
  | notify (todo : List GoString) (l : DrainLoop) (more : Bool)
  | exit (err : Option DrainErr)
  deriving DecidableEq, Repr

/-- The drainer's variables, and the history of what it received, sent and closed. -/
structure CommitDrainer where
  pc : DrainerPC
  pending : List FileBoundary
  currentReqID : ℕ
  batch : List CommitEntry
  committed : List GoString
  received : List FileBoundary
  requests : List (List CommitEntry)
  closedFiles : List GoString
  notified : List GoString
  deriving DecidableEq, Repr

inductive DrainEvent where
  | select (b : Branch)
  | rpc (ok : Bool)
  deriving DecidableEq, Repr

namespace CommitDrainer

def new : CommitDrainer := ⟨.recv, [], 0, [], [], [], [], [], []⟩

def receive (d : CommitDrainer) (fb : FileBoundary) : CommitDrainer :=
  { d with
    pc := .loop .drainQualified
    currentReqID := fb.lastReqID
    pending := d.pending ++ [fb]
    received := d.received ++ [fb] }

def take (d : CommitDrainer) (l : DrainLoop) (head : FileBoundary) (rest : List FileBoundary) :
    CommitDrainer :=
  let batch := d.batch ++ [commitEntry head]
  { d with
    pc := if batch.length ≥ commitBatchSize then .send l true else .loop l
    pending := rest
    batch := batch
    committed := d.committed ++ [head.path]
    closedFiles := d.closedFiles ++ [head.path] }

def leave : DrainLoop → DrainerPC
  | .drainQualified => .recv
  | .flushAll => .exit none

def finish (d : CommitDrainer) (l : DrainLoop) : CommitDrainer :=
  { d with pc := if d.batch.length = 0 then leave l else .send l false }

/-- The tests that `drainQualified` makes on the head of `pending`. -/
def qualified (maxWindow : ℕ) (isReleased : ℕ → Bool) (d : CommitDrainer)
    (head : FileBoundary) : Bool :=
  ¬ d.currentReqID < head.lastReqID + maxWindow + 2 ∧ isReleased head.lastReqID

/-- One look at `pending` in the loop of `drainQualified` or `flushAll`. -/
def turn (maxWindow : ℕ) (isReleased : ℕ → Bool) (d : CommitDrainer) :
    DrainLoop → List FileBoundary → CommitDrainer
  | l, [] => d.finish l
  | .drainQualified, head :: rest =>
    if d.qualified maxWindow isReleased head then d.take .drainQualified head rest
    else d.finish .drainQualified
  | .flushAll, head :: rest =>
    if isReleased head.lastReqID then d.take .flushAll head rest else { d with pc := .wait }

def sendCommit (d : CommitDrainer) (l : DrainLoop) (more ok : Bool) : CommitDrainer :=
  if ok then { d with pc := .recvAck l more, batch := [], requests := d.requests ++ [d.batch] }
  else { d with pc := .exit (some .sendCommit) }

def recvCommit (d : CommitDrainer) (l : DrainLoop) (more ok : Bool) : CommitDrainer :=
  if ok then { d with pc := .notify d.committed l more, committed := [] }
  else { d with pc := .exit (some .recvCommitAck) }

/-- One step of the drainer on `boundaryCh` and the window; `done` is its context. -/
def run {γ : Type} (maxWindow : ℕ) (done : Bool) (d : CommitDrainer)
    (boundaryCh : Chan FileBoundary) (win : WindowSemaphore γ) :
    DrainerPC → DrainEvent → Option (CommitDrainer × Chan FileBoundary × WindowSemaphore γ)
  | .recv, .select .ready =>
    match boundaryCh.buf with
    | fb :: rest => some (d.receive fb, { boundaryCh with buf := rest }, win)
    | [] => if boundaryCh.closed then some ({ d with pc := .loop .flushAll }, boundaryCh, win) else
        none
  | .recv, .select .ctxDone =>
    if done then some ({ d with pc := .exit (some .ctx) }, boundaryCh, win) else none
  | .loop l, .select .ready => some (d.turn maxWindow win.isReleased l d.pending, boundaryCh, win)
  | .wait, .select .ready =>
    if win.releaseCh then some ({ d with pc := .loop .flushAll }, boundaryCh, win.takeRelease) else
      none
  | .wait, .select .ctxDone =>
    if done then some ({ d with pc := .exit (some .ctx) }, boundaryCh, win) else none
  | .send l more, .rpc ok => some (d.sendCommit l more ok, boundaryCh, win)
  | .recvAck l more, .rpc ok => some (d.recvCommit l more ok, boundaryCh, win)
  | .notify (p :: todo) l more, .select .ready =>
    some ({ d with pc := .notify todo l more, notified := d.notified ++ [p] }, boundaryCh, win)
  | .notify (_ :: _) _ _, .select .ctxDone =>
    if done then some ({ d with pc := .exit (some .ctx) }, boundaryCh, win) else none
  | .notify [] l more, .select .ready =>
    some ({ d with pc := if more then .loop l else leave l }, boundaryCh, win)
  | _, _ => none

end CommitDrainer

inductive DrainStep {γ : Type} (maxWindow : ℕ) (done : Bool) (d : CommitDrainer)
    (ch : Chan FileBoundary) (win : WindowSemaphore γ) :
    CommitDrainer → Chan FileBoundary → WindowSemaphore γ → Prop
  | receive {fb : FileBoundary} {rest : List FileBoundary} : d.pc = .recv → ch.buf = fb :: rest →
      DrainStep maxWindow done d ch win (d.receive fb) { ch with buf := rest } win
  | closed : d.pc = .recv → ch.buf = [] → ch.closed = true →
      DrainStep maxWindow done d ch win { d with pc := .loop .flushAll } ch win
  | done : done = true → DrainStep maxWindow done d ch win { d with pc := .exit (some .ctx) } ch win
  | take {l : DrainLoop} {head : FileBoundary} {rest : List FileBoundary} : d.pc = .loop l →
      d.pending = head :: rest → win.isReleased head.lastReqID = true →
      DrainStep maxWindow done d ch win (d.take l head rest) ch win
  | finish {l : DrainLoop} : d.pc = .loop l → (l = .flushAll → d.pending = []) →
      DrainStep maxWindow done d ch win (d.finish l) ch win
  | sleep : d.pc = .loop .flushAll → DrainStep maxWindow done d ch win { d with pc := .wait } ch win
  | wake : d.pc = .wait → win.releaseCh = true →
      DrainStep maxWindow done d ch win { d with pc := .loop .flushAll } ch win.takeRelease
  | send {l : DrainLoop} {more ok : Bool} : d.pc = .send l more →
      DrainStep maxWindow done d ch win (d.sendCommit l more ok) ch win
  | recvAck {l : DrainLoop} {more ok : Bool} : d.pc = .recvAck l more →
      DrainStep maxWindow done d ch win (d.recvCommit l more ok) ch win
  | notify {p : GoString} {todo : List GoString} {l : DrainLoop} {more : Bool} :
      d.pc = .notify (p :: todo) l more →
      DrainStep maxWindow done d ch win
        { d with pc := .notify todo l more, notified := d.notified ++ [p] } ch win
  | notified {l : DrainLoop} {more : Bool} : d.pc = .notify [] l more →
      DrainStep maxWindow done d ch win
        { d with pc := if more then .loop l else CommitDrainer.leave l } ch win

theorem CommitDrainer.run_cases {γ : Type} {maxWindow : ℕ} {done : Bool} {d d' : CommitDrainer}
    {ch ch' : Chan FileBoundary} {win win' : WindowSemaphore γ} {e : DrainEvent}
    (h : d.run maxWindow done ch win d.pc e = some (d', ch', win')) :
    DrainStep maxWindow done d ch win d' ch' win' := by
  have looked : ∀ l, d.pc = .loop l →
      DrainStep maxWindow done d ch win (d.turn maxWindow win.isReleased l d.pending) ch win := by
    intro l hpc
    cases hp : d.pending with
    | nil => cases l <;> exact .finish hpc fun _ => hp
    | cons head rest =>
      cases l with
      | drainQualified =>
        simp only [CommitDrainer.turn]
        split
        · rename_i hq
          exact .take hpc hp (by simpa [CommitDrainer.qualified] using (of_decide_eq_true hq).2)
        · exact .finish hpc (by simp)
      | flushAll =>
        simp only [CommitDrainer.turn]
        split
        · exact .take hpc hp ‹_›
        · exact .sleep hpc
  cases hpc : d.pc with
  | recv =>
    rcases e with (_ | _) | _ <;> rw [hpc] at h <;> simp only [CommitDrainer.run, reduceCtorEq] at h
    · split at h
      · cases h; exact .receive hpc ‹_›
      · split at h <;> cases h
        exact .closed hpc ‹_› ‹_›
    · split at h <;> cases h
      exact .done ‹_›
  | loop l =>
    rcases e with (_ | _) | _ <;> rw [hpc] at h <;> simp only [CommitDrainer.run, reduceCtorEq] at h
    cases h
    exact looked l hpc
  | wait =>
    rcases e with (_ | _) | _ <;> rw [hpc] at h <;> simp only [CommitDrainer.run, reduceCtorEq] at h
    · split at h <;> cases h
      exact .wake hpc ‹_›
    · split at h <;> cases h
      exact .done ‹_›
  | send l more =>
    rcases e with (_ | _) | _ <;> rw [hpc] at h <;> simp only [CommitDrainer.run, reduceCtorEq] at h
    cases h
    exact .send hpc
  | recvAck l more =>
    rcases e with (_ | _) | _ <;> rw [hpc] at h <;> simp only [CommitDrainer.run, reduceCtorEq] at h
    cases h
    exact .recvAck hpc
  | notify todo l more =>
    cases todo <;> rcases e with (_ | _) | _ <;> rw [hpc] at h <;>
      simp only [CommitDrainer.run, reduceCtorEq] at h
    · cases h; exact .notified hpc
    · cases h; exact .notify hpc
    · split at h <;> cases h
      exact .done ‹_›
  | exit err =>
    rcases e with (_ | _) | _ <;> rw [hpc] at h <;> simp only [CommitDrainer.run, reduceCtorEq] at h

/-- The drainer has left its receive loop because the channel was closed and empty. -/
def DrainerPC.flushing : DrainerPC → Bool
  | .loop .flushAll | .wait | .send .flushAll _ | .recvAck .flushAll _ | .notify _ .flushAll _ =>
      true
  | .exit none => true
  | _ => false

def DrainerPC.todo : DrainerPC → List GoString
  | .notify todo _ _ => todo
  | _ => []

namespace CommitDrainer

/-- Every boundary received is in one place on its way to the commit stream, and, unless the
drainer has failed, its path in one place on its way to `committedCh`. -/
structure Balanced (d : CommitDrainer) : Prop where
  pending : d.pending <:+ d.received
  entries : d.requests.flatten ++ d.batch ++ d.pending.map commitEntry = d.received.map commitEntry
  paths : (∀ err, d.pc ≠ .exit (some err)) →
    d.notified ++ d.pc.todo ++ d.committed ++ d.pending.map (·.path) = d.received.map (·.path)

/-- What the drainer's variables hold between the parts of its loops. -/
def OrderlyAt (d : CommitDrainer) : DrainerPC → Prop
  | .recv => d.batch = [] ∧ d.committed = []
  | .loop _ | .wait => d.batch.length = d.committed.length
  | .send l more => l = .flushAll → more = false → d.pending = []
  | .recvAck l more => d.batch = [] ∧ (l = .flushAll → more = false → d.pending = [])
  | .notify _ l more =>
    d.batch = [] ∧ d.committed = [] ∧ (l = .flushAll → more = false → d.pending = [])
  | .exit none => d.batch = [] ∧ d.committed = [] ∧ d.pending = []
  | .exit (some _) => True

def Orderly (d : CommitDrainer) : Prop := d.OrderlyAt d.pc

end CommitDrainer

section Steps

variable {γ : Type} {maxWindow : ℕ} {done : Bool} {d d' : CommitDrainer}
  {ch ch' : Chan FileBoundary} {win win' : WindowSemaphore γ}

theorem DrainStep.balanced (h : DrainStep maxWindow done d ch win d' ch' win') (hd : d.Balanced) :
    d'.Balanced := by
  obtain ⟨pending, entries, paths⟩ := hd
  cases h with
  | receive hpc =>
    have paths := paths (by simp [hpc])
    simp only [hpc, DrainerPC.todo] at paths
    refine ⟨?_, ?_, fun _ => ?_⟩
    · obtain ⟨before, hb⟩ := pending
      exact ⟨before, by simp [CommitDrainer.receive, ← hb]⟩
    · simp [CommitDrainer.receive, ← entries]
    · simp [CommitDrainer.receive, DrainerPC.todo, ← paths]
  | done => exact ⟨pending, entries, fun hne => absurd rfl (hne _)⟩
  | @take l head rest hpc hp =>
    have paths := paths (by simp [hpc])
    simp only [hpc, hp, DrainerPC.todo] at entries paths
    have todo : (d.take l head rest).pc.todo = [] := by
      simp only [CommitDrainer.take]
      split <;> rfl
    refine ⟨(List.suffix_cons head rest).trans (hp ▸ pending), ?_, fun _ => ?_⟩
    · simp [CommitDrainer.take, ← entries]
    · rw [todo]
      simp [CommitDrainer.take, ← paths]
  | @finish l hpc =>
    have paths := paths (by simp [hpc])
    simp only [hpc, DrainerPC.todo] at paths
    have todo : (d.finish l).pc.todo = [] := by
      cases l <;> simp only [CommitDrainer.finish, CommitDrainer.leave] <;> split <;> rfl
    refine ⟨pending, entries, fun _ => ?_⟩
    rw [todo]
    exact paths
  | @send l more ok hpc =>
    have paths := paths (by simp [hpc])
    simp only [hpc, DrainerPC.todo] at paths
    cases ok with
    | true =>
      refine ⟨pending, ?_, fun _ => paths⟩
      simp [CommitDrainer.sendCommit, ← entries]
    | false => exact ⟨pending, entries, fun hne => absurd rfl (hne _)⟩
  | @recvAck l more ok hpc =>
    have paths := paths (by simp [hpc])
    simp only [hpc, DrainerPC.todo] at paths
    cases ok with
    | true =>
      refine ⟨pending, entries, fun _ => ?_⟩
      simpa [CommitDrainer.recvCommit, DrainerPC.todo] using paths
    | false => exact ⟨pending, entries, fun hne => absurd rfl (hne _)⟩
  | notify hpc =>
    have paths := paths (by simp [hpc])
    refine ⟨pending, entries, fun _ => ?_⟩
    rw [← paths, hpc]
    simp [DrainerPC.todo]
  | @notified l more hpc =>
    have paths := paths (by simp [hpc])
    refine ⟨pending, entries, fun _ => ?_⟩
    rw [← paths, hpc]
    cases l <;> cases more <;> rfl
  | closed hpc | sleep hpc | wake hpc =>
    refine ⟨pending, entries, fun _ => ?_⟩
    rw [← paths (by simp [hpc]), hpc]
    rfl

theorem DrainStep.orderly (h : DrainStep maxWindow done d ch win d' ch' win') (hd : d.Orderly) :
    d'.Orderly := by
  unfold CommitDrainer.Orderly at hd ⊢
  cases h with
  | receive hpc => simp_all [CommitDrainer.OrderlyAt, CommitDrainer.receive]
  | done => trivial
  | @take l head rest hpc hp =>
    rw [hpc] at hd
    simp only [CommitDrainer.OrderlyAt] at hd
    simp only [CommitDrainer.take]
    split <;> simp [CommitDrainer.OrderlyAt, hd]
  | @finish l hpc hl =>
    rw [hpc] at hd
    simp only [CommitDrainer.OrderlyAt] at hd
    simp only [CommitDrainer.finish]
    split
    · rename_i hb
      have hc : d.committed = [] := List.eq_nil_of_length_eq_zero (hd ▸ hb)
      cases l with
      | drainQualified => exact ⟨List.eq_nil_of_length_eq_zero hb, hc⟩
      | flushAll => exact ⟨List.eq_nil_of_length_eq_zero hb, hc, hl rfl⟩
    · exact fun hfl _ => hl hfl
  | @send l more ok hpc => cases ok <;> simp_all [CommitDrainer.OrderlyAt, CommitDrainer.sendCommit]
  | @recvAck l more ok hpc => cases ok <;>
      simp_all [CommitDrainer.OrderlyAt, CommitDrainer.recvCommit]
  | @notified l more hpc =>
    cases l <;> cases more <;> simp_all [CommitDrainer.OrderlyAt, CommitDrainer.leave]
  | closed hpc | sleep hpc | wake hpc | notify hpc => simp_all [CommitDrainer.OrderlyAt]

theorem DrainStep.ledger
    (h : DrainStep maxWindow done d ch win d' ch' win') :
    d'.received ++ ch'.buf = d.received ++ ch.buf ∧ ch'.closed = ch.closed := by
  cases h with
  | receive _ hb => simp [CommitDrainer.receive, hb]
  | @send l more ok => cases ok <;> exact ⟨rfl, rfl⟩
  | @recvAck l more ok => cases ok <;> exact ⟨rfl, rfl⟩
  | _ => exact ⟨rfl, rfl⟩

theorem DrainStep.buf_nil
    (h : DrainStep maxWindow done d ch win d' ch' win') (hb : ch.buf = []) : ch'.buf = [] := by
  cases h with
  | receive _ hne => simp [hb] at hne
  | _ => exact hb

theorem DrainStep.flushing
    (h : DrainStep maxWindow done d ch win d' ch' win') (hf : d'.pc.flushing = true) :
    (ch.buf = [] ∧ ch.closed = true) ∨ d.pc.flushing = true := by
  cases h with
  | closed _ hb hc => exact .inl ⟨hb, hc⟩
  | receive | done => simp [CommitDrainer.receive, DrainerPC.flushing] at hf
  | @take l head rest hpc =>
    cases l <;> simp only [CommitDrainer.take] at hf <;> split at hf <;>
      simp_all [DrainerPC.flushing]
  | @finish l hpc =>
    cases l <;> simp only [CommitDrainer.finish, CommitDrainer.leave] at hf <;> split at hf <;>
      simp_all [DrainerPC.flushing]
  | @send l more ok hpc =>
    cases l <;> cases ok <;> simp_all [CommitDrainer.sendCommit, DrainerPC.flushing]
  | @recvAck l more ok hpc =>
    cases l <;> cases ok <;> simp_all [CommitDrainer.recvCommit, DrainerPC.flushing]
  | @notify p todo l more hpc => cases l <;> simp_all [DrainerPC.flushing]
  | @notified l more hpc => cases l <;> cases more <;>
      simp_all [DrainerPC.flushing, CommitDrainer.leave]
  | sleep hpc | wake hpc => simp [hpc, DrainerPC.flushing]

end Steps

end CephVolsync.CephFs
