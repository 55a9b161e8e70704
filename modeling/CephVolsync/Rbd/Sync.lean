import CephVolsync.Rbd.Replication

/-! `SourceWorker.Sync` of the RBD worker (`internal/worker/rbd/source.go`): the calls that
set the transfer up, the pipeline, the wait for acknowledgements, the commit and the Done
signal, with the deferred `iter.Close` whose result is discarded. -/

namespace CephVolsync.Rbd

open Extents Pipeline TransitionSystem

/-- The calls before the pipeline, in order; each error ends `Sync`. -/
inductive SetupCall where
  | resolveSourceConfig
  | resolveParentImage
  | newImage
  | getSize
  | newRBDBlockDiffIterator
  | openDevice
  | generateEphemeralCert
  | exchangeCerts
  | newClientTLSConfig
  | connectDirectTLS
  deriving DecidableEq, Repr

def setupCalls : List SetupCall :=
  [.resolveSourceConfig, .resolveParentImage, .newImage, .getSize, .newRBDBlockDiffIterator,
    .openDevice, .generateEphemeralCert, .exchangeCerts, .newClientTLSConfig, .connectDirectTLS]

inductive SyncCall where
  | setup (c : SetupCall)
  | openCommit
  | sendCommit
  | recvCommit
  | done
  deriving DecidableEq, Repr

inductive SyncErr where
  | call (c : SyncCall)
  | pipeline (err : Err)
  | waitingForAcks
  deriving DecidableEq, Repr

inductive SyncPC where
  | setup (todo : List SetupCall)
  | pipeline
  | waitAcks
  | openCommit
  | sendCommit
  | recvCommit
  | signalDone
  | returned (err : Option SyncErr)
  deriving DecidableEq, Repr

/-- `closeErr` is what the deferred `iter.Close` returned, none when no iterator was made. -/
structure Sync (R S : ℕ) where
  pc : SyncPC
  session : Session R S
  commitSent : Bool
  doneSent : Bool
  closeErr : Option Bool

inductive SyncAction (R S : ℕ) where
  | call (c : SyncCall) (ok : Bool)
  | run (a : SessionAction R S)
  | runReturned (failed : Bool)
  | poll
  deriving DecidableEq, Repr

variable {R S : ℕ}

def SyncPC.iteratorMade : SyncPC → Bool
  | .setup todo => .newRBDBlockDiffIterator ∉ todo
  | _ => true

/-- `Sync` returns: the deferred calls run and their results are dropped. -/
def Sync.ret (s : Sync R S) (err : Option SyncErr) : Sync R S :=
  { s with
    pc := .returned err
    closeErr := if s.pc.iteratorMade then some (s.session.adapter.iter.close false).1 else none }

def Sync.goto (s : Sync R S) (pc : SyncPC) : Sync R S := { s with pc := pc }

/-- The call `Sync` is in, and where it goes when the call succeeds. -/
def SyncPC.call : SyncPC → Option (SyncCall × SyncPC)
  | .setup [c] => some (.setup c, .pipeline)
  | .setup (c :: d :: todo) => some (.setup c, .setup (d :: todo))
  | .openCommit => some (.openCommit, .sendCommit)
  | .sendCommit => some (.sendCommit, .recvCommit)
  | .recvCommit => some (.recvCommit, .signalDone)
  | .signalDone => some (.done, .returned none)
  | _ => none

/-- The destination sees the request when `Send` or `Done` is called. -/
def Sync.note (s : Sync R S) : SyncCall → Sync R S
  | .sendCommit => { s with commitSent := true }
  | .done => { s with doneSent := true }
  | _ => s

def Sync.afterCall (s : Sync R S) (c : SyncCall) (next : SyncPC) (ok : Bool) : Sync R S :=
  if ok then
    match next with
    | .returned err => (s.note c).ret err
    | pc => (s.note c).goto pc
  else (s.note c).ret (some (.call c))

def syncStep (cfg : Config) (src : Content) (size : ℕ) (s : Sync R S) :
    SyncAction R S → Option (Sync R S)
  | .call c ok =>
    match s.pc.call with
    | some (c', next) => if c = c' then some (s.afterCall c next ok) else none
    | none => none
  | .run a =>
    if s.pc = .pipeline ∨ a.act = .cancel then
      (sessionStep cfg src size s.session a).map fun t => { s with session := t }
    else none
  | .runReturned failed =>
    if s.pc = .pipeline ∧ s.session.pipe.returned ∧ failed = s.session.pipe.runErr.isSome then
      match s.session.pipe.runErr with
      | some err => some (s.ret (some (.pipeline err)))
      | none => some (s.goto (if s.session.adapter.reqID = 0 then .signalDone else .waitAcks))
    else none
  | .poll =>
    match s.pc with
    | .waitAcks =>
      if s.session.pipe.shared.win.isReleased (s.session.adapter.reqID - 1) then
        some (s.goto .openCommit)
      else if s.session.pipe.ctxDone then some (s.ret (some .waitingForAcks))
      else some s
    | _ => none

def syncInit (cfg : Config) (R S : ℕ) (size : ℕ) (full : Bool) (diff : RBDBlockDiffIterator)
    (dst : Content) : Sync R S :=
  ⟨.setup setupCalls, sessionInit cfg R S size full diff dst, false, false, none⟩

def syncConfig : Config :=
  Config.setDefaults { Config.zero with readWorkers := 16, maxWindow := 256 }

/-- A call before the commit request fails, or some goroutine of the pipeline gives up. -/
def obstructs (s : Sync R S) : SyncAction R S → Bool
  | .call (.setup _) ok | .call .openCommit ok => !ok
  | .run a => s.session.pipe.givesUp a.act
  | _ => false

def obstructions (s : Sync R S) (a : SyncAction R S) : List (SyncAction R S) :=
  if obstructs s a then [a] else []

variable {cfg : Config} {src dst : Content} {size : ℕ} {full : Bool} {diff : RBDBlockDiffIterator}

theorem RbdIterAdapter.loadLoop_reqID (a : RbdIterAdapter) (bs : List Extent) :
    (a.loadLoop bs).2.reqID = a.reqID := by
  induction bs generalizing a with
  | nil =>
    simp only [loadLoop]
    split_ifs <;> rfl
  | cons e rest ih =>
    simp only [loadLoop]
    split_ifs <;> first | rfl | exact ih _

theorem RbdIterAdapter.next_reqID (a : RbdIterAdapter) :
    (∀ b ∈ a.next.1, b.reqID = a.reqID) ∧
      a.next.2.reqID = a.reqID + if a.next.1.isSome then 1 else 0 := by
  have load : a.loadNext.2.reqID = a.reqID := by
    unfold loadNext
    split
    · rfl
    · exact a.loadLoop_reqID a.iter.blocks
  unfold next
  split
  · simp [emitFromRemainder]
  · cases hl : a.loadNext.1
    · simp [hl, load]
    · simp [hl, emitFromRemainder, load]

theorem session_numbered {s : Session R S}
    (h : Reach (sessionStep cfg src size) (sessionInit cfg R S size full diff dst) s) :
    Numbered s.pipe.log.fed ∧ s.adapter.reqID = s.pipe.log.fed.length := by
  refine h.invariant (P := fun s : Session R S => Numbered s.pipe.log.fed ∧
    s.adapter.reqID = s.pipe.log.fed.length) ?_ ?_
  · exact ⟨rfl, rfl⟩
  rintro s a s' - ⟨numbered, reqID⟩ next
  unfold sessionStep at next
  split at next
  case isFalse => cases next
  rename_i answers
  obtain ⟨p, hp, rfl⟩ := Option.map_eq_some_iff.mp next
  obtain ⟨ids, count⟩ := s.adapter.next_reqID
  rcases step_fed hp with ⟨b, hact, fed, -⟩ | ⟨hact, fed, -⟩ | ⟨hact, fed, -⟩
  · rw [hact] at answers
    simp only [Session.answers, decide_eq_true_eq] at answers
    rw [← answers] at ids count
    simp only [fed, hact, Session.nextAdapter]
    refine ⟨numbered.concat ((ids b rfl).trans reqID), ?_⟩
    simp [count, reqID]
  · rw [hact] at answers
    simp only [Session.answers, decide_eq_true_eq] at answers
    rw [← answers] at count
    simp only [fed, hact, Session.nextAdapter]
    exact ⟨numbered, by simpa [reqID] using count⟩
  · have adapter : s.nextAdapter a.act = s.adapter := by
      cases hb : a.act with
      | iterNext b => exact absurd hb (hact b)
      | _ => rfl
    simp only [fed, adapter]
    exact ⟨numbered, reqID⟩

theorem sync_session {s : Sync R S}
    (h : Reach (syncStep cfg src size) (syncInit cfg R S size full diff dst) s) :
    Reach (sessionStep cfg src size) (sessionInit cfg R S size full diff dst) s.session := by
  have session : ∀ (s : Sync R S) c next ok, (s.afterCall c next ok).session = s.session := by
    intro s c next ok
    cases c <;> cases ok <;> cases next <;> rfl
  refine h.simulate Sync.session fun s a s' hs => ?_
  cases a with
  | call c ok =>
    simp only [syncStep] at hs
    split at hs
    · split at hs <;> cases hs
      rw [session]
      exact .refl
    · cases hs
  | run a =>
    simp only [syncStep] at hs
    split at hs
    · obtain ⟨t, ht, rfl⟩ := Option.map_eq_some_iff.mp hs
      exact .single ht
    · cases hs
  | runReturned failed =>
    simp only [syncStep] at hs
    split at hs
    · split at hs <;> cases hs <;> exact .refl
    · cases hs
  | poll =>
    simp only [syncStep] at hs
    split at hs
    · split_ifs at hs <;> cases hs <;> exact .refl
    · cases hs

def SyncPC.transferred : SyncPC → Bool
  | .waitAcks | .openCommit | .sendCommit | .recvCommit | .signalDone => true
  | _ => false

theorem SyncPC.call_transferred {pc next : SyncPC} {c : SyncCall} (h : pc.call = some (c, next))
    (ht : next.transferred = true) : pc.transferred = true := by
  unfold SyncPC.call at h
  split at h <;> cases h <;> first | rfl | simp [SyncPC.transferred] at ht

theorem sync_succeeded {s : Sync R S}
    (h : Reach (syncStep cfg src size) (syncInit cfg R S size full diff dst) s) :
    s.pc.transferred = true → s.session.pipe.Succeeded := by
  refine h.invariant (P := fun s : Sync R S => s.pc.transferred = true → s.session.pipe.Succeeded)
    (by simp [syncInit, SyncPC.transferred]) ?_
  intro s a s' _ ih hs ht
  cases a with
  | call c ok =>
    simp only [syncStep] at hs
    split at hs
    · rename_i c' next hcall
      split at hs <;> cases hs
      cases ok with
      | false => cases c <;> simp [Sync.afterCall, Sync.note, Sync.ret, SyncPC.transferred] at ht
      | true =>
        have back : next.transferred = true → s.session.pipe.Succeeded := fun hn =>
          ih (SyncPC.call_transferred hcall hn)
        cases c <;> cases next <;> exact back ht
    · cases hs
  | run a =>
    simp only [syncStep] at hs
    split at hs
    · rename_i hc
      obtain ⟨t, hstep, rfl⟩ := Option.map_eq_some_iff.mp hs
      rcases hc with hp | hc
      · simp [hp, SyncPC.transferred] at ht
      · simp only [sessionStep, hc, Session.answers, if_true] at hstep
        cases hstep
        exact ih ht
    · cases hs
  | runReturned failed =>
    simp only [syncStep] at hs
    split at hs
    · rename_i hc
      split at hs <;> cases hs
      · simp [Sync.ret, SyncPC.transferred] at ht
      · exact ⟨hc.2.1, ‹_›⟩
    · cases hs
  | poll =>
    simp only [syncStep] at hs
    split at hs
    · rename_i hp
      split_ifs at hs <;> cases hs
      · exact ih (by rw [hp]; rfl)
      · simp [Sync.ret, SyncPC.transferred] at ht
      · exact ih ht
    · cases hs

theorem sync_acks_released (hR : 0 < R) (hS : 0 < S) (hw : 0 < cfg.maxWindow) {s : Sync R S}
    (h : Reach (syncStep cfg src size) (syncInit cfg R S size full diff dst) s)
    (hp : s.pc = .waitAcks) (hid : 0 < s.session.adapter.reqID) :
    s.session.pipe.shared.win.isReleased (s.session.adapter.reqID - 1) = true := by
  have session := sync_session h
  obtain ⟨numbered, reqID⟩ := session_numbered session
  have nil := sync_succeeded h (by rw [hp]; rfl)
  exact nil.released (session_reach session) hR hS hw numbered _ (by omega)

/-- What `Sync` has told the destination, given the steps that obstructed it. -/
def Sync.Reported (p : Sync R S × List (SyncAction R S)) : Prop :=
  match p.1.pc with
  | .setup _ =>
    p.2 = [] ∧ p.1.commitSent = false ∧ p.1.doneSent = false ∧ ¬ p.1.session.pipe.Failed
  | .pipeline =>
    p.1.commitSent = false ∧ p.1.doneSent = false ∧ (p.1.session.pipe.Failed ↔ p.2 ≠ [])
  | .waitAcks =>
    p.2 = [] ∧ p.1.commitSent = false ∧ p.1.doneSent = false ∧ 0 < p.1.session.adapter.reqID
  | .openCommit | .sendCommit => p.2 = [] ∧ p.1.commitSent = false ∧ p.1.doneSent = false
  | .recvCommit => p.2 = [] ∧ p.1.commitSent = true ∧ p.1.doneSent = false
  | .signalDone => p.2 = [] ∧ p.1.doneSent = false
  | .returned err =>
    (p.2 ≠ [] ∧ err ≠ none ∧ p.1.commitSent = false ∧ p.1.doneSent = false) ∨
      (p.2 = [] ∧ (p.1.commitSent = true ∨ p.1.doneSent = true))

theorem Sync.Reported.call {s : Sync R S} {hist : List (SyncAction R S)} {ok : Bool}
    {c : SyncCall} {next : SyncPC} (hs : Sync.Reported (s, hist))
    (h : s.pc.call = some (c, next)) :
    Sync.Reported (s.afterCall c next ok, hist ++ obstructions s (.call c ok)) := by
  unfold SyncPC.call at h
  split at h <;> cases h <;> rename_i hp <;>
    simp only [Sync.Reported, hp] at hs <;> cases ok <;>
    simp [Sync.Reported, Sync.afterCall, Sync.note, Sync.ret, Sync.goto, obstructions, obstructs,
      hs]

theorem Sync.Reported.run {s : Sync R S} {hist : List (SyncAction R S)} {t : Session R S}
    {a : SessionAction R S} (hs : Sync.Reported (s, hist))
    (allowed : s.pc = .pipeline ∨ a.act = .cancel)
    (next : sessionStep cfg src size s.session a = some t) :
    Sync.Reported ({ s with session := t }, hist ++ obstructions s (.run a)) := by
  obtain ⟨p, taken, rfl⟩ : ∃ p, step cfg s.session.pipe a.act = some p ∧ t =
      ⟨p, s.session.nextAdapter a.act,
        (s.session.pipe.writes a.act).foldl (writeBlock a.ioctl) s.session.device⟩ := by
    unfold sessionStep at next
    split at next
    · obtain ⟨p, taken, eq⟩ := Option.map_eq_some_iff.mp next
      exact ⟨p, taken, eq.symm⟩
    · cases next
  rcases allowed with hp | hc
  · have failed := (step_cases taken).failed
    simp only [Sync.Reported, hp] at hs ⊢
    rw [failed, hs.2.2, obstructions, obstructs]
    cases s.session.pipe.givesUp a.act <;> simp [hs]
  · rw [hc] at taken
    cases taken
    have same : hist ++ obstructions s (.run a) = hist := by
      simp [obstructions, obstructs, hc, State.givesUp]
    rw [same]
    simpa only [Sync.Reported, hc, Session.nextAdapter, State.Failed] using hs

theorem Sync.Reported.step (hR : 0 < R) (hS : 0 < S) (hw : 0 < cfg.maxWindow) {s s' : Sync R S}
    {hist : List (SyncAction R S)} {a : SyncAction R S}
    (h : Reach (syncStep cfg src size) (syncInit cfg R S size full diff dst) s)
    (hs : Sync.Reported (s, hist)) (next : syncStep cfg src size s a = some s') :
    Sync.Reported (s', hist ++ obstructions s a) := by
  cases a with
  | call c ok =>
    simp only [syncStep] at next
    split at next
    · rename_i c' after hcall
      split at next <;> cases next
      subst c'
      exact hs.call hcall
    · cases next
  | run a =>
    simp only [syncStep] at next
    split at next
    · obtain ⟨t, hstep, rfl⟩ := Option.map_eq_some_iff.mp next
      exact hs.run ‹_› hstep
    · cases next
  | runReturned failed =>
    simp only [syncStep] at next
    split at next
    · rename_i hc
      obtain ⟨hp, returned, rfl⟩ := hc
      simp only [Sync.Reported, hp] at hs
      obtain ⟨commit, done, failed⟩ := hs
      rw [State.returned_failed (session_reach (sync_session h)) returned] at failed
      have free : obstructions s (.runReturned s.session.pipe.runErr.isSome) = [] := rfl
      rw [free, List.append_nil]
      split at next <;> cases next
      · rename_i err herr
        have obstructed : hist ≠ [] := failed.mp (by simp [herr])
        simp [Sync.Reported, Sync.ret, obstructed, commit, done]
      · rename_i herr
        have free : hist = [] := by simpa [herr] using failed
        by_cases hid : s.session.adapter.reqID = 0
        · simp [Sync.Reported, Sync.goto, hid, free, done]
        · simp [Sync.Reported, Sync.goto, hid, free, commit, done, Nat.pos_of_ne_zero hid]
    · cases next
  | poll =>
    simp only [syncStep] at next
    split at next
    · rename_i hp
      simp only [Sync.Reported, hp] at hs
      rw [if_pos (sync_acks_released hR hS hw h hp hs.2.2.2)] at next
      cases next
      simp [Sync.Reported, Sync.goto, obstructions, obstructs, hs]
    · cases next

/-- A diff that ends with an error is kept from the destination exactly when something else
fails first: in a finished run `Sync` returns an error without a commit request and without
Done if and only if a call before the commit request failed or a goroutine of the pipeline gave
up. The error of the diff itself plays no part. -/
theorem failed_diff_reported_iff (size : ℕ) (src dst : Content) (full : Bool)
    (extents : List Extent) (s : Sync 16 8) (obstructing : List (SyncAction 16 8))
    (err : Option SyncErr)
    (reached : Reach (record obstructions (syncStep syncConfig src size))
      (syncInit syncConfig 16 8 size full ⟨extents, true⟩ dst, []) (s, obstructing))
    (hret : s.pc = .returned err) :
    (err ≠ none ∧ s.commitSent = false ∧ s.doneSent = false) ↔ obstructing ≠ [] := by
  have reported : Sync.Reported (s, obstructing) := by
    refine reached.invariant (P := Sync.Reported) ?_ fun p a p' before hs next => ?_
    · simp [Sync.Reported, syncInit, sessionInit, State.Failed, init, ReaderPC.tainted,
        SendWorker.failed, SendWorker.exitErr, SendWorker.init, SenderPC.failed]
    · obtain ⟨taken, history⟩ := record_eq_some.mp next
      have step := hs.step (by decide) (by decide) (by decide) before.of_record taken
      rw [← history] at step
      exact step
  simp only [Sync.Reported, hret] at reported
  rcases reported with ⟨ho, he, hc, hd⟩ | ⟨ho, hsent⟩
  · simp [ho, he, hc, hd]
  · rw [ho]
    simp only [ne_eq, not_true, iff_false, not_and]
    intro _ hc
    simpa [hc] using hsent

/-- The pipeline's part of an incremental diff that delivers one extent and then fails, when
the one `Send` fails too. -/
def failedSendRun : List (Action 16 8) :=
  List.flatten
    [repeats [(1, .iterNext (some ⟨devicePath, 0, 4, 0, 8, false⟩)), (1, .feeder .ready),
      (1, .iterNext none), (3, .reader 0 (.select .ready)),
      (1, .reader 0 (.data (some [255, 255, 255, 255]))), (1, .reader 0 (.select .ready))],
    (List.finRange 16).map fun r => .reader r (.select .ready),
    repeats [(1, .stageRead), (1, .worker 0 (.open true)), (2, .worker 0 (.sender .ready)),
      (1, .worker 0 (.send false)), (3, .worker 0 (.sender .ready)), (1, .worker 0 (.ack .ctxDone)),
      (1, .worker 0 .ret)],
    (List.finRange 8).tail.flatMap fun i => [.worker i (.open true), .worker i (.sender .ctxDone),
      .worker i (.sender .ready), .worker i (.ack .ctxDone), .worker i .ret],
    [.stageSend, .run]]

def failedSendSchedule : List (SyncAction 16 8) :=
  List.flatten
    [setupCalls.map fun c => .call (.setup c) true, failedSendRun.map fun a => .run ⟨a, true⟩,
    [.runReturned true]]

theorem failed_diff_reported_iff_failedSend : ∃ s : Sync 16 8,
    s.pc = .returned (some (.pipeline .send)) ∧ s.session.adapter.iterDone = true ∧
    s.session.adapter.reqID = 1 ∧ s.closeErr = some true ∧
    s.commitSent = false ∧ s.doneSent = false := by
  have run : ((exec (record obstructions (syncStep syncConfig (fun _ => 255) 8))
      (syncInit syncConfig 16 8 8 false ⟨[⟨0, 4⟩], true⟩ (fun _ => 0), []) failedSendSchedule).any
        fun p => (p.1.pc = .returned (some (.pipeline .send)) ∧
          p.1.session.adapter.iterDone = true ∧ p.1.session.adapter.reqID = 1 ∧
          p.1.closeErr = some true) ∧ p.2 ≠ []) = true := by
    decide +kernel
  obtain ⟨⟨s, obstructing⟩, reached, hs⟩ := Reach.of_exec_any run
  simp only [decide_eq_true_eq] at hs
  obtain ⟨⟨returned, ended, blocks, closed⟩, obstructed⟩ := hs
  have reported := (failed_diff_reported_iff 8 (fun _ => 255) (fun _ => 0) false [⟨0, 4⟩] s
    obstructing _ reached returned).mpr obstructed
  exact ⟨s, returned, ended, blocks, closed, reported.2⟩

/-- The pipeline's part of a full diff that fails before its first extent: the adapter turns
the whole volume into one zero block. -/
def failedDiffRun : List (Action 16 8) :=
  List.flatten
    [repeats [(1, .iterNext (some ⟨devicePath, 0, 8, 0, 8, true⟩)), (1, .feeder .ready),
      (1, .iterNext none), (3, .reader 0 (.select .ready))],
    (List.finRange 16).map fun r => .reader r (.select .ready),
    repeats [(1, .stageRead), (1, .worker 0 (.open true)), (2, .worker 0 (.sender .ready)),
      (1, .worker 0 (.send true)), (2, .worker 0 (.sender .ready)), (3, .worker 0 .handler),
      (3, .worker 0 (.ack .ready)), (1, .worker 0 .handler), (1, .worker 0 (.ack .ready)),
      (1, .worker 0 .ret)],
    (List.finRange 8).tail.flatMap fun i => [.worker i (.open true), .worker i (.sender .ready),
      .worker i .handler, .worker i (.ack .ready), .worker i .ret],
    [.stageSend, .run]]

def failedDiffSchedule : List (SyncAction 16 8) :=
  List.flatten
    [setupCalls.map fun c => .call (.setup c) true, failedDiffRun.map fun a => .run ⟨a, true⟩,
    [.runReturned false, .poll, .call .openCommit true, .call .sendCommit true,
      .call .recvCommit true, .call .done true]]

/-- `DiffIterateByID` fails at once; the destination is zeroed, committed and told Done, and
`Sync` returns nil although the deferred `iter.Close` has the error. -/
theorem failed_diff_committed :
    ∃ s : Sync 16 8, Reach (syncStep syncConfig (fun _ => 255) 8)
        (syncInit syncConfig 16 8 8 true ⟨[], true⟩ fun _ => 255) s ∧
      s.pc = .returned none ∧ s.commitSent = true ∧ s.doneSent = true ∧ s.closeErr = some true ∧
      s.session.device 0 = 0 := by
  have hrun : ((exec (syncStep syncConfig (fun _ => 255) 8)
      (syncInit syncConfig 16 8 8 true ⟨[], true⟩ fun _ => 255) failedDiffSchedule).any fun s =>
        s.pc = .returned none ∧ s.commitSent = true ∧ s.doneSent = true ∧ s.closeErr = some true ∧
          s.session.device 0 = 0) = true := by decide +kernel
  obtain ⟨s, reach, hs⟩ := Reach.of_exec_any hrun
  exact ⟨s, reach, by simpa using hs⟩

end CephVolsync.Rbd
