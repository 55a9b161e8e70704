import CephVolsync.CephFs.SyncMirror

/-! What a stateless sync has done when `runSnapdiffSync` returns. -/

namespace CephVolsync.CephFs

open BatchWorker Pipeline TransitionSystem

variable {R S W : ℕ}

namespace SyncSource

/-- The entries of a directory as the producer takes them; none stands for an error. -/
def dirListing (src : SyncSource) (dirPath : GoString) : List (Option Changed) :=
  match src.newSnapDiffIterator dirPath with
  | none => [none]
  | some diff => diff.entries.map (src.route dirPath) ++ if diff.readErr then [none] else []

def listing (src : SyncSource) (dirs : List GoString) : List (Option Changed) :=
  dirs.flatMap src.dirListing

/-- What the snapshot diffs of all directories ask for. -/
def changes (src : SyncSource) : List Changed := (src.listing src.dirs).reduceOption

def ahead (src : SyncSource) (walk : List GoString) : ProducerPC → List (Option Changed)
  | .range => src.listing walk
  | .check dirPath => src.listing (dirPath :: walk)
  | .read dirPath left readErr =>
    left.map (src.route dirPath) ++ (if readErr then [none] else []) ++ src.listing walk
  | .send c dirPath left readErr =>
    some c :: (left.map (src.route dirPath) ++ (if readErr then [none] else []) ++ src.listing walk)
  | .exit _ => []

end SyncSource

def ProducerPC.failed : ProducerPC → Bool
  | exit (some _) => true
  | _ => false

namespace StatelessSync

variable {src : SyncSource} {s s' : StatelessSync R S W}

/-- The producer goes through the listing from its front, and returns nil at its end only. -/
structure Listed (src : SyncSource) (s : StatelessSync R S W) : Prop where
  sofar : s.routed.map some <+: src.listing src.dirs
  whole : s.producer.failed = false →
    s.routed.map some ++ src.ahead s.walk s.producer = src.listing src.dirs
  walked : s.producer = .exit none → src.walkErr = false

theorem init_listed (src : SyncSource) (R S W : ℕ) : (statelessInit src R S W).Listed src :=
  ⟨List.nil_prefix, fun _ => rfl, by simp [statelessInit]⟩

end StatelessSync

theorem Produces.listed {src : SyncSource} {s s' : StatelessSync R S W} (h : Produces src s s')
    (hs : s.Listed src) : s'.Listed src := by
  -- a step that keeps the whole keeps the front
  have front {routed : List Changed} {rest : List (Option Changed)}
      (whole : routed.map some ++ rest = src.listing src.dirs) :
      routed.map some <+: src.listing src.dirs := ⟨rest, whole⟩
  cases h with
  | next at_ queue =>
    have whole := hs.whole (by rw [at_]; rfl)
    rw [at_, queue] at whole
    exact ⟨hs.sofar, fun _ => whole, by simp⟩
  | walked at_ queue fine =>
    have whole := hs.whole (by rw [at_]; rfl)
    rw [at_, queue] at whole
    exact ⟨hs.sofar, fun _ => whole, fun _ => fine⟩
  | failed err =>
    exact ⟨hs.sofar,
      by simp [StatelessSync.produced, StatelessSync.leaveGroup, ProducerPC.failed],
      by simp [StatelessSync.produced, StatelessSync.leaveGroup]⟩
  | @opened dirPath diff at_ opens =>
    have whole := hs.whole (by rw [at_]; rfl)
    refine ⟨hs.sofar, fun _ => ?_, by simp⟩
    rw [← whole, at_]
    simp [SyncSource.ahead, SyncSource.listing, SyncSource.dirListing, opens]
  | @route c dirPath entry left readErr at_ routes =>
    have whole := hs.whole (by rw [at_]; rfl)
    refine ⟨hs.sofar, fun _ => ?_, by simp⟩
    rw [← whole, at_]
    simp [SyncSource.ahead, routes]
  | @directory dirPath entry left readErr at_ routes =>
    have whole : (s.routed ++ [Changed.directory]).map some ++
        src.ahead s.walk (.read dirPath left readErr) = src.listing src.dirs := by
      rw [← hs.whole (by rw [at_]; rfl), at_]
      simp [SyncSource.ahead, routes]
    exact ⟨front whole, fun _ => whole, by simp⟩
  | @deliver c dirPath left readErr at_ =>
    have whole : (s.routed ++ [c]).map some ++
        src.ahead s.walk (.read dirPath left readErr) = src.listing src.dirs := by
      rw [← hs.whole (by rw [at_]; rfl), at_]
      simp [SyncSource.ahead]
    have walk : (s.delivered c).walk = s.walk := by cases c <;> rfl
    refine ⟨?_, fun _ => ?_, by simp⟩
    · rw [StatelessSync.delivered_routed]
      exact front whole
    · simp only [StatelessSync.delivered_routed, walk]
      exact whole
  | dirEnd at_ =>
    have whole := hs.whole (by rw [at_]; rfl)
    refine ⟨hs.sofar, fun _ => ?_, by simp⟩
    rw [← whole, at_]
    simp [SyncSource.ahead]

theorem StatelessStep.listed {src : SyncSource} {s s' : StatelessSync R S W}
    (h : StatelessStep src s s') (hs : s.Listed src) : s'.Listed src := by
  cases h with
  | produce next => exact next.listed hs
  | _ => exact ⟨hs.sofar, hs.whole, hs.walked⟩

theorem Produces.active {src : SyncSource} {s s' : StatelessSync R S W} (h : Produces src s s') :
    s.producer.exited = false := by
  cases h with
  | failed _ active => exact active
  | next at_ | walked at_ | opened at_ | route at_ | directory at_ | deliver at_ | dirEnd at_ =>
    rw [at_]; rfl

theorem StatelessStep.after_left {src : SyncSource} {s s' : StatelessSync R S W}
    (h : StatelessStep src s s') (hr : s.Reported) (left : s.allLeft = true) :
    s'.allLeft = true ∧ s'.groupErr = s.groupErr ∧ s'.dirChanged = s.dirChanged := by
  -- when all goroutines have left the group, only the caller and `runSnapdiffSync` go on
  have exits := left
  simp only [StatelessSync.allLeft, Bool.and_eq_true] at exits
  obtain ⟨⟨⟨⟨producer, blocks⟩, metaLeft⟩, specialLeft⟩, deletes⟩ := exits
  cases h with
  | produce next => rw [next.active] at producer; cases producer
  | peek at_ | peekEnd at_ | opened at_ | unopened at_ | blocks at_ | notify at_
    | blocksReturn at_ => rw [at_] at blocks; cases blocks
  | metaRsync next =>
    rw [RsyncPool.returned_stuck (hr.metaRsync metaLeft).1] at next
    cases next
  | special next =>
    rw [RsyncPool.returned_stuck (hr.special specialLeft).1] at next
    cases next
  | metaReturn _ stays => rw [stays] at metaLeft; cases metaLeft
  | specialReturn _ stays => rw [stays] at specialLeft; cases specialLeft
  | deletes next =>
    rw [DeleteConsumer.exited_stuck deletes] at next
    cases next
  | _ => exact ⟨left, rfl, rfl⟩

def MainPC.Known (groupErr : Option GroupErr) (dirChanged converged doneSent : Bool) :
    MainPC → Prop
  | .wait => converged = false ∧ doneSent = false
  | .convergence => groupErr = none ∧ dirChanged = true ∧ doneSent = false
  | .signalDone => groupErr = none ∧ converged = dirChanged ∧ doneSent = false
  | .returned (some (.stateless err)) => groupErr = some err ∧ doneSent = false
  | .returned (some .convergence) => groupErr = none ∧ converged = false ∧ doneSent = false
  | .returned (some .signalDone) | .returned none =>
    groupErr = none ∧ converged = dirChanged ∧ doneSent = true

structure StatelessSync.Concluded (s : StatelessSync R S W) : Prop where
  left : s.main ≠ .wait → s.allLeft = true
  known : s.main.Known s.groupErr s.dirChanged s.converged s.doneSent

theorem Produces.main {src : SyncSource} {s s' : StatelessSync R S W} (h : Produces src s s') :
    s'.main = s.main ∧ s'.converged = s.converged ∧ s'.doneSent = s.doneSent := by
  cases h with
  | @deliver c => cases c <;> exact ⟨rfl, rfl, rfl⟩
  | _ => exact ⟨rfl, rfl, rfl⟩

theorem StatelessStep.concluded {src : SyncSource} {s s' : StatelessSync R S W}
    (h : StatelessStep src s s') (hr : s.Reported) (hs : s.Concluded) : s'.Concluded := by
  have known := hs.known
  -- the goroutines of the group leave `runSnapdiffSync` where it is
  have stays (main : s'.main = s.main) (converged : s'.converged = s.converged)
      (doneSent : s'.doneSent = s.doneSent) : s'.Concluded := by
    by_cases waits : s.main = .wait
    · rw [waits] at main known
      refine ⟨fun leaves => absurd main leaves, ?_⟩
      rw [main]
      exact ⟨converged.trans known.1, doneSent.trans known.2⟩
    · obtain ⟨left, err, dir⟩ := h.after_left hr (hs.left waits)
      refine ⟨fun _ => left, ?_⟩
      rw [main, err, dir, converged, doneSent]
      exact known
  cases h with
  | wait at_ left =>
    rw [at_] at known
    refine ⟨fun _ => left, ?_⟩
    cases hg : s.groupErr with
    | some err => simpa [StatelessSync.afterWait, hg, MainPC.Known] using known.2
    | none =>
      cases hd : s.dirChanged with
      | true => simpa [StatelessSync.afterWait, hg, hd, MainPC.Known] using known.2
      | false => simpa [StatelessSync.afterWait, hg, hd, MainPC.Known] using known
  | convergence ok at_ =>
    have left := hs.left (by simp [at_])
    rw [at_] at known
    obtain ⟨err, dir, done⟩ := known
    cases ok with
    | true => exact ⟨fun _ => left, err, dir.symm, done⟩
    | false => exact ⟨fun _ => left, err, rfl, done⟩
  | signalDone ok at_ =>
    have left := hs.left (by simp [at_])
    rw [at_] at known
    obtain ⟨err, conv, -⟩ := known
    cases ok <;> exact ⟨fun _ => left, err, conv, rfl⟩
  | produce next =>
    obtain ⟨main, converged, doneSent⟩ := next.main
    exact stays main converged doneSent
  | _ => exact stays rfl rfl rfl

section Reachable

variable {src : SyncSource} {s : StatelessSync R S W}
  (h : Reach (statelessStep src) (statelessInit src R S W) s)

include h

theorem reach_mirrored : s.Mirrored src :=
  h.invariant (StatelessSync.init_mirrored src R S W) fun _ _ _ reached hs next =>
    (statelessStep_cases next).mirrored (reach_syncAccounted reached) (reach_wired reached) hs

theorem reach_listed : s.Listed src :=
  h.invariant (StatelessSync.init_listed src R S W) fun _ _ _ _ hs next =>
    (statelessStep_cases next).listed hs

theorem reach_concluded : s.Concluded :=
  h.invariant ⟨by simp [statelessInit], by simp [statelessInit, MainPC.Known]⟩
    fun _ _ _ reached hs next => (statelessStep_cases next).concluded (reach_reported reached) hs

end Reachable

namespace StatelessSync

variable {src : SyncSource} {s : StatelessSync R S W}

/-- The group has returned nil: each of its goroutines has. -/
structure Succeeded (s : StatelessSync R S W) : Prop where
  producer : s.producer = .exit none
  blocks : s.blocks = .exit none
  metaRsync : s.metaRsync.returned = true ∧ s.metaRsync.groupErr = none
  special : s.special.returned = true ∧ s.special.groupErr = none
  deletes : s.deletes.worker.pc = .exit none
  groupErr : s.groupErr = none

theorem Reported.succeeded (h : s.Reported) (left : s.allLeft = true) (nil : s.groupErr = none) :
    s.Succeeded := by
  simp only [allLeft, Bool.and_eq_true] at left
  obtain ⟨⟨⟨⟨producer, blocks⟩, metaLeft⟩, specialLeft⟩, deletes⟩ := left
  refine ⟨?_, ?_, ?_, ?_, ?_, nil⟩
  · cases hp : s.producer with
    | exit err =>
      cases err with
      | none => rfl
      | some err => exact absurd nil (h.producer err hp)
    | _ => rw [hp] at producer; cases producer
  · cases hb : s.blocks with
    | exit err =>
      cases err with
      | none => rfl
      | some err => exact absurd nil (h.blocks err hb)
    | _ => rw [hb] at blocks; cases blocks
  · obtain ⟨returned, err⟩ := h.metaRsync metaLeft
    exact ⟨returned, by_contra fun some => err some nil⟩
  · obtain ⟨returned, err⟩ := h.special specialLeft
    exact ⟨returned, by_contra fun some => err some nil⟩
  · cases hd : s.deletes.worker.pc with
    | exit err =>
      cases err with
      | none => rfl
      | some err => exact absurd nil (h.deletes err hd)
    | _ => rw [hd] at deletes; cases deletes

theorem Concluded.succeeded (h : s.Concluded) (hr : s.Reported) (done : s.doneSent = true) :
    s.Succeeded ∧ s.converged = s.dirChanged := by
  obtain ⟨left, known⟩ := h
  cases hm : s.main with
  | wait | convergence | signalDone =>
    rw [hm] at known
    simp_all [MainPC.Known]
  | returned err =>
    rw [hm] at known
    have left := left (by simp [hm])
    rcases err with _ | (_ | _ | _)
    · exact ⟨hr.succeeded left known.1, known.2.1⟩
    · rw [known.2] at done; cases done
    · rw [known.2.2] at done; cases done
    · exact ⟨hr.succeeded left known.1, known.2.1⟩

theorem Succeeded.changes_eq (h : s.Succeeded) (hl : s.Listed src) :
    src.listing src.dirs = src.changes.map some ∧ src.changes = s.routed := by
  have whole := hl.whole (by rw [h.producer]; rfl)
  rw [h.producer, SyncSource.ahead, List.append_nil] at whole
  have routed : src.changes = s.routed := by
    rw [SyncSource.changes, ← whole]
    simp [List.reduceOption]
  exact ⟨by rw [routed, whole], routed⟩

end StatelessSync

theorem Snapdiff.Returned.notified {cfg : Config} {newIter : GoString → Option FileDiff}
    {first : ChangedFileEntry} {rest : List ChangedFileEntry} {s : Snapdiff R S} (hs : s.Returned)
    (h : Reach (snapStep cfg newIter) (snapInit cfg R S first rest) s) (hctx : s.ctxDone = false)
    (herr : s.groupErr = none) : s.drainer.notified.Perm
      (((first :: rest).filter (iterOptions cfg newIter).commits).map (·.path)) := by
  obtain ⟨exit, received⟩ := hs.received h hctx herr
  have booked := reach_booked h
  have orderly := booked.orderly
  simp only [CommitDrainer.Orderly, exit, CommitDrainer.OrderlyAt] at orderly
  have paths := booked.balanced.paths (by simp [exit])
  simp only [orderly.2.1, orderly.2.2, exit, DrainerPC.todo, List.append_nil, List.map_nil] at paths
  rw [paths]
  simpa [Function.comp_def, FileBoundary.file] using received.map (·.path)

theorem Mirrors.returned {newIter : GoString → Option FileDiff} {x : Snapdiff R S}
    {first : ChangedFileEntry} {taken : List ChangedFileEntry} {ch : Chan ChangedFileEntry}
    (h : Mirrors newIter x first taken ch) (returned : x.Returned) (nil : x.groupErr = none)
    (ctx : x.ctxDone = false) :
    ch.closed = true ∧ ch.buf = [] ∧ x.drainer.notified.Perm
      (((first :: taken).filter (iterOptions snapConfig newIter).commits).map (·.path)) := by
  have closed : x.feed.fileCh.closed = true := by
    cases hc : x.feed.fileCh.closed with
    | true => rfl
    | false =>
      have run := h.streaming hc []
      have exhausted := (reach_accounted run).closer returned.1 nil
      exact ((reach_traced run).exhausted ctx exhausted).2.symm.trans hc |>.symm
  obtain ⟨rest, left, run, live⟩ := h.ended closed
  obtain ⟨rfl, rfl, ended, empty⟩ := live ctx
  exact ⟨ended, empty,
    Snapdiff.Returned.notified (s := { x with largeCh := [] }) returned run ctx nil⟩

section Succeeded

variable {src : SyncSource} {s : StatelessSync R S W}
  (reached : Reach (statelessStep src) (statelessInit src R S W) s) (ok : s.Succeeded)

include reached ok

theorem special_handled (some : 0 < W) :
    s.special.handed = (src.changes.filterMap Changed.special? : Multiset GoString) := by
  have special := (reach_syncAccounted reached).special
  have pool := (reach_wired reached).special
  rw [pool.emptied some ok.special.1 ok.special.2, Multiset.coe_nil, add_zero,
    ← (ok.changes_eq (reach_listed reached)).2] at special
  rw [pool.handed_eq ok.special.1 ok.special.2, special]

theorem deletes_handled : s.deletes.requests = s.deletes.worker.jobs ∧
    s.deletes.requests.flatten = src.changes.filterMap Changed.deleted? := by
  obtain ⟨queue, answered, deleted⟩ := (reach_wired reached).deletes.exit_none ok.deletes
  have paths := (reach_syncAccounted reached).deleted
  rw [queue, List.append_nil, deleted, ← (ok.changes_eq (reach_listed reached)).2] at paths
  exact ⟨answered, paths⟩

theorem files_handled (live : s.ctxDone = false) :
    s.largeTaken = src.changes.filterMap Changed.large? ∧
      s.notified.Perm (((src.changes.filterMap Changed.large?).filter
        (iterOptions snapConfig src.newIter).commits).map (·.path)) := by
  have mirrored := reach_mirrored reached
  have large := (reach_syncAccounted reached).large
  rw [(ok.changes_eq (reach_listed reached)).2]
  have active : s.gctxDone = false := by simp [StatelessSync.gctxDone, live, ok.groupErr]
  rcases mirrored.nil ok.blocks with ⟨idle, taken, -, queue⟩ | ⟨x, hx, returned, nil⟩
  · rw [taken, queue] at large
    refine ⟨by rw [taken]; exact large, ?_⟩
    rw [← large, StatelessSync.notified, idle]
    exact .nil
  · have ctx : x.ctxDone = false := by
      cases hc : x.ctxDone with
      | false => rfl
      | true => rw [mirrored.ctx x hx hc] at active; cases active
    obtain ⟨first, taken, received, mirrors⟩ := mirrored.snap x hx
    obtain ⟨-, queue, reported⟩ := mirrors.returned returned nil ctx
    rw [queue, List.append_nil] at large
    refine ⟨large, ?_⟩
    rw [← large, received, StatelessSync.notified, hx]
    exact reported

theorem metadata_handled (some : 0 < W) (live : s.ctxDone = false) :
    s.metaRsync.handed = (((src.changes.filterMap Changed.large?).filter
      (iterOptions snapConfig src.newIter).commits).map (·.path) : Multiset GoString) := by
  have committed := (reach_syncAccounted reached).committed
  have pool := (reach_wired reached).metaRsync
  rw [pool.emptied some ok.metaRsync.1 ok.metaRsync.2, Multiset.coe_nil, add_zero,
    ← pool.handed_eq ok.metaRsync.1 ok.metaRsync.2] at committed
  rw [committed]
  exact Multiset.coe_eq_coe.mpr (files_handled reached ok live).2

end Succeeded

/-- When Done has been sent, the walk and all snapshot diffs were read to their ends without an
error, every path for rsync was handed to exactly one call of `rsyncBatch` that returned nil, the
delete requests hold the deleted paths in the order of the listing and are all answered, and the
convergence rsync ran if a directory was listed. -/
theorem done_after_all_entries (src : SyncSource) (s : StatelessSync 8 8 rsyncWorkers)
    (reached : Reach (statelessStep src) (statelessInit src 8 8 rsyncWorkers) s)
    (done : s.doneSent = true) :
    src.walkErr = false ∧ src.listing src.dirs = src.changes.map some ∧
      s.special.handed = (src.changes.filterMap Changed.special? : Multiset GoString) ∧
      s.deletes.requests.flatten = src.changes.filterMap Changed.deleted? ∧
      s.deletes.requests = s.deletes.worker.jobs ∧
      (s.converged = true ↔ Changed.directory ∈ src.changes) := by
  have listed := reach_listed reached
  obtain ⟨ok, converged⟩ := (reach_concluded reached).succeeded (reach_reported reached) done
  obtain ⟨fine, changes⟩ := ok.changes_eq listed
  obtain ⟨answered, deleted⟩ := deletes_handled reached ok
  refine ⟨listed.walked ok.producer, fine, special_handled reached ok (by decide), deleted,
    answered, ?_⟩
  rw [converged, changes]
  exact (reach_syncAccounted reached).directory

/-- The diff of the only directory lists a file of one byte, a symbolic link, a directory and a
file that is gone. -/
def fourEntries : SyncSource where
  dirs := [goString "/"]
  walkErr := false
  newSnapDiffIterator _ := some ⟨[⟨goString "a", .reg⟩, ⟨goString "l", .other⟩,
    ⟨goString "d", .dir⟩, ⟨goString "g", .reg⟩], false⟩
  lstat fullP := if fullP = goString "/data/g" then .notExist else .info 1
  newIter _ := none

def fourEntriesBlocks : List (SnapAction 8 8) :=
  List.flatten [repeats [(4, .next .ready),
      (1, .pipe (.iterNext (some ⟨goString "/a", 0, 1, 0, 1, false⟩))), (1, .pipe (.feeder .ready)),
      (3, .next .ready), (1, .proxy .ready), (1, .next .ready), (1, .pipe (.iterNext none))],
    repeats [(3, .pipe (.reader 0 (.select .ready))), (1, .pipe (.reader 0 (.data (some [7])))),
      (1, .pipe (.reader 0 (.select .ready)))],
    (List.finRange 8).map fun r => .pipe (.reader r (.select .ready)),
    [.pipe .stageRead], sendBlocks 1, [1, 2, 3, 4, 5, 6, 7].flatMap idleWorker,
    repeats [(1, .pipe .stageSend), (1, .pipe .run), (4, .closer .ready),
      (5, .drainer (.select .ready)), (2, .drainer (.rpc true)), (2, .drainer (.select .ready))]]

def drainPool (step : Fin 4 → RsyncEvent → StatelessAction 8 8 4) : List (StatelessAction 8 8 4) :=
  [step 0 (.select .ready), step 0 (.select .ready), step 0 (.rsyncBatch true),
    step 1 (.select .ready), step 2 (.select .ready), step 3 (.select .ready)]

/-- The producer runs alone for so many steps, then the consumers one after the other. -/
def fourEntriesSchedule (steps : ℕ) : List (StatelessAction 8 8 4) :=
  List.flatten [List.replicate steps (.producer .ready), [.peek, .openCommit true],
    fourEntriesBlocks.map .blocks, [.blocksReturn], drainPool .metaRsync, [.metaReturn],
    drainPool .special, [.specialReturn],
    [.deletes (.rpc true), .deletes (.select .ready), .deletes (.select .ready),
      .deletes (.rpc true), .deletes (.rpc true)],
    [.wait, .convergence true, .signalDone true]]

theorem fourEntries_changes : fourEntries.changes = [.large ⟨goString "/a", 1⟩,
    .special (goString "/l"), .directory, .deleted (goString "/g")] := by
  decide +kernel

theorem fourEntries_large :
    fourEntries.changes.filterMap Changed.large? = [⟨goString "/a", 1⟩] := by
  rw [fourEntries_changes]
  rfl

theorem fourEntries_commits : ((fourEntries.changes.filterMap Changed.large?).filter
    (iterOptions snapConfig fourEntries.newIter).commits).map (·.path) = [goString "/a"] := by
  rw [fourEntries_large]
  decide +kernel

theorem fourEntries_reach : ∃ s : StatelessSync 8 8 rsyncWorkers,
    Reach (statelessStep fourEntries) (statelessInit fourEntries 8 8 rsyncWorkers) s ∧
      s.doneSent = true ∧ s.ctxDone = false := by
  have run : (exec (statelessStep fourEntries) (statelessInit fourEntries 8 8 4)
      (fourEntriesSchedule 11)).any (fun s => s.doneSent = true ∧ s.ctxDone = false) = true := by
    decide +kernel
  obtain ⟨s, reached, hs⟩ := Reach.of_exec_any run
  exact ⟨s, reached, of_decide_eq_true hs⟩

theorem done_after_all_entries_four : ∃ s : StatelessSync 8 8 rsyncWorkers, s.doneSent = true ∧
    s.special.handed = {goString "/l"} ∧ s.deletes.requests.flatten = [goString "/g"] ∧
      s.converged = true := by
  obtain ⟨s, reached, done, -⟩ := fourEntries_reach
  obtain ⟨-, -, special, deleted, -, converged⟩ :=
    done_after_all_entries fourEntries s reached done
  rw [fourEntries_changes] at special deleted converged
  exact ⟨s, done, special, deleted, converged.mpr (by simp)⟩

/-- When Done has been sent and the caller's context is live, the regular files that had changed
blocks are exactly those handed to `rsyncBatch` for their metadata, each of them once. -/
theorem done_after_all_files (src : SyncSource) (s : StatelessSync 8 8 rsyncWorkers)
    (reached : Reach (statelessStep src) (statelessInit src 8 8 rsyncWorkers) s)
    (done : s.doneSent = true) (live : s.ctxDone = false) :
    s.largeTaken = src.changes.filterMap Changed.large? ∧
      s.metaRsync.handed = (((src.changes.filterMap Changed.large?).filter
        (iterOptions snapConfig src.newIter).commits).map (·.path) : Multiset GoString) := by
  obtain ⟨ok, -⟩ := (reach_concluded reached).succeeded (reach_reported reached) done
  exact ⟨(files_handled reached ok live).1, metadata_handled reached ok (by decide) live⟩

theorem done_after_all_files_four : ∃ s : StatelessSync 8 8 rsyncWorkers, s.doneSent = true ∧
    s.largeTaken = [⟨goString "/a", 1⟩] ∧ s.metaRsync.handed = {goString "/a"} := by
  obtain ⟨s, reached, done, live⟩ := fourEntries_reach
  obtain ⟨taken, handed⟩ := done_after_all_files fourEntries s reached done live
  rw [fourEntries_large] at taken
  rw [fourEntries_commits] at handed
  exact ⟨s, done, taken, handed⟩

end CephVolsync.CephFs
