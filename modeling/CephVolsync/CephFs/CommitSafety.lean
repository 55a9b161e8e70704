import CephVolsync.CephFs.Boundaries

/-! A commit and the acknowledgements of the file's blocks. The drainer takes a released
window slot for an acknowledged block. That is right as long as slots are given back by
acknowledgements only; read errors, send errors and cancellation give them back too. -/

namespace CephVolsync.Pipeline

open TransitionSystem

variable {R S : ℕ} {cfg : Config}

def State.forfeits (s : State R S) : Action R S → Bool
  | .reader r (.select .ready) =>
    match s.readers r with
    | .releasing h _ => !h.hasMem && h.hasWin
    | _ => false
  | .worker i (.sender .ready) =>
    match (s.workers i).sender with
    | .abort (h :: _) _ => !h.hasMem && h.hasWin
    | _ => false
  | _ => false

theorem step_forfeited {s s' : State R S} {a : Action R S} (h : step cfg s a = some s')
    (ha : s.forfeits a = false) : s'.log.forfeited = s.log.forfeited := by
  cases step_cases h with
  | @reader r e pc sh hr =>
    simp only [State.log]
    generalize hpc : s.readers r = pc₀ at hr
    cases hr with
    | relWin hm hw => simp [State.forfeits, hpc, hm, hw] at ha
    | _ => rfl
  | @worker i e w sh hw =>
    simp only [State.log]
    generalize hw₀ : s.workers i = w₀ at hw
    cases hw with
    | @free hd => cases hm : hd.hasMem <;> rfl
    | abortWin hp hs hm hw => simp [State.forfeits, hw₀, hs, hm, hw] at ha
    | _ => rfl
  | _ => rfl

theorem step_acked {s s' : State R S} {a : Action R S} (h : step cfg s a = some s') :
    s.log.acked ⊆ s'.log.acked := by
  cases step_cases h with
  | @reader r e pc sh hr =>
    simp only [State.log]
    generalize s.readers r = pc₀ at hr
    cases hr <;> exact List.Subset.refl _
  | @worker i e w sh hw =>
    simp only [State.log]
    cases hw with
    | @free hd => cases hm : hd.hasMem <;> exact List.Subset.refl _
    | handlerAck => exact List.subset_append_left _ _
    | _ => exact List.Subset.refl _
  | _ => exact List.Subset.refl _

theorem State.isReleased_acked {s : State R S} (hw : 0 < cfg.maxWindow)
    (h : Reach (step cfg) (init cfg R S) s) (hn : Numbered s.log.fed) (hf : s.log.forfeited = [])
    {last : ℕ} (hr : s.shared.win.isReleased last = true) : ∀ id ≤ last, id ∈ s.log.acked := by
  intro id hid
  have base : last < s.shared.win.base := by simpa [WindowSemaphore.isReleased] using hr
  have released := (reach_windowed hw h hn.nodup).agrees.below id (by omega)
  have pos := List.count_pos_iff.mpr released
  have acked := reach_acked h id
  rw [hf, List.append_nil] at acked
  exact List.count_pos_iff.mp (by omega)

end CephVolsync.Pipeline

namespace CephVolsync.CephFs

open Pipeline TransitionSystem

variable {R S : ℕ} {cfg : Config} {newIter : GoString → Option FileDiff} {opts : IterOptions}

theorem Feed.Follows.unsealed {f : Feed} {fed : List ChangeBlock} (hf : f.Follows opts fed)
    (hd : (f.entered.map (·.path)).Nodup) (hpc : f.pc = .scan) (hbuf : f.it.buf ≠ []) :
    f.it.curFile ∉ f.emitted.map (·.path) := by
  have inFile := hf.inFile
  simp only [Feed.InFile, hpc] at inFile
  cases hlast : f.entered.getLast? with
  | none => simp only [hlast] at inFile; exact absurd (.inr (.inl hbuf)) inFile.1
  | some fe =>
    simp only [hlast] at inFile
    rw [← List.dropLast_append_getLast? fe hlast, List.map_append, List.nodup_append] at hd
    intro hmem
    obtain ⟨fb, hfb, hpath⟩ := List.mem_map.mp hmem
    have before : fb.file ∈ f.past.filter opts.commits := hf.emitted ▸ List.mem_map_of_mem hfb
    simp only [Feed.past, hpc] at before
    refine hd.2.2 _ (List.mem_map_of_mem (List.mem_of_mem_filter before)) _
      (List.mem_singleton.mpr rfl) ?_
    exact hpath.trans (congrArg ChangedFileEntry.path inFile.1)

theorem Snapdiff.Traced.nodup {files : List ChangedFileEntry} {s : Snapdiff R S}
    (h : s.Traced opts files) (hd : (files.map (·.path)).Nodup) :
    (s.feed.entered.map (·.path)).Nodup := by
  have front : s.feed.entered.Sublist (s.feed.entered ++ s.feed.fileCh.buf ++ s.largeCh) := by
    rw [List.append_assoc]
    exact List.sublist_append_left _ _
  exact hd.sublist ((front.trans h.sublist).map _)

theorem Snapdiff.Traced.fresh {files : List ChangedFileEntry} {s : Snapdiff R S}
    (h : s.Traced opts files) (hd : (files.map (·.path)).Nodup) {b : ChangeBlock} {f : Feed}
    (ha : s.feed.answer = some (some b, f)) : b.filePath ∉ s.feed.emitted.map (·.path) := by
  rcases Feed.answer_cases ha with ⟨e, rest, hpc, hbuf, hb, -⟩ | ⟨-, hb, -⟩
  · cases hb
    exact h.follows.unsealed (h.nodup hd) hpc (by simp [hbuf])
  · cases hb

def Snapdiff.Sealed (s : Snapdiff R S) : Prop :=
  ∀ fb ∈ s.feed.emitted, ∀ b ∈ s.pipe.log.fed, b.filePath = fb.path → b.reqID ≤ fb.lastReqID

/-- Every slot is given back by an acknowledgement. -/
def Snapdiff.keepsSlots (s : Snapdiff R S) : SnapAction R S → Bool
  | .pipe a => !s.pipe.forfeits a
  | _ => true

/-- The iterator is past the file, and all its blocks are acknowledged. -/
def Snapdiff.ConfirmedFile (s : Snapdiff R S) (p : GoString) : Prop :=
  p ∈ s.feed.emitted.map (·.path) ∧
    ∀ b ∈ s.pipe.log.fed, b.filePath = p → b.reqID ∈ s.pipe.log.acked

def Snapdiff.Confirmed (s : Snapdiff R S) : Prop :=
  ∀ e ∈ s.drainer.requests.flatten ++ s.drainer.batch, s.ConfirmedFile e.path

inductive SnapStep.Grows (s s' : Snapdiff R S) : Prop
  | same : s'.pipe.log.fed = s.pipe.log.fed → s'.feed.emitted = s.feed.emitted → SnapStep.Grows s s'
  | block {b : ChangeBlock} {f : Feed} : s.feed.answer = some (some b, f) →
      s'.pipe.log.fed = s.pipe.log.fed ++ [b] → s'.feed.emitted = s.feed.emitted →
        SnapStep.Grows s s'
  | boundary : s'.pipe.log.fed = s.pipe.log.fed →
      s'.feed.emitted = s.feed.emitted ++ [s.feed.it.boundary] → SnapStep.Grows s s'

theorem SnapStep.Grows.leaveGroup {s s' : Snapdiff R S} (h : SnapStep.Grows s s')
    (err : Option SnapErr) : SnapStep.Grows s (s'.leaveGroup err) := by
  cases err with
  | none => exact h
  | some e =>
    cases h with
    | same fed emitted => exact .same fed emitted
    | block ha fed emitted => exact .block ha fed emitted
    | boundary fed emitted => exact .boundary fed emitted

theorem SnapStep.grows {files : List ChangedFileEntry} {s s' : Snapdiff R S} {a : SnapAction R S}
    (h : SnapStep cfg opts s a s') (ht : s.Traced opts files) : SnapStep.Grows s s' := by
  cases h with
  | next _ hstep =>
    cases hstep with
    | boundary =>
      have grown := s.feed.emitBoundary_emitted opts
      cases he : s.feed.it.emitted with
      | true => exact .boundary rfl (by simp [grown, he])
      | false => exact .same rfl (by simp [grown, he])
    | _ => exact .same rfl rfl
  | @answer b f p ha hp =>
    obtain ⟨-, fed, -⟩ := step_iterNext hp
    rcases Feed.answer_cases ha with ⟨e, rest, -, -, rfl, rfl⟩ | ⟨-, rfl, rfl⟩
    · exact .block ha fed rfl
    · exact .same (by simpa using fed) rfl
  | @pipe a p hno hp =>
    rcases step_fed hp with ⟨b, rfl, -⟩ | ⟨rfl, -⟩ | ⟨-, fed, -⟩
    · exact absurd rfl (hno _)
    · exact absurd rfl (hno _)
    · exact .same fed rfl
  | drainer | closeCh =>
    refine SnapStep.Grows.leaveGroup ?_ _
    exact .same rfl rfl
  | closeIter hpc hf => exact .same rfl (by rw [ht.closeIter hpc hf])
  | _ => exact .same rfl rfl

theorem SnapStep.sealed {files : List ChangedFileEntry} {s s' : Snapdiff R S} {a : SnapAction R S}
    (h : SnapStep cfg opts s a s') (ht : s.Traced opts files) (hd : (files.map (·.path)).Nodup)
    (hs : s.Sealed) : s'.Sealed := by
  intro fb hfb b hb hpath
  cases h.grows ht with
  | same fed emitted => exact hs fb (emitted ▸ hfb) b (fed ▸ hb) hpath
  | block ha fed emitted =>
    rw [emitted] at hfb
    rcases List.mem_append.mp (fed ▸ hb) with hb | hb
    · exact hs fb hfb b hb hpath
    · rw [List.mem_singleton.mp hb] at hpath
      exact absurd (List.mem_map.mpr ⟨fb, hfb, hpath.symm⟩) (ht.fresh hd ha)
  | boundary fed emitted =>
    rw [fed] at hb
    rcases List.mem_append.mp (emitted ▸ hfb) with hfb | hfb
    · exact hs fb hfb b hb hpath
    · have lt := ht.follows.numbered.lt hb
      have reqID := ht.follows.reqID
      rw [List.mem_singleton.mp hfb]
      simp only [CephFSBlockIterator.boundary]
      omega

theorem reach_sealed {first : ChangedFileEntry} {rest : List ChangedFileEntry} {s : Snapdiff R S}
    (hd : ((first :: rest).map (·.path)).Nodup)
    (h : Reach (snapStep cfg newIter) (snapInit cfg R S first rest) s) : s.Sealed := by
  refine h.invariant ?_ fun _ _ _ reached hs next =>
    (snapStep_cases next).sealed (reach_traced reached) hd hs
  simp [Snapdiff.Sealed, snapInit, Feed.new]

theorem DrainStep.taken {γ : Type} {maxWindow : ℕ} {done : Bool} {d d' : CommitDrainer}
    {ch ch' : Chan FileBoundary} {win win' : WindowSemaphore γ}
    (h : DrainStep maxWindow done d ch win d' ch' win') :
    d'.requests.flatten ++ d'.batch = d.requests.flatten ++ d.batch ∨
      ∃ head ∈ d.pending, win.isReleased head.lastReqID = true ∧
        d'.requests.flatten ++ d'.batch = d.requests.flatten ++ d.batch ++ [commitEntry head] := by
  cases h with
  | @take l head rest hpc hp hr =>
    exact .inr ⟨head, hp ▸ List.mem_cons_self, hr, by simp [CommitDrainer.take]⟩
  | @send l more ok => cases ok <;> exact .inl (by simp [CommitDrainer.sendCommit])
  | @recvAck l more ok => cases ok <;> exact .inl rfl
  | _ => exact .inl rfl

theorem SnapStep.taken {s s' : Snapdiff R S} {a : SnapAction R S} (h : SnapStep cfg opts s a s') :
    s'.drainer.requests.flatten ++ s'.drainer.batch = s.drainer.requests.flatten ++
      s.drainer.batch ∨
      ∃ head ∈ s.drainer.pending, s.pipe.shared.win.isReleased head.lastReqID = true ∧
        s'.drainer.requests.flatten ++ s'.drainer.batch =
          s.drainer.requests.flatten ++ s.drainer.batch ++ [commitEntry head] := by
  cases h with
  | drainer hstep =>
    rw [(Snapdiff.leaveGroup_frame _).2.2.1]
    exact hstep.taken
  | closeCh =>
    rw [(Snapdiff.leaveGroup_frame _).2.2.1]
    exact .inl rfl
  | _ => exact .inl rfl

theorem SnapStep.acked {s s' : Snapdiff R S} {a : SnapAction R S} (h : SnapStep cfg opts s a s') :
    s.pipe.log.acked ⊆ s'.pipe.log.acked := by
  cases h with
  | answer _ hp | pipe _ hp => exact step_acked hp
  | drainer | closeCh =>
    rw [State.log, State.log, (Snapdiff.leaveGroup_pipe _).1]
    exact List.Subset.refl _
  | _ => exact List.Subset.refl _

theorem Snapdiff.Booked.pending_emitted {s : Snapdiff R S} (h : s.Booked) {fb : FileBoundary}
    (hfb : fb ∈ s.drainer.pending) : fb ∈ s.feed.emitted := by
  have received := List.count_pos_iff.mpr (h.balanced.pending.subset hfb)
  have tally := h.tally_le fb
  rw [Snapdiff.tally] at tally
  exact List.count_pos_iff.mp (by omega)

theorem SnapStep.confirmed_of {files : List ChangedFileEntry} {s s' : Snapdiff R S}
    {a : SnapAction R S} (h : SnapStep cfg opts s a s') (ht : s.Traced opts files)
    (hd : (files.map (·.path)).Nodup) {p : GoString} (hp : s.ConfirmedFile p) :
    s'.ConfirmedFile p := by
  -- a confirmed file stays confirmed: it gets no further blocks
  obtain ⟨passed, acked⟩ := hp
  cases h.grows ht with
  | same fed emitted =>
      exact ⟨emitted ▸ passed, fun b hb hpath => h.acked (acked b (fed ▸ hb) hpath)⟩
  | block ha fed emitted =>
    refine ⟨emitted ▸ passed, fun b hb hpath => ?_⟩
    rcases List.mem_append.mp (fed ▸ hb) with hb | hb
    · exact h.acked (acked b hb hpath)
    · rw [List.mem_singleton.mp hb] at hpath
      exact absurd (hpath ▸ passed) (ht.fresh hd ha)
  | boundary fed emitted =>
    refine ⟨?_, fun b hb hpath => h.acked (acked b (fed ▸ hb) hpath)⟩
    rw [emitted, List.map_append]
    exact List.mem_append_left _ passed

theorem SnapStep.confirmed {files : List ChangedFileEntry} {s s' : Snapdiff R S}
    {a : SnapAction R S}
    (h : SnapStep cfg opts s a s') (hw : 0 < cfg.maxWindow)
    (hr : Reach (step cfg) (init cfg R S) s.pipe) (hd : (files.map (·.path)).Nodup)
    (ht : s.Traced opts files) (hb : s.Booked) (hse : s.Sealed) (hf : s.pipe.log.forfeited = [])
    (hs : s.Confirmed) : s'.Confirmed := by
  intro e he
  refine h.confirmed_of ht hd ?_
  rcases h.taken with same | ⟨head, hhead, hrel, grown⟩
  · exact hs e (same ▸ he)
  · rcases List.mem_append.mp (grown ▸ he) with he | he
    · exact hs e he
    · rw [List.mem_singleton.mp he]
      have emitted := hb.pending_emitted hhead
      refine ⟨List.mem_map_of_mem emitted, fun b hb hpath => ?_⟩
      exact s.pipe.isReleased_acked hw hr ht.follows.numbered hf hrel _
        (hse head emitted b hb hpath)

theorem SnapStep.forfeited {s s' : Snapdiff R S} {a : SnapAction R S} (h : SnapStep cfg opts s a s')
    (ha : s.keepsSlots a = true) : s'.pipe.log.forfeited = s.pipe.log.forfeited := by
  cases h with
  | answer _ hp | pipe _ hp => exact step_forfeited hp (by simpa [Snapdiff.keepsSlots] using ha)
  | drainer | closeCh =>
    rw [State.log, (Snapdiff.leaveGroup_pipe _).1]
    rfl
  | _ => rfl

theorem reach_confirmed (hw : 0 < cfg.maxWindow) {first : ChangedFileEntry}
    {rest : List ChangedFileEntry} (hd : ((first :: rest).map (·.path)).Nodup) {s : Snapdiff R S}
    (h : Reach (restrict Snapdiff.keepsSlots (snapStep cfg newIter))
      (snapInit cfg R S first rest) s) :
    s.pipe.log.forfeited = [] ∧ s.Confirmed := by
  refine h.invariant (P := fun s => s.pipe.log.forfeited = [] ∧ s.Confirmed)
    ⟨rfl, by simp [Snapdiff.Confirmed, snapInit, CommitDrainer.new]⟩ ?_
  rintro s a s' reached ⟨kept, hs⟩ next
  obtain ⟨allowed, hstep⟩ := restrict_eq_some.mp next
  have cases := snapStep_cases hstep
  have reached := reached.of_restrict
  exact ⟨(cases.forfeited allowed).trans kept, cases.confirmed hw (snap_reach reached) hd
    (reach_traced reached) (reach_booked reached) (reach_sealed hd reached) kept hs⟩

/-- A file is committed after all its blocks are acknowledged, in every run in which no window
slot is given back by a read error, a send error or cancellation. -/
theorem commit_sent_after_acks (newIter : GoString → Option FileDiff) (first : ChangedFileEntry)
    (rest : List ChangedFileEntry) (hd : ((first :: rest).map (·.path)).Nodup) (s : Snapdiff 8 8)
    (h : Reach (restrict Snapdiff.keepsSlots (snapStep snapConfig newIter))
      (snapInit snapConfig 8 8 first rest) s) :
    ∀ req ∈ s.drainer.requests, ∀ e ∈ req, ∀ b ∈ s.pipe.log.fed, b.filePath = e.path →
      b.reqID ∈ s.pipe.log.acked := by
  intro req hreq e he
  have confirmed := (reach_confirmed (by decide) hd h).2
  exact (confirmed e (List.mem_append_left _ (List.mem_flatten_of_mem hreq he))).2

/-- The diff of the file `a` has two blocks, and no other diff can be opened. -/
def diffOfA (path : GoString) : Option FileDiff :=
  if path = goString "a" then some [some ⟨[⟨0, 1⟩, ⟨5, 1⟩], 2, le_rfl⟩] else none

def largeFile (path : String) : ChangedFileEntry := ⟨goString path, 16 * 1024 * 1024 + 1⟩

def blockOfA (reqID offset : ℕ) : ChangeBlock :=
  ⟨goString "a", offset, 1, reqID, 16 * 1024 * 1024 + 1, false⟩

/-- The feeder takes the two blocks of `a`, and `Next` passes over `b`. -/
def feedSchedule : List (SnapAction 8 8) :=
  repeats [(5, .next .ready), (1, .pipe (.iterNext (some (blockOfA 0 0)))),
    (1, .pipe (.feeder .ready)), (1, .pipe (.iterNext (some (blockOfA 1 5)))),
    (1, .pipe (.feeder .ready)), (3, .next .ready), (1, .proxy .ready), (4, .next .ready),
    (1, .proxy .ready), (1, .next .ready), (1, .pipe (.iterNext none))]

def readSchedule : List (SnapAction 8 8) :=
  repeats [(3, .pipe (.reader 0 (.select .ready))), (3, .pipe (.reader 1 (.select .ready))),
    (1, .pipe (.reader 1 (.data (some [8])))), (1, .pipe (.reader 0 (.data (some [7])))),
    (1, .pipe (.reader 1 (.select .ready))), (1, .pipe (.reader 0 (.select .ready)))]

def idleWorker (i : Fin 8) : List (SnapAction 8 8) :=
  [.pipe (.worker i (.open true)), .pipe (.worker i (.sender .ready)), .pipe (.worker i .handler),
    .pipe (.worker i (.ack .ready)), .pipe (.worker i .ret)]

def sendBlocks (n : ℕ) : List (SnapAction 8 8) :=
  repeats [(1, .pipe (.worker 0 (.open true))), (n + 1, .pipe (.worker 0 (.sender .ready))),
    (1, .pipe (.worker 0 (.send true))), (n + 1, .pipe (.worker 0 (.sender .ready))),
    (n + 3, .pipe (.worker 0 .handler)), (n + 3, .pipe (.worker 0 (.ack .ready))),
    (1, .pipe (.worker 0 .ret))]

def ackedSchedule : List (SnapAction 8 8) :=
  List.flatten [feedSchedule, readSchedule,
    (List.finRange 8).map fun r => .pipe (.reader r (.select .ready)),
    [.pipe .stageRead], sendBlocks 2, [1, 2, 3, 4, 5, 6, 7].flatMap idleWorker,
    repeats [(1, .pipe .stageSend), (1, .pipe .run), (4, .closer .ready),
      (5, .drainer (.select .ready)), (1, .drainer (.rpc true))]]

theorem commit_sent_after_acks_twoBlocks : ∃ s : Snapdiff 8 8,
    s.drainer.requests = [[⟨goString "a", 16 * 1024 * 1024 + 1⟩]] ∧
      s.pipe.log.fed = [blockOfA 0 0, blockOfA 1 5] ∧
      ∀ b ∈ s.pipe.log.fed, b.filePath = goString "a" → b.reqID ∈ s.pipe.log.acked := by
  have run : (exec (restrict Snapdiff.keepsSlots (snapStep snapConfig diffOfA))
      (snapInit snapConfig 8 8 (largeFile "a") [largeFile "b"]) ackedSchedule).any (fun s =>
        s.drainer.requests = [[⟨goString "a", 16 * 1024 * 1024 + 1⟩]] ∧
          s.pipe.log.fed = [blockOfA 0 0, blockOfA 1 5]) = true := by
    decide +kernel
  obtain ⟨s, reached, hs⟩ := Reach.of_exec_any run
  simp only [decide_eq_true_eq] at hs
  obtain ⟨requests, fed⟩ := hs
  refine ⟨s, requests, fed, ?_⟩
  exact commit_sent_after_acks diffOfA (largeFile "a") [largeFile "b"] (by decide +kernel) s reached
    _ (requests ▸ List.mem_cons_self) _ List.mem_cons_self

def smallFile : ChangedFileEntry := ⟨goString "a", 1⟩

def smallFileBlock : ChangeBlock := ⟨goString "a", 0, 1, 0, 1, false⟩

/-- The feeder takes the only block of the file and finds the stream exhausted. -/
def feedSmallFile : List (SnapAction 8 8) :=
  repeats [(4, .next .ready), (1, .pipe (.iterNext (some smallFileBlock))),
    (1, .pipe (.feeder .ready)),
    (3, .next .ready), (1, .proxy .ready), (1, .next .ready), (1, .pipe (.iterNext none))]

def failRead : List (SnapAction 8 8) :=
  repeats [(3, .pipe (.reader 0 (.select .ready))), (1, .pipe (.reader 0 (.data none))),
    (3, .pipe (.reader 0 (.select .ready)))]

def unreadSchedule : List (SnapAction 8 8) :=
  List.flatten [feedSmallFile, failRead,
    [1, 2, 3, 4, 5, 6, 7].map fun r => .pipe (.reader r (.select .ready)),
    [.pipe .stageRead], (List.finRange 8).flatMap idleWorker,
    repeats [(1, .pipe .stageSend), (1, .pipe .run), (4, .closer .ready),
      (5, .drainer (.select .ready)), (1, .drainer (.rpc true))]]

/-- The block of the file was never read, and yet the file is committed: the slot that the failed
read gave back counts as released when the drainer flushes. -/
theorem commit_sent_unacked :
    ∃ s : Snapdiff 8 8,
      Reach (snapStep snapConfig fun _ => none) (snapInit snapConfig 8 8 smallFile []) s ∧
      ∃ req ∈ s.drainer.requests, ∃ e ∈ req, ∃ b ∈ s.pipe.log.fed, b.filePath = e.path ∧
        b.reqID ∉ s.pipe.log.acked := by
  have run : (exec (snapStep snapConfig fun _ => none) (snapInit snapConfig 8 8 smallFile [])
      unreadSchedule).any (fun s => s.drainer.requests = [[⟨goString "a", 1⟩]] ∧
        s.pipe.log.fed = [smallFileBlock] ∧ s.pipe.log.acked = []) = true := by
    decide +kernel
  obtain ⟨s, reached, hs⟩ := Reach.of_exec_any run
  simp only [decide_eq_true_eq] at hs
  obtain ⟨requests, fed, acked⟩ := hs
  refine ⟨s, reached, _, requests ▸ List.mem_cons_self, _, List.mem_cons_self, smallFileBlock,
    fed ▸ List.mem_cons_self, rfl, by simp [acked]⟩

end CephVolsync.CephFs
