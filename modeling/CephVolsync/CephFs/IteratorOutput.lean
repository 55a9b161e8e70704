import CephVolsync.CephFs.Boundaries

/-! The block iterator on its own: entries arrive on its channel, `Next` is called until it
returns false, then `Close`, and a consumer takes the boundaries whenever it likes. The
blocks returned and the boundaries received are functions of the entries and the diffs. -/

namespace CephVolsync.CephFs

open Extents Pipeline TransitionSystem

/-- The blocks of a diff: what `Read` returns up to the first error or empty batch. -/
def FileDiff.batches : FileDiff → List Extent
  | some blocks :: rest =>
    if blocks.elems = [] then [] else splitLargeBlocks blocks maxBlockLen ++ FileDiff.batches rest
  | _ => []

namespace IterOptions

def blocks (opts : IterOptions) (fe : ChangedFileEntry) : List Extent :=
  if fe.size = 0 then []
  else if 0 < fe.size ∧ fe.size ≤ opts.smallFileThreshold then
    splitLargeBlocks ⟨[⟨0, uint64 fe.size⟩], 1, Nat.le_refl 1⟩ maxBlockLen
  else
    match opts.newIter fe.path with
    | none => []
    | some diff => diff.batches

def content (opts : IterOptions) (files : List ChangedFileEntry) :
    List (ChangedFileEntry × Extent) :=
  files.flatMap fun fe => (opts.blocks fe).map (Prod.mk fe)

end IterOptions

/-- The block that stands at `reqID` in the output, with `offset` as in `changeBlock`. -/
def numberBlock (reqID : ℕ) (p : ChangedFileEntry × Extent) : ChangeBlock :=
  ⟨p.1.path, p.2.offset, p.2.len, reqID, p.1.size, false⟩

namespace IterOptions

/-- The blocks of the files one after the other, numbered from zero. -/
def output (opts : IterOptions) (files : List ChangedFileEntry) : List ChangeBlock :=
  (opts.content files).mapIdx numberBlock

/-- One boundary for each file that has a block, with the number of its last one. -/
def boundaries (opts : IterOptions) : ℕ → List ChangedFileEntry → List FileBoundary
  | _, [] => []
  | start, fe :: rest =>
    let n := (opts.blocks fe).length
    (if n = 0 then [] else [⟨fe.path, start + n - 1, fe.size⟩]) ++ opts.boundaries (start + n) rest

variable {opts : IterOptions}

theorem content_append (first second : List ChangedFileEntry) :
    opts.content (first ++ second) = opts.content first ++ opts.content second :=
  List.flatMap_append

theorem content_single (fe : ChangedFileEntry) :
    opts.content [fe] = (opts.blocks fe).map (Prod.mk fe) := by
  simp [content]

theorem boundaries_append (start : ℕ) (first second : List ChangedFileEntry) :
    opts.boundaries start (first ++ second) =
      opts.boundaries start first ++
        opts.boundaries (start + (opts.content first).length) second := by
  induction first generalizing start with
  | nil => simp [boundaries, content]
  | cons fe rest ih =>
    have length : (opts.content (fe :: rest)).length =
        (opts.blocks fe).length + (opts.content rest).length := by simp [content]
    rw [List.cons_append, boundaries, boundaries, ih, length, List.append_assoc, Nat.add_assoc]

theorem boundaries_withReceiver (waiting : Bool) (start : ℕ) (files : List ChangedFileEntry) :
    (opts.withReceiver waiting).boundaries start files = opts.boundaries start files := by
  induction files generalizing start with
  | nil => rfl
  | cons fe rest ih =>
    simp only [boundaries, ih]
    rfl

end IterOptions

inductive ClosePC where
  | open
  | flush (todo : List FileBoundary)
  | closed
  deriving DecidableEq, Repr

/-- The iterator with its surroundings: the entries still to come, whether the consumer waits for a
boundary, what `Next` has returned and what the consumer has received. -/
structure IterRun where
  feed : Feed
  coming : List ChangedFileEntry
  closing : ClosePC
  waiting : Bool
  returned : List ChangeBlock
  received : List FileBoundary

inductive IterAction where
  | arrive
  | endFiles
  | next
  | answer
  | wait
  | receive
  | close
  deriving DecidableEq, Repr

namespace IterRun

def start (files : List ChangedFileEntry) : IterRun := ⟨.new .new, files, .open, false, [], []⟩

def opts (o : IterOptions) (s : IterRun) : IterOptions := o.withReceiver s.waiting

def close (o : IterOptions) (s : IterRun) : ClosePC → Option IterRun
  | .open =>
    if s.feed.pc = .exhausted then
      let feed := if s.feed.it.failed then s.feed else s.feed.emitBoundary (s.opts o)
      some { s with feed := feed, closing := .flush feed.it.pendingBoundaries }
    else none
  | .flush (fb :: todo) =>
    if s.feed.room (s.opts o) then
      some { s with
        closing := .flush todo, feed := { s.feed with boundaryCh := s.feed.boundaryCh.send fb } }
    else none
  | .flush [] =>
    some { s with
      closing := .closed
      feed := { s.feed with it := { s.feed.it.closeCurrentIter with pendingBoundaries := [] } } }
  | .closed => none

/-- The iterator's context is alive. -/
def step (o : IterOptions) (s : IterRun) : IterAction → Option IterRun
  | .arrive =>
    match s.coming with
    | fe :: rest =>
      some { s with coming := rest, feed := { s.feed with fileCh := s.feed.fileCh.send fe } }
    | [] => none
  | .endFiles =>
    if s.coming = [] ∧ s.feed.fileCh.closed = false then
      some { s with feed := { s.feed with fileCh := s.feed.fileCh.close } }
    else none
  | .next => (s.feed.next (s.opts o) false s.feed.pc .ready).map fun f => { s with feed := f }
  | .answer =>
    match s.feed.answer with
    | some (some b, f) => some { s with feed := f, returned := s.returned ++ [b] }
    | _ => none
  | .wait =>
    if s.feed.boundaryCh.buf = [] ∧ s.waiting = false then some { s with waiting := true } else none
  | .receive =>
    match s.feed.boundaryCh.buf with
    | fb :: rest =>
      some { s with
        received := s.received ++ [fb]
        waiting := false
        feed := { s.feed with boundaryCh := { s.feed.boundaryCh with buf := rest } } }
    | [] => none
  | .close => s.close o s.closing

/-- `Close` has returned and the consumer has taken everything. -/
def Complete (s : IterRun) : Prop := s.closing = .closed ∧ s.feed.boundaryCh.buf = []

end IterRun

def CephFSBlockIterator.ahead (it : CephFSBlockIterator) : List Extent :=
  it.buf ++ (it.curIter.map FileDiff.batches).getD []

theorem CephFSBlockIterator.enter_ahead {opts : IterOptions} {it : CephFSBlockIterator}
    (hbuf : it.buf = []) (hcur : it.curIter = none) (fe : ChangedFileEntry) :
    (it.enter opts fe).ahead = opts.blocks fe := by
  unfold enter IterOptions.blocks ahead
  by_cases empty : fe.size = 0
  · simp [empty, hbuf, hcur]
  · rw [if_neg empty, if_neg empty]
    by_cases small : 0 < fe.size ∧ fe.size ≤ opts.smallFileThreshold
    · rw [if_pos ⟨by omega, small⟩, if_pos small]
      simp [hcur]
    · rw [if_neg (fun h => small h.2), if_neg small]
      cases opts.newIter fe.path <;> simp [hbuf, hcur]

namespace Feed

variable {opts : IterOptions} {f f' : Feed} {returned : List ChangeBlock} {done : Bool}

/-- The iterator is in a file, and returned and coming blocks make up the files entered. -/
def Current (opts : IterOptions) (returned : List ChangeBlock) (f : Feed) : Prop :=
  (f.entered = [] ∧ f.it.ahead = [] ∧ f.it.curFile = [] ∧ returned = []) ∨
    ∃ past fe shown, f.entered = past ++ [fe] ∧ f.it.file = fe ∧
      f.it.fileStartReqID = (opts.content past).length ∧
      opts.content f.entered = shown ++ f.it.ahead.map (Prod.mk fe) ∧
      returned = shown.mapIdx numberBlock

def ExactAt (opts : IterOptions) (returned : List ChangeBlock) (f : Feed) : NextPC → Prop
  | .scan => f.Current opts returned
  | .boundary => f.Current opts returned ∧ f.it.ahead = []
  | .drain | .nextFile => f.it.buf = [] ∧ returned = opts.output f.entered
  | .exhausted => f.it.curFile = [] ∧ returned = opts.output f.entered

/-- The iterator against the blocks it has returned and the boundaries it has emitted. -/
structure Exact (opts : IterOptions) (returned : List ChangeBlock) (f : Feed) : Prop where
  reqID : f.it.reqID = returned.length
  stage : f.ExactAt opts returned f.pc
  emitted : f.emitted = opts.boundaries 0 f.past

theorem new_exact (files : Chan ChangedFileEntry) : (new files).Exact opts [] :=
  ⟨rfl, .inl ⟨rfl, rfl, rfl, rfl⟩, rfl⟩

theorem exact_withReceiver (waiting : Bool) :
    f.Exact (opts.withReceiver waiting) returned ↔ f.Exact opts returned := by
  constructor
  · exact fun ⟨reqID, stage, emitted⟩ =>
      ⟨reqID, stage, emitted.trans (IterOptions.boundaries_withReceiver ..)⟩
  · exact fun ⟨reqID, stage, emitted⟩ =>
      ⟨reqID, stage, emitted.trans (IterOptions.boundaries_withReceiver ..).symm⟩

theorem Current.returned_eq (h : f.Current opts returned) (done : f.it.ahead = []) :
    returned = opts.output f.entered := by
  rcases h with ⟨none, -, -, rfl⟩ | ⟨past, fe, shown, -, -, -, content, rfl⟩
  · rw [none]
    rfl
  · rw [done, List.map_nil, List.append_nil] at content
    rw [IterOptions.output, content]

theorem Exact.boundary (h : f.Exact opts returned) (hpc : f.pc = .boundary)
    (paths : ∀ fe ∈ f.entered, fe.path ≠ []) :
    ({ f.emitBoundary opts with pc := .drain } : Feed).Exact opts returned := by
  obtain ⟨reqID, stage, emitted⟩ := h
  rw [hpc] at stage
  obtain ⟨current, done⟩ := stage
  have frame := f.emitBoundary_frame opts
  have grown := f.emitBoundary_emitted opts
  have empty : f.it.buf = [] := (List.append_eq_nil_iff.mp done).1
  refine ⟨frame.2.2.2.1.trans reqID, ⟨frame.2.2.1.trans empty, ?_⟩, ?_⟩
  · rw [current.returned_eq done]
    exact congrArg opts.output frame.1.symm
  · simp only [past, hpc] at emitted
    simp only [past, grown, frame.1, emitted]
    rcases current with ⟨none, -, file, -⟩ | ⟨past, fe, shown, entered, file, start, content, rfl⟩
    · simp [none, CephFSBlockIterator.emitted, file, IterOptions.boundaries]
    · rw [done, List.map_nil, List.append_nil, entered, IterOptions.content_append,
        IterOptions.content_single] at content
      have total := congrArg List.length content
      simp only [List.length_append, List.length_map] at total
      rw [List.length_mapIdx] at reqID
      have path : f.it.curFile = fe.path := congrArg ChangedFileEntry.path file
      have size : f.it.totalSize = fe.size := congrArg ChangedFileEntry.size file
      have named : fe.path ≠ [] := paths fe (by simp [entered])
      rw [entered, List.dropLast_concat, IterOptions.boundaries_append, Nat.zero_add]
      by_cases none : (opts.blocks fe).length = 0
      · have silent : f.it.emitted = false := by
          simp only [CephFSBlockIterator.emitted, decide_eq_false_iff_not]
          omega
        simp [silent, IterOptions.boundaries, none]
      · have loud : f.it.emitted = true := by
          simp only [CephFSBlockIterator.emitted, path, decide_eq_true_eq]
          exact ⟨named, by omega⟩
        have last : f.it.reqID - 1 = (opts.content past).length + (opts.blocks fe).length - 1 := by
          omega
        simp [loud, IterOptions.boundaries, none, CephFSBlockIterator.boundary, path, size, last]

theorem Exact.shown (h : f.Exact opts returned) :
    ∃ shown rest, opts.content f.entered = shown ++ rest ∧ returned = shown.mapIdx numberBlock := by
  have stage := h.stage
  have all : returned = opts.output f.entered → ∃ shown rest,
      opts.content f.entered = shown ++ rest ∧ returned = shown.mapIdx numberBlock :=
    fun output => ⟨_, [], (List.append_nil _).symm, output⟩
  cases hpc : f.pc with
  | scan =>
    rw [hpc] at stage
    rcases stage with ⟨-, -, -, rfl⟩ | ⟨past, fe, shown, -, -, -, content, output⟩
    · exact ⟨[], _, rfl, rfl⟩
    · exact ⟨shown, _, content, output⟩
  | boundary =>
    rw [hpc] at stage
    exact all (stage.1.returned_eq stage.2)
  | drain | nextFile | exhausted =>
    rw [hpc] at stage
    exact all stage.2

theorem closeCurrentIter_ahead {it : CephFSBlockIterator} (hbuf : it.buf = []) :
    it.closeCurrentIter.ahead = [] := by
  rw [CephFSBlockIterator.ahead, CephFSBlockIterator.closeCurrentIter_buf hbuf,
    CephFSBlockIterator.closeCurrentIter_curIter]
  rfl

theorem Current.same (h : f.Current opts returned) {it : CephFSBlockIterator}
    (ahead : it.ahead = f.it.ahead) (file : it.file = f.it.file)
    (start : it.fileStartReqID = f.it.fileStartReqID) (pc : NextPC) :
    ({ f with it := it, pc := pc } : Feed).Current opts returned := by
  unfold Current
  simp only
  have path : it.curFile = f.it.curFile := congrArg ChangedFileEntry.path file
  rw [ahead, file, start, path]
  exact h

theorem Exact.answer {e : Extent} {rest : List Extent} (h : f.Exact opts returned)
    (hpc : f.pc = .scan) (hbuf : f.it.buf = e :: rest) :
    ({ f with it := { f.it with buf := rest, reqID := f.it.reqID + 1 } } : Feed).Exact opts
      (returned ++ [f.it.changeBlock e]) := by
  obtain ⟨reqID, stage, emitted⟩ := h
  rw [hpc] at stage
  refine ⟨by simp [reqID], ?_, by simpa [past, hpc] using emitted⟩
  simp only [hpc]
  rcases stage with ⟨-, none, -⟩ | ⟨past, fe, shown, entered, file, start, content, rfl⟩
  · simp [CephFSBlockIterator.ahead, hbuf] at none
  · refine .inr ⟨past, fe, shown ++ [(fe, e)], entered, file, start, ?_, ?_⟩
    · rw [content]
      simp [CephFSBlockIterator.ahead, hbuf]
    · have path : f.it.curFile = fe.path := congrArg ChangedFileEntry.path file
      have size : f.it.totalSize = fe.size := congrArg ChangedFileEntry.size file
      rw [List.length_mapIdx] at reqID
      simp [List.mapIdx_append, numberBlock, CephFSBlockIterator.changeBlock, path, size, reqID]

end Feed

variable {opts : IterOptions} {f f' : Feed} {returned : List ChangeBlock} {done : Bool}

theorem FeedStep.exact (h : FeedStep opts done f f') (hf : f.Exact opts returned)
    (paths : ∀ fe ∈ f.entered, fe.path ≠ []) : f'.Exact opts returned := by
  obtain ⟨reqID, stage, emitted⟩ := id hf
  cases h with
  | @read blocks rest hpc hbuf hcur hne =>
    rw [hpc] at stage
    have ahead : CephFSBlockIterator.ahead { f.it with
        curIter := some rest, buf := splitLargeBlocks blocks maxBlockLen } = f.it.ahead := by
      simp [CephFSBlockIterator.ahead, hbuf, hcur, FileDiff.batches, hne]
    have current := Feed.Current.same stage ahead rfl rfl f.pc
    refine ⟨reqID, ?_, by simpa [Feed.past, hpc] using emitted⟩
    simp only [hpc] at current ⊢
    exact current
  | @endFile it hpc hbuf hno hit =>
    rw [hpc] at stage
    have spent : f.it.ahead = [] := by
      rw [CephFSBlockIterator.ahead, hbuf]
      rcases hcur : f.it.curIter with _ | _ | ⟨_ | blocks, rest⟩
      · rfl
      · rfl
      · rfl
      · simp [FileDiff.batches, hno blocks rest hcur]
    have frame : it.ahead = [] ∧ it.file = f.it.file ∧ it.reqID = f.it.reqID ∧
        it.fileStartReqID = f.it.fileStartReqID := by
      rcases hit with rfl | rfl
      · exact ⟨spent, rfl, rfl, rfl⟩
      · have same := f.it.closeCurrentIter_frame
        exact ⟨Feed.closeCurrentIter_ahead hbuf, same.1, same.2.1, same.2.2.1⟩
    have current := Feed.Current.same stage (frame.1.trans spent.symm) frame.2.1 frame.2.2.2
      .boundary
    exact ⟨frame.2.2.1.trans reqID, ⟨current, frame.1⟩, by simpa [Feed.past, hpc] using emitted⟩
  | boundary hpc => exact hf.boundary hpc paths
  | drainOne hpc =>
    rw [hpc] at stage
    refine ⟨reqID, ?_, by simpa [Feed.past, hpc] using emitted⟩
    simp only [hpc]
    exact stage
  | drained hpc =>
    rw [hpc] at stage
    exact ⟨reqID, stage, by simpa [Feed.past, hpc] using emitted⟩
  | @enter fe rest hpc hfe =>
    rw [hpc] at stage
    have frame := @CephFSBlockIterator.enter_frame opts f.it.closeCurrentIter fe
    have closed := f.it.closeCurrentIter_frame
    have ahead : (f.it.closeCurrentIter.enter opts fe).ahead = opts.blocks fe :=
      CephFSBlockIterator.enter_ahead (f.it.closeCurrentIter_buf stage.1)
        f.it.closeCurrentIter_curIter fe
    have length : f.it.reqID = (opts.content f.entered).length := by
      rw [reqID, stage.2, IterOptions.output, List.length_mapIdx]
    refine ⟨frame.2.1.trans (closed.2.1.trans reqID),
      .inr ⟨f.entered, fe, opts.content f.entered, rfl,
      frame.1, frame.2.2.1.trans (closed.2.1.trans length), ?_, stage.2⟩, ?_⟩
    · rw [ahead, IterOptions.content_append, IterOptions.content_single]
    · simpa [Feed.past, hpc] using emitted
  | exhaust hpc =>
    rw [hpc] at stage
    exact ⟨f.it.closeCurrentIter_frame.2.1.trans reqID, ⟨rfl, stage.2⟩,
      by simpa [Feed.past, hpc, Feed.exhaust] using emitted⟩

namespace IterRun

variable {files : List ChangedFileEntry} {s s' : IterRun}

def unsent (s : IterRun) : List FileBoundary :=
  match s.closing with
  | .open => s.feed.it.pendingBoundaries
  | .flush todo => todo
  | .closed => []

structure Sound (opts : IterOptions) (files : List ChangedFileEntry) (s : IterRun) : Prop where
  exact : s.feed.Exact opts s.returned
  files : s.feed.entered ++ s.feed.fileCh.buf ++ s.coming = files
  ended : s.feed.fileCh.closed = true → s.coming = []
  exhausted : s.feed.pc = .exhausted → s.feed.fileCh.buf = [] ∧ s.feed.fileCh.closed = true
  closing : s.closing ≠ .open → s.feed.pc = .exhausted
  ledger : ∀ fb, s.received.count fb + s.feed.boundaryCh.buf.count fb + s.unsent.count fb =
    s.feed.emitted.count fb

theorem start_sound (opts : IterOptions) (files : List ChangedFileEntry) :
    (start files).Sound opts files :=
  ⟨Feed.new_exact _, rfl, by simp [start, Feed.new, Chan.new], by simp [start, Feed.new],
    by simp [start], fun _ => rfl⟩

theorem Sound.emitBoundary (h : s.Sound opts files) (hpc : s.feed.pc = .exhausted) :
    (if s.feed.it.failed then s.feed else s.feed.emitBoundary (s.opts opts)) = s.feed := by
  have stage := h.exact.stage
  rw [hpc] at stage
  split
  · rfl
  · simp [Feed.emitBoundary, CephFSBlockIterator.emitted, stage.1]

theorem Sound.closeStep (h : s.Sound opts files) (hs : s.close opts s.closing = some s') :
    s'.Sound opts files := by
  obtain ⟨exact, entries, ended, exhausted, closing, ledger⟩ := id h
  cases hc : s.closing with
  | «open» =>
    simp only [hc, close] at hs
    split at hs <;> cases hs
    rename_i hpc
    rw [h.emitBoundary hpc]
    refine ⟨exact, entries, ended, exhausted, fun _ => hpc, fun fb => ?_⟩
    simpa [unsent, hc] using ledger fb
  | flush todo =>
    have hpc := closing (by simp [hc])
    cases todo with
    | nil =>
      simp only [hc, close] at hs
      cases hs
      have frame := s.feed.it.closeCurrentIter_frame
      have stage := exact.stage
      rw [hpc] at stage
      have file : s.feed.it.closeCurrentIter.curFile = [] :=
        (congrArg ChangedFileEntry.path frame.1).trans stage.1
      refine ⟨⟨frame.2.1.trans exact.reqID, ?_, exact.emitted⟩, entries, ended, exhausted,
        fun _ => hpc, fun fb => ?_⟩
      · simp only [hpc]
        exact ⟨file, stage.2⟩
      · simpa [unsent, hc] using ledger fb
    | cons fb todo =>
      simp only [hc, close] at hs
      split at hs <;> cases hs
      refine ⟨⟨exact.reqID, exact.stage, exact.emitted⟩, entries, ended, exhausted, fun _ => hpc,
        fun fb' => ?_⟩
      have total := ledger fb'
      simp only [unsent, hc, Chan.send, List.count_append, List.count_cons, List.count_nil]
        at total ⊢
      omega
  | closed =>
    simp only [hc, close] at hs
    cases hs

theorem Sound.step (h : s.Sound opts files) (paths : ∀ fe ∈ files, fe.path ≠ []) {a : IterAction}
    (hs : s.step opts a = some s') : s'.Sound opts files := by
  obtain ⟨exact, entries, ended, exhausted, closing, ledger⟩ := id h
  cases a with
  | arrive =>
    simp only [IterRun.step] at hs
    split at hs <;> cases hs
    rename_i fe rest hcoming
    refine ⟨⟨exact.reqID, exact.stage, exact.emitted⟩, ?_, fun hc => ?_, fun hpc => ?_, closing,
      ledger⟩
    · rw [← entries, hcoming]
      simp [Chan.send]
    · rw [ended hc] at hcoming
      cases hcoming
    · rw [ended (exhausted hpc).2] at hcoming
      cases hcoming
  | endFiles =>
    simp only [IterRun.step] at hs
    split at hs <;> cases hs
    rename_i none
    exact ⟨⟨exact.reqID, exact.stage, exact.emitted⟩, entries, fun _ => none.1,
      fun hpc => ⟨(exhausted hpc).1, rfl⟩, closing, ledger⟩
  | next =>
    obtain ⟨f, taken, rfl⟩ := Option.map_eq_some_iff.mp hs
    have next := Feed.next_cases taken
    obtain ⟨moved, closed⟩ := next.files
    have known : ∀ fe ∈ s.feed.entered, fe.path ≠ [] := fun fe hfe => paths fe (by
      rw [← entries]
      exact List.mem_append_left _ (List.mem_append_left _ hfe))
    have opened : s.closing = .open := by
      by_contra hc
      rw [closing hc] at taken
      cases taken
    have exact' := next.exact ((Feed.exact_withReceiver _).mpr exact) known
    refine ⟨(Feed.exact_withReceiver _).mp exact', by rw [moved]; exact entries,
      by rw [closed]; exact ended, fun hpc => (next.exhausted hpc).resolve_right (by simp),
      fun hc => absurd opened hc, fun fb => ?_⟩
    have ledger' := next.ledger fb
    have total := ledger fb
    simp only [unsent, opened] at total ⊢
    omega
  | answer =>
    simp only [IterRun.step] at hs
    split at hs <;> cases hs
    rename_i b f answered
    obtain ⟨e, rest, hpc, hbuf, hb, rfl⟩ : ∃ e rest, s.feed.pc = .scan ∧ s.feed.it.buf = e :: rest ∧
        b = s.feed.it.changeBlock e ∧
        f = { s.feed with it := { s.feed.it with buf := rest, reqID := s.feed.it.reqID + 1 } } := by
      rcases Feed.answer_cases answered with ⟨e, rest, hpc, hbuf, hb, hf⟩ | ⟨-, hb, -⟩
      · exact ⟨e, rest, hpc, hbuf, Option.some.inj hb, hf⟩
      · cases hb
    rw [hb]
    exact ⟨exact.answer hpc hbuf, entries, ended, exhausted, closing, ledger⟩
  | wait =>
    simp only [IterRun.step] at hs
    split at hs <;> cases hs
    exact ⟨exact, entries, ended, exhausted, closing, ledger⟩
  | receive =>
    simp only [IterRun.step] at hs
    split at hs <;> cases hs
    rename_i fb rest hbuf
    refine ⟨⟨exact.reqID, exact.stage, exact.emitted⟩, entries, ended, exhausted, closing,
      fun fb' => ?_⟩
    have total := ledger fb'
    simp only [unsent, hbuf, List.count_append, List.count_cons, List.count_nil] at total ⊢
    omega
  | close => exact h.closeStep hs

theorem reach_sound (paths : ∀ fe ∈ files, fe.path ≠ [])
    (h : Reach (IterRun.step opts) (start files) s) : s.Sound opts files :=
  h.invariant (start_sound opts files) fun _ _ _ _ hs next => hs.step paths next

end IterRun

section Termination

/-- Steps that reading and returning the blocks of a diff takes at most. -/
def FileDiff.cost (diff : FileDiff) : ℕ :=
  (diff.map fun batch => ((batch.map (splitLargeBlocks · maxBlockLen)).getD []).length + 1).sum

def CephFSBlockIterator.cost (it : CephFSBlockIterator) : ℕ :=
  it.buf.length + (it.curIter.map FileDiff.cost).getD 0

def IterOptions.cost (opts : IterOptions) (fe : ChangedFileEntry) : ℕ :=
  (CephFSBlockIterator.new.enter opts fe).cost

def NextPC.weight : NextPC → ℕ
  | .scan => 12
  | .boundary => 11
  | .drain => 6
  | .nextFile => 5
  | .exhausted => 0

/-- Steps that `Next` takes for the entries in its channel, and that the boundaries it has
emitted take on their way to the consumer. -/
def Feed.cost (opts : IterOptions) (f : Feed) : ℕ :=
  (f.fileCh.buf.map (opts.cost · + 10)).sum + f.it.cost + f.pc.weight +
    3 * f.it.pendingBoundaries.length + 2 * f.boundaryCh.buf.length

theorem CephFSBlockIterator.closeCurrentIter_cost {it : CephFSBlockIterator} (hbuf : it.buf = []) :
    it.closeCurrentIter.cost = 0 := by
  rw [cost, closeCurrentIter_buf hbuf, closeCurrentIter_curIter]
  rfl

theorem CephFSBlockIterator.enter_cost {it : CephFSBlockIterator} (hbuf : it.buf = [])
    (hcur : it.curIter = none) (fe : ChangedFileEntry) :
    (it.enter opts fe).cost = opts.cost fe := by
  unfold IterOptions.cost enter
  split_ifs
  · simp [cost, hbuf, hcur, new]
  · simp [cost, hcur, new]
  · cases opts.newIter fe.path <;> simp [cost, hbuf, hcur, new]

theorem FeedStep.cost_lt (h : FeedStep opts done f f') (hf : f.Exact opts returned) :
    f'.cost opts < f.cost opts := by
  have stage := hf.stage
  cases h with
  | @read blocks rest hpc hbuf hcur hne =>
    simp only [Feed.cost, CephFSBlockIterator.cost, hbuf, hcur, FileDiff.cost, Option.map_some,
      Option.getD_some, List.map_cons, List.sum_cons, List.length_nil]
    omega
  | @endFile it hpc hbuf hno hit =>
    have cost : it.cost ≤ f.it.cost ∧ it.pendingBoundaries = f.it.pendingBoundaries := by
      rcases hit with rfl | rfl
      · exact ⟨le_rfl, rfl⟩
      · exact ⟨(CephFSBlockIterator.closeCurrentIter_cost hbuf).trans_le (Nat.zero_le _),
          f.it.closeCurrentIter_frame.2.2.2⟩
    simp only [Feed.cost, hpc, NextPC.weight, cost.2]
    omega
  | boundary hpc =>
    have bound : (f.emitBoundary opts).it.cost = f.it.cost ∧
        3 * (f.emitBoundary opts).it.pendingBoundaries.length +
          2 * (f.emitBoundary opts).boundaryCh.buf.length ≤
            3 * f.it.pendingBoundaries.length + 2 * f.boundaryCh.buf.length + 3 := by
      unfold Feed.emitBoundary
      split_ifs
      · refine ⟨rfl, ?_⟩
        simp only [Chan.send, List.length_append, List.length_singleton]
        omega
      · refine ⟨rfl, ?_⟩
        simp only [List.length_append, List.length_singleton]
        omega
      · exact ⟨rfl, Nat.le_add_right _ _⟩
    simp only [Feed.cost, hpc, NextPC.weight, (f.emitBoundary_frame opts).2.1, bound.1]
    omega
  | drainOne hpc hp =>
    simp only [Feed.cost, CephFSBlockIterator.cost, hp, Chan.send, List.length_append,
      List.length_cons, List.length_nil]
    omega
  | drained hpc =>
    simp only [Feed.cost, hpc, NextPC.weight]
    omega
  | @enter fe rest hpc hfe =>
    rw [hpc] at stage
    have cost : (f.it.closeCurrentIter.enter opts fe).cost = opts.cost fe :=
      CephFSBlockIterator.enter_cost (f.it.closeCurrentIter_buf stage.1)
        f.it.closeCurrentIter_curIter fe
    have pending : (f.it.closeCurrentIter.enter opts fe).pendingBoundaries =
        f.it.pendingBoundaries :=
      (@CephFSBlockIterator.enter_frame opts f.it.closeCurrentIter fe).2.2.2.trans
        f.it.closeCurrentIter_frame.2.2.2
    simp only [Feed.cost, hpc, hfe, NextPC.weight, cost, pending, List.map_cons, List.sum_cons]
    omega
  | exhaust hpc =>
    rw [hpc] at stage
    have cost : f.exhaust.it.cost = 0 := CephFSBlockIterator.closeCurrentIter_cost stage.1
    have pending : f.exhaust.it.pendingBoundaries = f.it.pendingBoundaries :=
      f.it.closeCurrentIter_frame.2.2.2
    have rest : f.exhaust.pc = .exhausted ∧ f.exhaust.fileCh = f.fileCh ∧
        f.exhaust.boundaryCh = f.boundaryCh := ⟨rfl, rfl, rfl⟩
    simp only [Feed.cost, cost, pending, rest, hpc, NextPC.weight]
    omega

def ClosePC.weight : ClosePC → ℕ
  | .open => 2
  | .flush _ => 1
  | .closed => 0

namespace IterRun

variable {files : List ChangedFileEntry} {s s' : IterRun}

def cost (opts : IterOptions) (s : IterRun) : ℕ :=
  (s.coming.map (opts.cost · + 11)).sum + (!s.feed.fileCh.closed).toNat +
    (s.feed.fileCh.buf.map (opts.cost · + 10)).sum + s.feed.it.cost + s.feed.pc.weight +
    3 * s.unsent.length + 2 * s.feed.boundaryCh.buf.length + (!s.waiting).toNat + s.closing.weight

theorem Sound.cost_lt (h : s.Sound opts files) {a : IterAction} (hs : s.step opts a = some s') :
    s'.cost opts < s.cost opts := by
  cases a with
  | arrive =>
    simp only [IterRun.step] at hs
    split at hs <;> cases hs
    rename_i fe rest hcoming
    simp only [cost, unsent, hcoming, Chan.send, List.map_append, List.map_cons, List.map_nil,
      List.sum_append, List.sum_cons, List.sum_nil]
    omega
  | endFiles =>
    simp only [IterRun.step] at hs
    split at hs <;> cases hs
    rename_i none
    simp only [cost, unsent, Chan.close, none.2, Bool.not_true, Bool.not_false, Bool.toNat_false,
      Bool.toNat_true]
    omega
  | next =>
    obtain ⟨f, taken, rfl⟩ := Option.map_eq_some_iff.mp hs
    have opened : s.closing = .open := by
      by_contra hc
      rw [h.closing hc] at taken
      cases taken
    have next := Feed.next_cases taken
    have lower : f.cost opts < s.feed.cost opts :=
      next.cost_lt ((Feed.exact_withReceiver _).mpr h.exact)
    simp only [Feed.cost] at lower
    simp only [cost, unsent, opened, next.files.2]
    omega
  | answer =>
    simp only [IterRun.step] at hs
    split at hs <;> cases hs
    rename_i b f answered
    rcases Feed.answer_cases answered with ⟨e, rest, hpc, hbuf, -, rfl⟩ | ⟨-, hb, -⟩
    · simp only [cost, unsent, CephFSBlockIterator.cost, hbuf, List.length_cons]
      omega
    · cases hb
  | wait =>
    simp only [IterRun.step] at hs
    split at hs <;> cases hs
    rename_i idle
    simp only [cost, unsent, idle.2, Bool.not_true, Bool.not_false, Bool.toNat_false,
      Bool.toNat_true]
    omega
  | receive =>
    simp only [IterRun.step] at hs
    split at hs <;> cases hs
    rename_i fb rest hbuf
    have waits : (!s.waiting).toNat ≤ 1 := Bool.toNat_le _
    simp only [cost, unsent, hbuf, List.length_cons, Bool.not_false, Bool.toNat_true]
    omega
  | close =>
    simp only [IterRun.step] at hs
    cases hc : s.closing with
    | «open» =>
      simp only [hc, close] at hs
      split at hs <;> cases hs
      rename_i hpc
      rw [h.emitBoundary hpc]
      simp only [cost, unsent, hc, ClosePC.weight]
      omega
    | flush todo =>
      cases todo with
      | nil =>
        simp only [hc, close] at hs
        cases hs
        have less : s.feed.it.closeCurrentIter.buf.length +
            (s.feed.it.closeCurrentIter.curIter.map FileDiff.cost).getD 0 ≤ s.feed.it.cost := by
          unfold CephFSBlockIterator.closeCurrentIter
          split
          · exact Nat.zero_le _
          · exact le_rfl
        simp only [cost, unsent, hc, ClosePC.weight]
        rw [CephFSBlockIterator.cost]
        simp only
        omega
      | cons fb todo =>
        simp only [hc, close] at hs
        split at hs <;> cases hs
        simp only [cost, unsent, hc, Chan.send, ClosePC.weight, List.length_append,
          List.length_cons, List.length_nil]
        omega
    | closed =>
      simp only [hc, close] at hs
      cases hs

theorem complete_of_stuck (stuck : Stuck (IterRun.step opts) s) : s.Complete := by
  -- a run that cannot go on is complete: the consumer waits, so that every boundary finds room
  have empty : s.feed.boundaryCh.buf = [] := by
    cases hb : s.feed.boundaryCh.buf with
    | nil => rfl
    | cons fb rest =>
      have receive := stuck .receive
      simp only [IterRun.step, hb] at receive
      cases receive
  refine ⟨?_, empty⟩
  have waits : s.waiting = true := by
    by_contra idle
    have wait := stuck .wait
    simp [IterRun.step, empty, idle] at wait
  have close := stuck .close
  simp only [IterRun.step] at close
  cases hc : s.closing with
  | closed => rfl
  | flush todo =>
    rw [hc] at close
    cases todo with
    | nil => cases close
    | cons fb todo => simp [IterRun.close, IterRun.opts, IterOptions.withReceiver,
        Feed.room, empty, waits] at close
  | «open» =>
    rw [hc] at close
    have busy : s.feed.pc ≠ .exhausted := fun hpc => by simp [IterRun.close, hpc] at close
    have arrived : s.coming = [] := by
      cases hcoming : s.coming with
      | nil => rfl
      | cons fe rest =>
        have arrive := stuck .arrive
        simp only [IterRun.step, hcoming] at arrive
        cases arrive
    have ended : s.feed.fileCh.closed = true := by
      by_contra opened
      have endFiles := stuck .endFiles
      simp [IterRun.step, arrived, opened] at endFiles
    rcases s.feed.progress (s.opts opts) false with ⟨b, f, answered⟩ | ⟨f, next⟩ | ⟨-, opened⟩
    · rcases Feed.answer_cases answered with ⟨e, rest, -, -, rfl, -⟩ | ⟨hpc, -⟩
      · have answer := stuck .answer
        simp only [IterRun.step, answered] at answer
        cases answer
      · exact absurd hpc busy
    · have moves := stuck .next
      simp [IterRun.step, next] at moves
    · rw [ended] at opened
      cases opened

theorem exists_complete (paths : ∀ fe ∈ files, fe.path ≠ [])
    (h : Reach (IterRun.step opts) (start files) s) :
    ∃ s', Reach (IterRun.step opts) s s' ∧ s'.Complete := by
  obtain ⟨s', reached, -, stuck⟩ := exists_stuck (Sound opts files) (cost opts)
    (fun _ _ _ hs next => hs.step paths next) (fun _ _ _ hs next => hs.cost_lt next)
    (reach_sound paths h)
  exact ⟨s', reached, complete_of_stuck stuck⟩

end IterRun

end Termination

/-- The iterator emits exactly the diff, and one boundary for each file with a block. While
it runs, `Next` has returned a beginning of the blocks; once it has returned false, all of
them; and once `Close` has returned and the consumer is done, the boundaries are received.
Every run can be brought to that point. -/
theorem iterator_emits_diff (opts : IterOptions) (files : List ChangedFileEntry)
    (paths : ∀ fe ∈ files, fe.path ≠ []) (s : IterRun)
    (h : Reach (IterRun.step opts) (IterRun.start files) s) :
    s.returned <+: opts.output files ∧
    (s.feed.pc = .exhausted → s.returned = opts.output files) ∧
    (s.Complete → s.returned = opts.output files ∧ s.received.Perm (opts.boundaries 0 files)) ∧
    ∃ s', Reach (IterRun.step opts) s s' ∧ s'.Complete := by
  have hs := IterRun.reach_sound paths h
  have whole : s.feed.pc = .exhausted → s.feed.entered = files := by
    intro hpc
    obtain ⟨none, closed⟩ := hs.exhausted hpc
    have entries := hs.files
    rw [none, hs.ended closed, List.append_nil, List.append_nil] at entries
    exact entries
  have returned : s.feed.pc = .exhausted → s.returned = opts.output files := by
    intro hpc
    have stage := hs.exact.stage
    rw [hpc] at stage
    rw [stage.2, whole hpc]
  refine ⟨?_, returned, fun complete => ?_, IterRun.exists_complete paths h⟩
  · obtain ⟨shown, rest, content, output⟩ := hs.exact.shown
    rw [output, ← hs.files, IterOptions.output, List.append_assoc, IterOptions.content_append,
      content, List.append_assoc, List.mapIdx_append]
    exact List.prefix_append _ _
  · have hpc := hs.closing (by rw [complete.1]; simp)
    refine ⟨returned hpc, List.perm_iff_count.mpr fun fb => ?_⟩
    have ledger := hs.ledger fb
    have emitted := hs.exact.emitted
    simp only [Feed.past, hpc, whole hpc] at emitted
    rw [emitted] at ledger
    simpa [IterRun.unsent, complete.1, complete.2] using ledger

/-- The diff of the third file ends in an error, the fourth one cannot be opened. -/
def fiveFilesOptions : IterOptions :=
  ⟨fun path => if path = goString "c" then some [some ⟨[⟨0, 2⟩, ⟨5, 1⟩], 2, le_rfl⟩, none] else
    none, 4, 1⟩

def fiveFiles : List ChangedFileEntry :=
  [⟨goString "a", 0⟩, ⟨goString "b", 3⟩, ⟨goString "c", 9⟩, ⟨goString "d", 9⟩, ⟨goString "e", 2⟩]

/-- Nothing is received before `Close`, and two boundaries overflow the channel. -/
def fiveFilesSchedule : List IterAction :=
  repeats [(5, .arrive), (1, .endFiles), (8, .next), (1, .answer), (5, .next), (2, .answer),
    (8, .next), (1, .answer), (4, .next), (1, .close), (1, .receive), (1, .close), (1, .receive),
    (1, .close), (1, .receive), (1, .close)]

theorem iterator_emits_diff_fiveFiles : ∃ s : IterRun,
    s.returned = [⟨goString "b", 0, 3, 0, 3, false⟩, ⟨goString "c", 0, 2, 1, 9, false⟩,
      ⟨goString "c", 5, 1, 2, 9, false⟩, ⟨goString "e", 0, 2, 3, 2, false⟩] ∧
    s.received.Perm [⟨goString "b", 0, 3⟩, ⟨goString "c", 2, 9⟩, ⟨goString "e", 3, 2⟩] := by
  have run : ((exec (IterRun.step fiveFilesOptions) (IterRun.start fiveFiles) fiveFilesSchedule).any
      fun s => s.closing = .closed ∧ s.feed.boundaryCh.buf = []) = true := by
    decide +kernel
  obtain ⟨s, reached, hs⟩ := Reach.of_exec_any run
  simp only [decide_eq_true_eq] at hs
  obtain ⟨-, -, all, -⟩ := iterator_emits_diff fiveFilesOptions fiveFiles
    (by decide +kernel) s reached
  have output : fiveFilesOptions.output fiveFiles = [⟨goString "b", 0, 3, 0, 3, false⟩,
      ⟨goString "c", 0, 2, 1, 9, false⟩, ⟨goString "c", 5, 1, 2, 9, false⟩,
      ⟨goString "e", 0, 2, 3, 2, false⟩] := by decide +kernel
  have boundaries : fiveFilesOptions.boundaries 0 fiveFiles =
      [⟨goString "b", 0, 3⟩, ⟨goString "c", 2, 9⟩, ⟨goString "e", 3, 2⟩] := by decide +kernel
  rw [output, boundaries] at all
  exact ⟨s, all hs⟩

end CephVolsync.CephFs
