import CephVolsync.Library.Extents
import CephVolsync.Pipeline.Machine

/-! The block iterator of the CephFS source (`internal/worker/cephfs/block_iterator.go`) in
channel mode: it flattens the block diffs of the files that arrive on a channel and puts a
boundary on another channel behind the last block of each file.

`Next` is cut at its channel operations, because the consumer of the boundaries runs
beside it. What a file's diff iterator returns is a script: `none` when it cannot be
opened, and otherwise the results of `Read` while `More` holds. -/

namespace CephVolsync.CephFs

open Extents Pipeline

def maxBlockLen : ℕ := 16 * 1024 * 1024

/-- A Go slice of changed blocks with the capacity of the array behind it. -/
structure Slice where
  elems : List Extent
  cap : ℕ
  length_le : elems.length ≤ cap

/-- The loop of `splitLargeBlocks`: the cells of the array that it still reads, and `out`,
which starts as `blocks[:0]` in the same array. -/
structure Splitting where
  cells : List Extent
  out : List Extent

/-- `append(out, b)`: within the capacity the block overwrites a cell of the shared array,
beyond it `out` has moved to an array of its own. -/
def Splitting.append (cap : ℕ) (s : Splitting) (b : Extent) : Splitting :=
  ⟨if s.out.length < cap then s.cells.set s.out.length b else s.cells, s.out ++ [b]⟩

def splitBlock (maxLen : ℕ) (b : Extent) : List Extent :=
  if b.len ≤ maxLen then [b] else pieces maxLen b.offset b.len

def Splitting.turn (cap maxLen : ℕ) (s : Splitting) (i : ℕ) : Splitting :=
  match s.cells[i]? with
  | some b => (splitBlock maxLen b).foldl (Splitting.append cap) s
  | none => s

def splitLargeBlocks (blocks : Slice) (maxLen : ℕ) : List Extent :=
  if blocks.elems.any fun b => b.len > maxLen then
    ((List.range blocks.elems.length).foldl (Splitting.turn blocks.cap maxLen)
      ⟨blocks.elems, []⟩).out
  else blocks.elems

structure ChangedFileEntry where
  path : GoString
  size : ℤ
  deriving DecidableEq, Repr

structure FileBoundary where
  path : GoString
  lastReqID : ℕ
  totalSize : ℤ
  deriving DecidableEq, Repr

def FileBoundary.file (fb : FileBoundary) : ChangedFileEntry := ⟨fb.path, fb.totalSize⟩

/-- What `Read` returns, call by call; `none` is an error. -/
abbrev FileDiff := List (Option Slice)

/-- `buf` holds the blocks from `bufIdx` on. -/
structure CephFSBlockIterator where
  curIter : Option FileDiff
  curFile : GoString
  buf : List Extent
  reqID : ℕ
  fileStartReqID : ℕ
  totalSize : ℤ
  pendingBoundaries : List FileBoundary
  failed : Bool

structure IterOptions where
  newIter : GoString → Option FileDiff
  smallFileThreshold : ℤ
  boundaryCap : ℕ

/-- A send also succeeds when a receiver waits: it takes the value at once, so that the buffer
has one place more until it has gone on. -/
def IterOptions.withReceiver (opts : IterOptions) (waiting : Bool) : IterOptions :=
  { opts with boundaryCap := opts.boundaryCap + waiting.toNat }

namespace CephFSBlockIterator

def new : CephFSBlockIterator := ⟨none, [], [], 0, 0, 0, [], false⟩

def closeCurrentIter (it : CephFSBlockIterator) : CephFSBlockIterator :=
  if it.curIter.isSome then { it with curIter := none, buf := [] } else it

def emitted (it : CephFSBlockIterator) : Bool := it.curFile ≠ [] ∧ it.reqID > it.fileStartReqID

def boundary (it : CephFSBlockIterator) : FileBoundary := ⟨it.curFile, it.reqID - 1, it.totalSize⟩

/-- The rest of the turn of `Next` in which `nextFile` has returned an entry. -/
def enter (opts : IterOptions) (it : CephFSBlockIterator) (fe : ChangedFileEntry) :
    CephFSBlockIterator :=
  let it := { it with totalSize := fe.size, curFile := fe.path, fileStartReqID := it.reqID }
  if fe.size = 0 then it
  else if opts.smallFileThreshold > 0 ∧ fe.size > 0 ∧ fe.size ≤ opts.smallFileThreshold then
    { it with buf := splitLargeBlocks ⟨[⟨0, uint64 fe.size⟩], 1, le_rfl⟩ maxBlockLen }
  else
    match opts.newIter fe.path with
    | none => it
    | some diff => { it with curIter := some diff }

/-- The block that `Next` returns. `offset` stands for the 64 bits of `int64(b.Offset)`, a negative
number from `2 ^ 63` on, where no file reaches. -/
def changeBlock (it : CephFSBlockIterator) (b : Extent) : ChangeBlock :=
  { filePath := it.curFile, offset := b.offset, len := b.len, reqID := it.reqID,
    totalSize := it.totalSize, isZero := false }

end CephFSBlockIterator

/-- Where a call of `Next` stands in its loop; `exhausted` once it has returned false. -/
inductive NextPC where
  | scan
  | boundary
  | drain
  | nextFile
  | exhausted
  deriving DecidableEq, Repr

/-- The iterator with the two channels it works on, and the history of the files it has
entered and the boundaries it has emitted. -/
structure Feed where
  it : CephFSBlockIterator
  pc : NextPC
  fileCh : Chan ChangedFileEntry
  boundaryCh : Chan FileBoundary
  entered : List ChangedFileEntry
  emitted : List FileBoundary

namespace Feed

def new (files : Chan ChangedFileEntry) : Feed := ⟨.new, .scan, files, .new, [], []⟩

def room (opts : IterOptions) (f : Feed) : Bool := f.boundaryCh.buf.length < opts.boundaryCap

def emitBoundary (opts : IterOptions) (f : Feed) : Feed :=
  let fb := f.it.boundary
  if f.it.emitted then
    if f.room opts then
      { f with boundaryCh := f.boundaryCh.send fb, emitted := f.emitted ++ [fb] }
    else
      { f with
        it := { f.it with pendingBoundaries := f.it.pendingBoundaries ++ [fb] }
        emitted := f.emitted ++ [fb] }
  else f

def exhaust (f : Feed) : Feed :=
  { f with it := { f.it.closeCurrentIter with curFile := [] }, pc := .exhausted }

/-- One step of `Next` that does not return a block; `done` is the iterator's context. -/
def next (opts : IterOptions) (done : Bool) (f : Feed) : NextPC → Branch → Option Feed
  | .scan, .ready =>
    if f.it.buf ≠ [] then none
    else
      match f.it.curIter with
      | some (some blocks :: rest) =>
        if blocks.elems.length = 0 then
          some { f with it := f.it.closeCurrentIter, pc := .boundary }
        else
          some { f with
            it := { f.it with curIter := some rest, buf := splitLargeBlocks blocks maxBlockLen } }
      | some (none :: _) => some { f with it := f.it.closeCurrentIter, pc := .boundary }
      | _ => some { f with pc := .boundary }
  | .boundary, .ready => some { f.emitBoundary opts with pc := .drain }
  | .drain, .ready =>
    match f.it.pendingBoundaries with
    | fb :: rest =>
      if f.room opts then
        some { f with
          it := { f.it with pendingBoundaries := rest }, boundaryCh := f.boundaryCh.send fb }
      else some { f with pc := .nextFile }
    | [] => some { f with pc := .nextFile }
  | .nextFile, .ready =>
    match f.fileCh.buf with
    | fe :: rest =>
      some { f with
        it := f.it.closeCurrentIter.enter opts fe
        pc := .scan
        fileCh := { f.fileCh with buf := rest }
        entered := f.entered ++ [fe] }
    | [] => if f.fileCh.closed then some f.exhaust else none
  | .nextFile, .ctxDone => if done then some f.exhaust else none
  | _, _ => none

/-- `Next` returns: the first buffered block, or nothing once the files are exhausted. -/
def answer (f : Feed) : Option (Option ChangeBlock × Feed) :=
  match f.pc, f.it.buf with
  | .scan, b :: rest =>
    some (some (f.it.changeBlock b),
      { f with it := { f.it with buf := rest, reqID := f.it.reqID + 1 } })
  | .exhausted, _ => some (none, f)
  | _, _ => none

end Feed

theorem splitBlock_ne_nil (maxLen : ℕ) (b : Extent) : splitBlock maxLen b ≠ [] := by
  unfold splitBlock
  split
  · exact List.cons_ne_nil _ _
  · rw [pieces_pos (by omega)]
    exact List.cons_ne_nil _ _

theorem Splitting.foldl_append_out (cap : ℕ) (bs : List Extent) (s : Splitting) :
    (bs.foldl (Splitting.append cap) s).out = s.out ++ bs := by
  induction bs generalizing s with
  | nil => simp
  | cons b rest ih => simp [ih, Splitting.append]

theorem Splitting.turn_out_prefix (cap maxLen : ℕ) (s : Splitting) (i : ℕ) :
    s.out <+: (s.turn cap maxLen i).out := by
  unfold Splitting.turn
  split
  · rw [Splitting.foldl_append_out]
    exact List.prefix_append _ _
  · exact List.prefix_rfl

theorem Splitting.turns_out_prefix (cap maxLen : ℕ) (is : List ℕ) (s : Splitting) :
    s.out <+: (is.foldl (Splitting.turn cap maxLen) s).out := by
  induction is generalizing s with
  | nil => exact List.prefix_rfl
  | cons i rest ih => exact (s.turn_out_prefix cap maxLen i).trans (ih _)

theorem splitLargeBlocks_ne_nil {blocks : Slice} (h : blocks.elems ≠ []) (maxLen : ℕ) :
    splitLargeBlocks blocks maxLen ≠ [] := by
  unfold splitLargeBlocks
  split
  · obtain ⟨b, rest, hb⟩ := List.exists_cons_of_ne_nil h
    have first : (Splitting.turn blocks.cap maxLen ⟨blocks.elems, []⟩ 0).out =
        splitBlock maxLen b := by
      simp [Splitting.turn, hb, Splitting.foldl_append_out]
    rw [hb, List.length_cons, List.range_succ_eq_map, List.foldl_cons, ← hb]
    have grows := Splitting.turns_out_prefix blocks.cap maxLen
      ((List.range rest.length).map Nat.succ)
      (Splitting.turn blocks.cap maxLen ⟨blocks.elems, []⟩ 0)
    rw [first] at grows
    intro hnil
    rw [hnil] at grows
    exact splitBlock_ne_nil maxLen b (List.prefix_nil.mp grows)
  · exact h

inductive FeedStep (opts : IterOptions) (done : Bool) (f : Feed) : Feed → Prop
  | read {blocks : Slice} {rest : FileDiff} : f.pc = .scan → f.it.buf = [] →
      f.it.curIter = some (some blocks :: rest) → blocks.elems ≠ [] →
      FeedStep opts done f { f with
        it := { f.it with curIter := some rest, buf := splitLargeBlocks blocks maxBlockLen } }
  | endFile {it : CephFSBlockIterator} : f.pc = .scan → f.it.buf = [] →
      (∀ blocks rest, f.it.curIter = some (some blocks :: rest) → blocks.elems = []) →
      it = f.it ∨ it = f.it.closeCurrentIter →
      FeedStep opts done f { f with it := it, pc := .boundary }
  | boundary : f.pc = .boundary → FeedStep opts done f { f.emitBoundary opts with pc := .drain }
  | drainOne {fb : FileBoundary} {rest : List FileBoundary} : f.pc = .drain →
      f.it.pendingBoundaries = fb :: rest → f.room opts = true →
      FeedStep opts done f { f with
        it := { f.it with pendingBoundaries := rest }, boundaryCh := f.boundaryCh.send fb }
  | drained : f.pc = .drain → FeedStep opts done f { f with pc := .nextFile }
  | enter {fe : ChangedFileEntry} {rest : List ChangedFileEntry} : f.pc = .nextFile →
      f.fileCh.buf = fe :: rest →
      FeedStep opts done f { f with
        it := f.it.closeCurrentIter.enter opts fe
        pc := .scan
        fileCh := { f.fileCh with buf := rest }
        entered := f.entered ++ [fe] }
  | exhaust : f.pc = .nextFile → (f.fileCh.buf = [] ∧ f.fileCh.closed = true) ∨ done = true →
      FeedStep opts done f f.exhaust

theorem Feed.next_cases {opts : IterOptions} {done : Bool} {f f' : Feed} {b : Branch}
    (h : f.next opts done f.pc b = some f') : FeedStep opts done f f' := by
  cases hpc : f.pc <;> cases b <;> rw [hpc] at h <;> simp only [Feed.next, reduceCtorEq] at h
  case scan.ready =>
    split at h
    · cases h
    · rename_i hbuf
      have hbuf : f.it.buf = [] := by simpa using hbuf
      split at h
      · rename_i blocks rest hcur
        split at h <;> cases h
        · rename_i hlen
          refine .endFile hpc hbuf (fun blocks' rest' hcur' => ?_) (.inr rfl)
          rw [hcur] at hcur'
          cases hcur'
          exact List.eq_nil_of_length_eq_zero hlen
        · rename_i hlen
          exact .read hpc hbuf hcur (fun hnil => hlen (by simp [hnil]))
      · rename_i hcur
        cases h
        exact .endFile hpc hbuf (by simp [hcur]) (.inr rfl)
      · rename_i hne _
        cases h
        exact .endFile hpc hbuf (fun blocks rest hcur => absurd hcur (hne blocks rest)) (.inl rfl)
  case boundary.ready => cases h; exact .boundary hpc
  case drain.ready =>
    split at h
    · split at h <;> cases h
      · exact .drainOne hpc ‹_› ‹_›
      · exact .drained hpc
    · cases h; exact .drained hpc
  case nextFile.ready =>
    split at h
    · cases h; exact .enter hpc ‹_›
    · split at h <;> cases h
      exact .exhaust hpc (.inl ⟨‹_›, ‹_›⟩)
  case nextFile.ctxDone =>
    split at h <;> cases h
    exact .exhaust hpc (.inr ‹_›)

theorem Feed.answer_cases {f f' : Feed} {b : Option ChangeBlock} (h : f.answer = some (b, f')) :
    (∃ e rest, f.pc = .scan ∧ f.it.buf = e :: rest ∧ b = some (f.it.changeBlock e) ∧
      f' = { f with it := { f.it with buf := rest, reqID := f.it.reqID + 1 } }) ∨
    (f.pc = .exhausted ∧ b = none ∧ f' = f) := by
  unfold Feed.answer at h
  split at h <;> cases h
  · exact .inl ⟨_, _, ‹_›, ‹_›, rfl, rfl⟩
  · exact .inr ⟨‹_›, rfl, rfl⟩

theorem Feed.progress (opts : IterOptions) (done : Bool) (f : Feed) :
    (∃ b f', f.answer = some (b, f')) ∨ (∃ f', f.next opts done f.pc .ready = some f') ∨
      (f.fileCh.buf = [] ∧ f.fileCh.closed = false) := by
  cases hpc : f.pc with
  | scan =>
    cases hb : f.it.buf with
    | cons e rest => exact .inl ⟨_, _, by simp only [Feed.answer, hpc, hb]; rfl⟩
    | nil =>
      refine .inr (.inl ?_)
      simp only [Feed.next, hb, ne_eq, not_true_eq_false, if_false]
      split
      · split <;> exact ⟨_, rfl⟩
      · exact ⟨_, rfl⟩
      · exact ⟨_, rfl⟩
  | boundary => exact .inr (.inl ⟨_, rfl⟩)
  | drain =>
    refine .inr (.inl ?_)
    simp only [Feed.next]
    split
    · split <;> exact ⟨_, rfl⟩
    · exact ⟨_, rfl⟩
  | nextFile =>
    cases hb : f.fileCh.buf with
    | cons fe rest => exact .inr (.inl ⟨_, by simp only [Feed.next, hb]; rfl⟩)
    | nil =>
      cases hc : f.fileCh.closed with
      | true => exact .inr (.inl ⟨_, by simp only [Feed.next, hb, hc, if_true]; rfl⟩)
      | false => exact .inr (.inr ⟨rfl, rfl⟩)
  | exhausted => exact .inl ⟨none, f, by simp only [Feed.answer, hpc]⟩

end CephVolsync.CephFs
