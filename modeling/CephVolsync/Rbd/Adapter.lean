import CephVolsync.Library.Extents
import CephVolsync.Pipeline.Machine

/-! From a diff to blocks: `RBDBlockDiffIterator` (`internal/ceph/rbd/rbd.go`) and
`rbdIterAdapter` (`internal/worker/rbd/source.go`).

The diff iterator is the queue of extents that `DiffIterateByID` hands to its callback,
and how that call ends. The adapter is translated field by field; over it stands the plan
of a diff: the segments (data extents without their overlaps, and in full-diff mode the
gaps as zero segments) cut into pieces. -/

namespace CephVolsync.Rbd

open Extents Pipeline

def devicePath : GoString := goString "/dev/block"

/-- The receiving side of `blocksChan` and the value that `doneChan` will carry. Offsets
and lengths are below `2^63`, so the conversions to `int64` keep them. -/
structure RBDBlockDiffIterator where
  blocks : List Extent
  iterErr : Bool
  deriving DecidableEq, Repr

/-- `Next` reports the end when `blocksChan` is closed, whatever closed it. -/
def RBDBlockDiffIterator.next (it : RBDBlockDiffIterator) : Option Extent × RBDBlockDiffIterator :=
  match it.blocks with
  | [] => (none, it)
  | b :: rest => (some b, { it with blocks := rest })

/-- `Close` drains the channel and is the only call that returns the error of the diff;
`imageErr` is the outcome of `image.Close`. -/
def RBDBlockDiffIterator.close (it : RBDBlockDiffIterator) (imageErr : Bool) :
    Bool × RBDBlockDiffIterator :=
  (it.iterErr || imageErr, { it with blocks := [] })

structure RbdIterAdapter where
  iter : RBDBlockDiffIterator
  reqID : ℕ
  totalSize : ℕ
  chunkSize : ℕ
  isFullDiff : Bool
  currentPos : ℕ
  remOffset : ℕ
  remLen : ℕ
  remIsZero : Bool
  hasRem : Bool
  pendingOffset : ℕ
  pendingLen : ℕ
  hasPending : Bool
  iterDone : Bool
  deriving DecidableEq, Repr

namespace RbdIterAdapter

def new (iter : RBDBlockDiffIterator) (totalSize chunkSize : ℕ) (isFullDiff : Bool) :
    RbdIterAdapter :=
  { iter, reqID := 0, totalSize, chunkSize, isFullDiff, currentPos := 0, remOffset := 0,
    remLen := 0, remIsZero := false, hasRem := false, pendingOffset := 0, pendingLen := 0,
    hasPending := false, iterDone := false }

def setRem (a : RbdIterAdapter) (offset len : ℕ) (isZero : Bool) : RbdIterAdapter :=
  { a with remOffset := offset, remLen := len, remIsZero := isZero, hasRem := true }

/-- The loop of `loadNext` over what the diff iterator still returns. -/
def loadLoop (a : RbdIterAdapter) : List Extent → Bool × RbdIterAdapter
  | [] =>
    if a.iterDone then (false, a)
    else
      let a := { a with iter := { a.iter with blocks := [] }, iterDone := true }
      if a.isFullDiff ∧ a.currentPos < a.totalSize then
        (true, a.setRem a.currentPos (a.totalSize - a.currentPos) true)
      else (false, a)
  | cb :: rest =>
    if a.iterDone then (false, a)
    else
      let a := { a with iter := { a.iter with blocks := rest } }
      if a.isFullDiff ∧ cb.offset > a.currentPos then
        (true, { a with
          pendingOffset := cb.offset, pendingLen := cb.len, hasPending := true }.setRem
          a.currentPos (cb.offset - a.currentPos) true)
      else if cb.offset < a.currentPos then
        if a.currentPos - cb.offset ≥ cb.len then a.loadLoop rest
        else
          (true, a.setRem (cb.offset + (a.currentPos - cb.offset))
            (cb.len - (a.currentPos - cb.offset)) false)
      else (true, a.setRem cb.offset cb.len false)

theorem loadLoop_next (a : RbdIterAdapter) : a.loadLoop a.iter.blocks =
    if a.iterDone then (false, a)
    else
      let (cb, iter) := a.iter.next
      let a := { a with iter }
      match cb with
      | none =>
        let a := { a with iterDone := true }
        if a.isFullDiff ∧ a.currentPos < a.totalSize then
          (true, a.setRem a.currentPos (a.totalSize - a.currentPos) true)
        else (false, a)
      | some cb =>
        if a.isFullDiff ∧ cb.offset > a.currentPos then
          (true, { a with
            pendingOffset := cb.offset, pendingLen := cb.len, hasPending := true }.setRem
            a.currentPos (cb.offset - a.currentPos) true)
        else if cb.offset < a.currentPos then
          let overlap := a.currentPos - cb.offset
          if overlap ≥ cb.len then a.loadLoop a.iter.blocks
          else (true, a.setRem (cb.offset + overlap) (cb.len - overlap) false)
        else (true, a.setRem cb.offset cb.len false) := by
  rcases a with ⟨⟨blocks, iterErr⟩, _⟩
  cases blocks <;> rfl

def loadNext (a : RbdIterAdapter) : Bool × RbdIterAdapter :=
  if a.hasPending then
    (true, { a.setRem a.pendingOffset a.pendingLen false with hasPending := false })
  else a.loadLoop a.iter.blocks

def emitFromRemainder (a : RbdIterAdapter) : ChangeBlock × RbdIterAdapter :=
  let emitLen := if a.chunkSize > 0 ∧ a.remLen > a.chunkSize then a.chunkSize else a.remLen
  (⟨devicePath, a.remOffset, emitLen, a.reqID, a.totalSize, a.remIsZero⟩,
    { a with
      reqID := a.reqID + 1
      remOffset := a.remOffset + emitLen
      remLen := a.remLen - emitLen
      hasRem := decide (a.remLen - emitLen > 0)
      currentPos := a.remOffset + emitLen })

def next (a : RbdIterAdapter) : Option ChangeBlock × RbdIterAdapter :=
  if a.hasRem then (some a.emitFromRemainder.1, a.emitFromRemainder.2)
  else
    let l := a.loadNext
    if l.1 then (some l.2.emitFromRemainder.1, l.2.emitFromRemainder.2) else (none, l.2)

end RbdIterAdapter

structure Segment where
  range : Extent
  isZero : Bool
  deriving DecidableEq, Repr

def segmentOf (b : ChangeBlock) : Segment := ⟨⟨b.offset, b.len⟩, b.isZero⟩

def segments (full : Bool) (total : ℕ) : ℕ → List Extent → List Segment
  | pos, [] => if full ∧ pos < total then [⟨⟨pos, total - pos⟩, true⟩] else []
  | pos, e :: rest =>
    if full ∧ e.offset > pos then
      ⟨⟨pos, e.offset - pos⟩, true⟩ :: ⟨e, false⟩ :: segments full total e.stop rest
    else if e.stop ≤ pos then segments full total pos rest
    else ⟨⟨max e.offset pos, e.stop - max e.offset pos⟩, false⟩ :: segments full total e.stop rest

def cut (size : ℕ) (segs : List Segment) : List Segment :=
  segs.flatMap fun s => (pieces size s.range.offset s.range.len).map fun p => ⟨p, s.isZero⟩

def plan (full : Bool) (total size : ℕ) (extents : List Extent) : List Segment :=
  cut size (segments full total 0 extents)

/-- The extents of a diff: sorted by offset, not empty, inside the volume. -/
structure Diff (total : ℕ) (extents : List Extent) : Prop where
  sorted : extents.Pairwise fun e f => e.offset ≤ f.offset
  nonempty : ∀ e ∈ extents, 0 < e.len
  inside : ∀ e ∈ extents, e.stop ≤ total

theorem Diff.tail {total : ℕ} {e : Extent} {rest : List Extent} (h : Diff total (e :: rest)) :
    Diff total rest :=
  ⟨(List.pairwise_cons.mp h.sorted).2, fun f hf => h.nonempty f (List.mem_cons_of_mem _ hf),
    fun f hf => h.inside f (List.mem_cons_of_mem _ hf)⟩

theorem Diff.uncovered {total : ℕ} {e : Extent} {rest : List Extent} (h : Diff total (e :: rest))
    {x : ℕ} (hx : x < e.offset) : ¬Covered (e :: rest) x := by
  rintro ⟨f, hf, hlo, -⟩
  rcases List.mem_cons.mp hf with rfl | hf
  · omega
  · have := (List.pairwise_cons.mp h.sorted).1 f hf
    omega

/-- A segment of the plan for `extents`: inside the volume, not empty, and a zero segment
exactly where no extent lies. -/
structure Segment.Fits (full : Bool) (total pos : ℕ) (extents : List Extent) (s : Segment) :
    Prop where
  start : pos ≤ s.range.offset
  stop : s.range.stop ≤ total
  nonempty : 0 < s.range.len
  zero : s.isZero = true → full = true ∧ ∀ x, s.range.Contains x → ¬Covered extents x
  data : s.isZero = false → ∀ x, s.range.Contains x → Covered extents x

theorem Segment.Fits.cons {full : Bool} {total pos pos' : ℕ} {e : Extent} {rest : List Extent}
    {s : Segment} (h : s.Fits full total pos' rest) (hp : pos ≤ pos') (he : e.stop ≤ pos') :
    s.Fits full total pos (e :: rest) := by
  refine ⟨hp.trans h.start, h.stop, h.nonempty, fun hz => ⟨(h.zero hz).1, fun x hx => ?_⟩,
    fun hz x hx => covered_cons.mpr (.inr (h.data hz x hx))⟩
  rw [covered_cons, not_or]
  refine ⟨fun hc => ?_, (h.zero hz).2 x hx⟩
  have := hc.2
  have := hx.1
  have := h.start
  omega

theorem segments_fit {full : Bool} {total pos : ℕ} {extents : List Extent} (h : Diff total extents)
    {s : Segment} (hs : s ∈ segments full total pos extents) : s.Fits full total pos extents := by
  induction extents generalizing pos with
  | nil =>
    rw [segments] at hs
    split at hs
    · rename_i hc
      rw [List.mem_singleton] at hs
      subst hs
      exact ⟨le_rfl, by simp only [Extent.stop]; omega, by simp only; omega,
        fun _ => ⟨hc.1, by simp [Covered]⟩, by simp⟩
    · simp at hs
  | cons e rest ih =>
    have hlen := h.nonempty e List.mem_cons_self
    have hin := h.inside e List.mem_cons_self
    rw [segments] at hs
    split at hs
    · rename_i hc
      rcases List.mem_cons.mp hs with rfl | hs
      · refine ⟨le_rfl, ?_, ?_, fun _ => ⟨hc.1, fun x hx => h.uncovered ?_⟩, by simp⟩
        · simp only [Extent.stop] at hin ⊢; omega
        · simp only; omega
        · have := hx.2; simp only [Extent.stop] at this; omega
      · rcases List.mem_cons.mp hs with rfl | hs
        · exact ⟨le_of_lt hc.2, hin, hlen, by simp, fun _ x hx => covered_cons.mpr (.inl hx)⟩
        · refine (ih h.tail hs).cons ?_ le_rfl
          simp only [Extent.stop]; omega
    · split at hs
      · exact (ih h.tail hs).cons le_rfl ‹_›
      · rename_i hgt
        rcases List.mem_cons.mp hs with rfl | hs
        · have hstop : max e.offset pos + (e.stop - max e.offset pos) = e.stop := by
            simp only [Extent.stop] at hgt ⊢; omega
          refine ⟨le_max_right _ _, by rw [Extent.stop, hstop]; exact hin, ?_, by simp, ?_⟩
          · simp only [Extent.stop] at hgt ⊢; omega
          · intro _ x hx
            obtain ⟨hlo, hhi⟩ := hx
            rw [Extent.stop, hstop] at hhi
            exact covered_cons.mpr (.inl ⟨(le_max_left _ _).trans hlo, hhi⟩)
        · exact (ih h.tail hs).cons (by omega) le_rfl

theorem segments_cover {full : Bool} {total pos : ℕ} {extents : List Extent}
    (h : Diff total extents) {x : ℕ} (hx : pos ≤ x)
    (hc : Covered extents x ∨ (full = true ∧ x < total)) :
    ∃ s ∈ segments full total pos extents, s.range.Contains x := by
  induction extents generalizing pos with
  | nil =>
    obtain ⟨hf, hlt⟩ := hc.resolve_left (by simp [Covered])
    rw [segments, if_pos ⟨hf, by omega⟩]
    exact ⟨_, List.mem_singleton_self _, hx, by simp only [Extent.stop]; omega⟩
  | cons e rest ih =>
    have rest_case : e.stop ≤ x → Covered rest x ∨ (full = true ∧ x < total) := by
      intro hle
      refine hc.imp (fun hcov => ?_) id
      refine (covered_cons.mp hcov).resolve_left fun hin => ?_
      have := hin.2
      omega
    rw [segments]
    split
    · by_cases h1 : x < e.offset
      · exact ⟨_, List.mem_cons_self, hx, by simp only [Extent.stop]; omega⟩
      · by_cases h2 : x < e.stop
        · exact ⟨⟨e, false⟩, by simp, Nat.le_of_not_lt h1, h2⟩
        · obtain ⟨s, hs, hcon⟩ := ih h.tail (Nat.le_of_not_lt h2) (rest_case (Nat.le_of_not_lt h2))
          exact ⟨s, List.mem_cons_of_mem _ (List.mem_cons_of_mem _ hs), hcon⟩
    · rename_i hgap
      split
      · exact ih h.tail hx (rest_case (by omega))
      · rename_i hgt
        by_cases h2 : x < e.stop
        · refine ⟨_, List.mem_cons_self, ?_, ?_⟩
          · have hoff : e.offset ≤ x := by
              by_contra hlt
              rcases hc with hcov | ⟨hf, -⟩
              · exact h.uncovered (by omega) hcov
              · exact hgap ⟨hf, by omega⟩
            exact max_le hoff hx
          · simp only [Extent.stop] at h2 hgt ⊢; omega
        · obtain ⟨s, hs, hcon⟩ := ih h.tail (Nat.le_of_not_lt h2) (rest_case (Nat.le_of_not_lt h2))
          exact ⟨s, List.mem_cons_of_mem _ hs, hcon⟩

theorem mem_cut {size : ℕ} {segs : List Segment} {t : Segment} :
    t ∈ cut size segs ↔ ∃ s ∈ segs, t.range ∈ pieces size s.range.offset s.range.len ∧
      t.isZero = s.isZero := by
  simp only [cut, List.mem_flatMap, List.mem_map]
  constructor
  · rintro ⟨s, hs, p, hp, rfl⟩
    exact ⟨s, hs, hp, rfl⟩
  · rintro ⟨s, hs, hp, hz⟩
    exact ⟨s, hs, t.range, hp, by rw [← hz]⟩

theorem plan_fits {full : Bool} {total size : ℕ} {extents : List Extent} (h : Diff total extents)
    (hsize : 0 < size) {t : Segment} (ht : t ∈ plan full total size extents) :
    t.Fits full total 0 extents ∧ t.range.len ≤ size := by
  obtain ⟨s, hs, hp, hz⟩ := mem_cut.mp ht
  have fits := segments_fit h hs
  obtain ⟨hlo, hhi, hpos, hle⟩ := pieces_bounds hp
  have sub : ∀ x, t.range.Contains x → s.range.Contains x := by
    rintro x ⟨h1, h2⟩
    exact ⟨hlo.trans h1, h2.trans_le hhi⟩
  exact ⟨⟨Nat.zero_le _, hhi.trans fits.stop, hpos,
    fun ht => ⟨(fits.zero (hz ▸ ht)).1, fun x hx => (fits.zero (hz ▸ ht)).2 x (sub x hx)⟩,
    fun ht x hx => fits.data (hz ▸ ht) x (sub x hx)⟩, hle hsize⟩

theorem plan_covers {full : Bool} {total size : ℕ} {extents : List Extent} (h : Diff total extents)
    {x : ℕ} (hc : Covered extents x ∨ (full = true ∧ x < total)) :
    ∃ t ∈ plan full total size extents, t.range.Contains x := by
  obtain ⟨s, hs, hlo, hhi⟩ := segments_cover h (Nat.zero_le x) hc
  obtain ⟨p, hp, hcon⟩ := pieces_cover size hlo hhi
  exact ⟨⟨p, s.isZero⟩, mem_cut.mpr ⟨s, hs, hp, rfl⟩, hcon⟩

namespace RbdIterAdapter

def endPos (a : RbdIterAdapter) : ℕ :=
  if a.hasPending then a.pendingOffset + a.pendingLen
  else if a.hasRem then a.remOffset + a.remLen
  else a.currentPos

def remaining (a : RbdIterAdapter) : List Segment :=
  (if a.hasRem then [⟨⟨a.remOffset, a.remLen⟩, a.remIsZero⟩] else []) ++
  (if a.hasPending then [⟨⟨a.pendingOffset, a.pendingLen⟩, false⟩] else []) ++
  (if a.iterDone then [] else segments a.isFullDiff a.totalSize a.endPos a.iter.blocks)

structure Loaded (a : RbdIterAdapter) : Prop where
  rem : a.hasRem = true → 0 < a.remLen
  pending : a.hasPending = true → 0 < a.pendingLen
  done : a.iterDone = true → a.hasPending = false
  extents : ∀ e ∈ a.iter.blocks, 0 < e.len

def SameRun (a a' : RbdIterAdapter) : Prop :=
  a'.totalSize = a.totalSize ∧ a'.chunkSize = a.chunkSize ∧ a'.isFullDiff = a.isFullDiff ∧
    a'.reqID = a.reqID

/-- Loading changes neither the segments that are left nor the run, and fails only when
nothing is left. -/
structure Loads (a a' : RbdIterAdapter) (ok : Bool) (left : List Segment) : Prop where
  same : a.SameRun a'
  remaining : a'.remaining = left
  loaded : a'.Loaded
  hasRem : a'.hasRem = ok
  empty : ok = false → left = []

theorem loadLoop_loads (a : RbdIterAdapter) (bs : List Extent) (hr : a.hasRem = false)
    (hp : a.hasPending = false) (hd : a.iterDone = false) (hpos : ∀ e ∈ bs, 0 < e.len) :
    Loads a (a.loadLoop bs).2 (a.loadLoop bs).1
      (segments a.isFullDiff a.totalSize a.currentPos bs) := by
  induction bs generalizing a with
  | nil =>
    simp only [loadLoop, segments, hd, Bool.false_eq_true, if_false]
    -- a full diff ends with the zeros behind the last extent
    split
    · rename_i hc
      refine ⟨⟨rfl, rfl, rfl, rfl⟩, ?_, ⟨?_, ?_, ?_, ?_⟩, rfl, by simp⟩
      · simp [remaining, setRem, hp]
      · intro _
        simp only [setRem]
        omega
      · simp [setRem, hp]
      · simp [setRem, hp]
      · simp [setRem]
    · refine ⟨⟨rfl, rfl, rfl, rfl⟩, ?_, ⟨?_, ?_, ?_, ?_⟩, hr, fun _ => rfl⟩ <;>
        simp [remaining, hr, hp]
  | cons e rest ih =>
    have hlen := hpos e List.mem_cons_self
    have hrest : ∀ f ∈ rest, 0 < f.len := fun f hf => hpos f (List.mem_cons_of_mem _ hf)
    simp only [loadLoop, segments, hd, Bool.false_eq_true, if_false]
    split
    -- the gap comes first and the extent is pending
    · rename_i hc
      refine ⟨⟨rfl, rfl, rfl, rfl⟩, ?_, ⟨?_, ?_, ?_, hrest⟩, rfl, by simp⟩
      · simp [remaining, setRem, endPos, Extent.stop]
      · intro _
        simp only [setRem]
        omega
      · exact fun _ => hlen
      · simp [setRem]
    · rename_i hc
      split
      · rename_i hlt
        -- an extent that overlaps is cut, and one that is covered already is left out
        by_cases hov : a.currentPos - e.offset ≥ e.len
        · rw [if_pos hov, if_pos (by simp only [Extent.stop]; omega)]
          have l := ih { a with iter := { a.iter with blocks := rest }, iterDone := false } hr hp
            rfl hrest
          exact ⟨l.same, l.remaining, l.loaded, l.hasRem, l.empty⟩
        · have hmax : max e.offset a.currentPos = a.currentPos := by omega
          rw [if_neg hov, if_neg (by simp only [Extent.stop]; omega), hmax]
          refine ⟨⟨rfl, rfl, rfl, rfl⟩, ?_, ⟨?_, ?_, ?_, hrest⟩, rfl, by simp⟩
          · have hoff : e.offset + (a.currentPos - e.offset) = a.currentPos := by omega
            have hln : e.len - (a.currentPos - e.offset) = e.stop - a.currentPos := by
              simp only [Extent.stop]; omega
            have hend : a.currentPos + (e.stop - a.currentPos) = e.stop := by
              simp only [Extent.stop]; omega
            simp [remaining, setRem, endPos, hp, hoff, hln, hend]
          · intro _
            simp only [setRem]
            omega
          · simp [setRem, hp]
          · simp [setRem]
      · rename_i hge
        have hmax : max e.offset a.currentPos = e.offset := by omega
        rw [if_neg (by simp only [Extent.stop]; omega), hmax]
        refine ⟨⟨rfl, rfl, rfl, rfl⟩, ?_, ⟨?_, ?_, ?_, hrest⟩, rfl, by simp⟩
        · simp [remaining, setRem, endPos, hp, Extent.stop]
        · exact fun _ => hlen
        · simp [setRem, hp]
        · simp [setRem]

theorem loadNext_loads (a : RbdIterAdapter) (h : a.Loaded) (hr : a.hasRem = false) :
    Loads a a.loadNext.2 a.loadNext.1 a.remaining := by
  unfold loadNext
  split
  · rename_i hp
    refine ⟨⟨rfl, rfl, rfl, rfl⟩, ?_, ⟨?_, ?_, ?_, h.extents⟩, rfl, by simp⟩
    · simp [remaining, setRem, endPos, hr, hp]
    · exact fun _ => h.pending hp
    · simp
    · simp
  · rename_i hp
    have hp : a.hasPending = false := by simpa using hp
    cases hd : a.iterDone with
    | true =>
      have hl : a.loadLoop a.iter.blocks = (false, a) := by
        cases hb : a.iter.blocks <;> simp [loadLoop, hd]
      rw [hl]
      exact ⟨⟨rfl, rfl, rfl, rfl⟩, rfl, h, hr, by simp [remaining, hr, hp, hd]⟩
    | false =>
      have loads := loadLoop_loads a a.iter.blocks hr hp hd h.extents
      have hrem : a.remaining = segments a.isFullDiff a.totalSize a.currentPos a.iter.blocks := by
        simp [remaining, endPos, hr, hp, hd]
      rw [hrem]
      exact loads

structure Emits (a a' : RbdIterAdapter) (b : ChangeBlock) : Prop where
  plan : cut a.chunkSize a.remaining =
    ⟨⟨b.offset, b.len⟩, b.isZero⟩ :: cut a'.chunkSize a'.remaining
  loaded : a'.Loaded
  header : b.filePath = devicePath ∧ b.totalSize = a.totalSize ∧ b.reqID = a.reqID
  reqID : a'.reqID = a.reqID + 1
  same : a'.totalSize = a.totalSize ∧ a'.chunkSize = a.chunkSize ∧ a'.isFullDiff = a.isFullDiff

theorem emitFromRemainder_emits (a : RbdIterAdapter) (h : a.Loaded) (hr : a.hasRem = true) :
    Emits a a.emitFromRemainder.2 a.emitFromRemainder.1 := by
  have hlen := h.rem hr
  have hn : (if a.chunkSize > 0 ∧ a.remLen > a.chunkSize then a.chunkSize else a.remLen) =
      pieceLen a.chunkSize a.remLen := rfl
  have le := pieceLen_le a.chunkSize a.remLen
  refine ⟨?_, ⟨?_, h.pending, h.done, h.extents⟩, ⟨rfl, rfl, rfl⟩, rfl, rfl, rfl, rfl⟩
  · simp only [emitFromRemainder, hn]
    by_cases hz : a.remLen - pieceLen a.chunkSize a.remLen > 0
    · have hend : a.remOffset + pieceLen a.chunkSize a.remLen +
          (a.remLen - pieceLen a.chunkSize a.remLen) = a.remOffset + a.remLen := by omega
      simp [remaining, endPos, hr, hz, hend, cut, pieces_pos hlen]
    · have hfull : pieceLen a.chunkSize a.remLen = a.remLen := by omega
      simp [remaining, endPos, hr, cut, pieces_pos hlen, hfull, pieces_zero]
  · intro hrem
    simpa [emitFromRemainder] using hrem

theorem next_cases (a : RbdIterAdapter) (h : a.Loaded) :
    (∃ b a', a.next = (some b, a') ∧ Emits a a' b) ∨
      (∃ a', a.next = (none, a') ∧ a.SameRun a' ∧ a'.Loaded ∧ a.remaining = [] ∧
        a'.remaining = []) := by
  unfold next
  split
  · rename_i hr
    exact .inl ⟨_, _, rfl, emitFromRemainder_emits a h hr⟩
  · rename_i hr
    have loads := loadNext_loads a h (by simpa using hr)
    obtain ⟨ht, hc, hf, hi⟩ := loads.same
    cases hl : a.loadNext.1 with
    | true =>
      have emits := emitFromRemainder_emits _ loads.loaded (by rw [loads.hasRem, hl])
      refine .inl ⟨_, _, if_pos hl, ?_, emits.loaded, ?_, ?_, ?_⟩
      · rw [← loads.remaining, ← hc]
        exact emits.plan
      · rw [← ht, ← hi]
        exact emits.header
      · rw [← hi]
        exact emits.reqID
      · rw [← ht, ← hc, ← hf]
        exact emits.same
    | false =>
      have empty := loads.empty hl
      exact .inr ⟨_, if_neg (by simp [hl]), loads.same, loads.loaded, empty,
        loads.remaining.trans empty⟩

end RbdIterAdapter

end CephVolsync.Rbd
