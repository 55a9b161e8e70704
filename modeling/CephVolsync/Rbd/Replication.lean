import CephVolsync.Pipeline.Delivery
import CephVolsync.Rbd.Adapter

/-! RBD replication end to end: the pipeline over `rbdIterAdapter`, a source device behind
`fileDataReader`, and a destination device behind the `Write` handlers of `RBDDataServer`
(`internal/worker/rbd/destination.go`, `zero.go`, `common/util.go`). -/

namespace CephVolsync.Rbd

open Function Extents Pipeline TransitionSystem

abbrev Content := ℕ → UInt8

def writeAt (dev : Content) (offset : ℕ) (data : List UInt8) : Content := fun x =>
  if offset ≤ x ∧ x < offset + data.length then data.getD (x - offset) 0 else dev x

/-- `fileDataReader.ReadAt` on a device of `size` bytes: what lies before its end. -/
def readAt (dev : Content) (size offset length : ℕ) : List UInt8 :=
  (List.range (min length (size - offset))).map fun i => dev (offset + i)

def blkZeroOut (dev : Content) (offset length : ℕ) : Content := fun x =>
  if offset ≤ x ∧ x < offset + length then 0 else dev x

def zeroBufSize : ℕ := 2 ^ 20

def writeZeros (dev : Content) (offset length : ℕ) : Content :=
  if _h : length = 0 then dev
  else
    let n := min zeroBufSize length
    writeZeros (writeAt dev offset (List.replicate n 0)) (offset + n) (length - n)
termination_by length
decreasing_by simp only [zeroBufSize]; omega

/-- `zeroRange`; `ioctl` is whether the kernel accepts `BLKZEROOUT`. -/
def zeroRange (ioctl : Bool) (dev : Content) (offset length : ℕ) : Content :=
  if ioctl then blkZeroOut dev offset length else writeZeros dev offset length

def writeBlock (ioctl : Bool) (dev : Content) (b : ChangedBlock) : Content :=
  if b.isZero then zeroRange ioctl dev b.offset b.length else writeAt dev b.offset b.data

theorem writeZeros_apply (dev : Content) (offset length x : ℕ) :
    writeZeros dev offset length x = if offset ≤ x ∧ x < offset + length then 0 else dev x := by
  induction length using Nat.strong_induction_on generalizing dev offset with
  | h length ih =>
    rw [writeZeros]
    split
    · subst length
      rw [if_neg (by omega)]
    · have hn : 0 < min zeroBufSize length := by simp only [zeroBufSize]; omega
      have hle : min zeroBufSize length ≤ length := min_le_right _ _
      generalize min zeroBufSize length = n at hn hle
      simp only
      rw [ih _ (by omega)]
      have step : writeAt dev offset (List.replicate n 0) x =
          if offset ≤ x ∧ x < offset + n then 0 else dev x := by
        unfold writeAt
        rw [List.length_replicate]
        split
        · rw [List.getD_eq_getElem?_getD, List.getElem?_replicate]
          split <;> rfl
        · rfl
      rw [step]
      split_ifs <;> first | rfl | omega

theorem zeroRange_apply (ioctl : Bool) (dev : Content) (offset length x : ℕ) :
    zeroRange ioctl dev offset length x =
      if offset ≤ x ∧ x < offset + length then 0 else dev x := by
  cases ioctl
  · exact writeZeros_apply dev offset length x
  · rfl

def touches (b : ChangedBlock) : Extent := ⟨b.offset, if b.isZero then b.length else b.data.length⟩

def Copies (src : Content) (b : ChangedBlock) : Prop :=
  ∀ x, (touches b).Contains x → (if b.isZero then 0 else b.data.getD (x - b.offset) 0) = src x

theorem writeBlock_apply {src : Content} {b : ChangedBlock} (h : Copies src b) (ioctl : Bool)
    (dev : Content) (x : ℕ) :
    writeBlock ioctl dev b x = if (touches b).Contains x then src x else dev x := by
  have copy := h x
  unfold writeBlock
  cases hz : b.isZero
  · simp only [touches, Extent.Contains, Extent.stop, hz, Bool.false_eq_true, if_false,
      writeAt] at copy ⊢
    split
    · exact copy ‹_›
    · rfl
  · simp only [touches, Extent.Contains, Extent.stop, hz, if_true, zeroRange_apply] at copy ⊢
    split
    · exact copy ‹_›
    · rfl

theorem foldl_writeBlock {src : Content} {bs : List ChangedBlock} (h : ∀ b ∈ bs, Copies src b)
    (dev : Content) (x : ℕ) :
    bs.foldl (writeBlock true) dev x =
      if Covered (bs.map touches) x then src x else dev x := by
  -- blocks that copy `src` commute: in any order they leave `src` where one of them writes
  induction bs generalizing dev with
  | nil => simp [Covered]
  | cons b rest ih =>
    rw [List.foldl_cons, ih fun c hc => h c (List.mem_cons_of_mem _ hc),
      writeBlock_apply (h b List.mem_cons_self), List.map_cons]
    simp only [covered_cons]
    split_ifs <;> tauto

/-- The source worker's pipeline with its adapter, and the destination device. -/
structure Session (R S : ℕ) where
  pipe : State R S
  adapter : RbdIterAdapter
  device : Content

/-- An action of the pipeline; `ioctl` decides which way a zero block is written. -/
structure SessionAction (R S : ℕ) where
  act : Action R S
  ioctl : Bool
  deriving DecidableEq, Repr

variable {R S : ℕ}

/-- The adapter decides what `iter.Next` returns and the source device what a successful
`ReadAt` returns. -/
def Session.answers (cfg : Config) (src : Content) (size : ℕ) (s : Session R S) :
    Action R S → Bool
  | .iterNext b => b = s.adapter.next.1
  | .reader r (.data (some bytes)) =>
    match s.pipe.readers r with
    | .read c => bytes = readAt src size c.offset (acquireSize cfg c).toNat
    | _ => true
  | _ => true

def Session.nextAdapter (s : Session R S) : Action R S → RbdIterAdapter
  | .iterNext _ => s.adapter.next.2
  | _ => s.adapter

def sessionStep (cfg : Config) (src : Content) (size : ℕ) (s : Session R S)
    (a : SessionAction R S) : Option (Session R S) :=
  if s.answers cfg src size a.act then
    (step cfg s.pipe a.act).map fun p =>
      { pipe := p
        adapter := s.nextAdapter a.act
        device := (s.pipe.writes a.act).foldl (writeBlock a.ioctl) s.device }
  else none

def sessionInit (cfg : Config) (R S : ℕ) (size : ℕ) (full : Bool) (diff : RBDBlockDiffIterator)
    (dst : Content) : Session R S :=
  ⟨init cfg R S, .new diff size cfg.chunkSize.toNat full, dst⟩

variable {cfg : Config} {src dst : Content} {size : ℕ} {full : Bool} {diff : RBDBlockDiffIterator}

theorem session_reach {s : Session R S}
    (h : Reach (sessionStep cfg src size) (sessionInit cfg R S size full diff dst) s) :
    Reach (step cfg) (init cfg R S) s.pipe := by
  refine h.simulate Session.pipe fun s a s' next => ?_
  unfold sessionStep at next
  split at next
  · obtain ⟨p, hp, rfl⟩ := Option.map_eq_some_iff.mp next
    exact .single hp
  · cases next

theorem writeBlock_ioctl (ioctl : Bool) (dev : Content) (b : ChangedBlock) :
    writeBlock ioctl dev b = writeBlock true dev b := by
  funext x
  unfold writeBlock
  split
  · rw [zeroRange_apply, zeroRange_apply]
  · rfl

structure Session.Follows (cfg : Config) (src : Content) (size : ℕ) (full : Bool)
    (extents : List Extent) (dst : Content) (s : Session R S) : Prop where
  emitted : s.pipe.log.fed.map segmentOf ++ cut cfg.chunkSize.toNat s.adapter.remaining =
    plan full size cfg.chunkSize.toNat extents
  loaded : s.adapter.Loaded
  chunkSize : s.adapter.chunkSize = cfg.chunkSize.toNat
  reqID : s.adapter.reqID = s.pipe.log.fed.length
  numbered : Numbered s.pipe.log.fed
  ended : s.pipe.feeder = .exit none → s.adapter.remaining = []
  reads : ∀ e ∈ s.pipe.log.reads, ∃ b ∈ s.pipe.log.fed, b.reqID = e.1 ∧
    e.2 = readAt src size b.offset (min (b.len : ℤ) cfg.chunkSize).toNat
  device : s.device = s.pipe.log.applied.foldl (writeBlock true) dst

theorem Session.Follows.step {extents : List Extent} {s s' : Session R S} {a : SessionAction R S}
    (hr : Reach (Pipeline.step cfg) (init cfg R S) s.pipe)
    (hs : s.Follows cfg src size full extents dst) (h : sessionStep cfg src size s a = some s') :
    s'.Follows cfg src size full extents dst := by
  unfold sessionStep at h
  split at h
  case isFalse => cases h
  rename_i answers
  obtain ⟨p, hp, rfl⟩ := Option.map_eq_some_iff.mp h
  have device : (s.pipe.writes a.act).foldl (writeBlock a.ioctl) s.device =
      p.log.applied.foldl (writeBlock true) dst := by
    rw [step_applied hp, List.foldl_append, ← hs.device]
    congr 1
    funext dev b
    exact writeBlock_ioctl a.ioctl dev b
  have reads : ∀ e ∈ p.log.reads, ∃ b ∈ p.log.fed, b.reqID = e.1 ∧
      e.2 = readAt src size b.offset (min (b.len : ℤ) cfg.chunkSize).toNat := by
    have ext := (step_cases hp).extends.fed
    intro e he
    rcases step_reads hp with same | ⟨r, c, bytes, hact, hrd, more⟩
    · obtain ⟨b, hb, hid, hbytes⟩ := hs.reads e (same ▸ he)
      exact ⟨b, ext hb, hid, hbytes⟩
    · rw [more] at he
      rcases List.mem_append.mp he with he | he
      · obtain ⟨b, hb, hid, hbytes⟩ := hs.reads e he
        exact ⟨b, ext hb, hid, hbytes⟩
      · rw [List.mem_singleton] at he
        subst he
        have carried := (reach_carries hr).readers r
        rw [hrd] at carried
        obtain ⟨⟨b, hb, rfl⟩, -⟩ := carried
        rw [hact] at answers
        simp only [Session.answers, hrd, decide_eq_true_eq] at answers
        exact ⟨b, ext hb, rfl, answers⟩
  rcases step_fed hp with ⟨b, hact, fed, hf, hf'⟩ | ⟨hact, fed, hf, -⟩ | ⟨hact, fed, back⟩
  · rw [hact] at answers
    simp only [Session.answers, decide_eq_true_eq] at answers
    have adapter : s.nextAdapter a.act = s.adapter.next.2 := by rw [hact]; rfl
    rcases s.adapter.next_cases hs.loaded with ⟨b', a', hnext, emits⟩ | ⟨a', hnext, -⟩
    · rw [hnext] at answers adapter
      cases answers
      have id := emits.header.2.2
      refine ⟨?_, by rw [adapter]; exact emits.loaded, ?_, ?_, ?_, by simp [hf'], reads, device⟩
      · rw [adapter, fed, ← hs.emitted, ← hs.chunkSize, emits.plan, emits.same.2.1]
        simp [segmentOf]
      · rw [adapter, emits.same.2.1, hs.chunkSize]
      · rw [adapter, emits.reqID, hs.reqID, fed, List.length_append]
        rfl
      · rw [fed]
        exact hs.numbered.concat (id.trans hs.reqID)
    · rw [hnext] at answers
      cases answers
  · rw [hact] at answers
    simp only [Session.answers, decide_eq_true_eq] at answers
    have adapter : s.nextAdapter a.act = s.adapter.next.2 := by rw [hact]; rfl
    rcases s.adapter.next_cases hs.loaded with
      ⟨b', a', hnext, -⟩ | ⟨a', hnext, same, loaded, empty, empty'⟩
    · rw [hnext] at answers
      cases answers
    · rw [hnext] at adapter
      refine ⟨?_, by rw [adapter]; exact loaded, ?_, ?_, by rw [fed]; exact hs.numbered,
        fun _ => by rw [adapter]; exact empty', reads, device⟩
      · rw [adapter, fed, empty', ← hs.emitted, empty]
      · rw [adapter, same.2.1, hs.chunkSize]
      · rw [adapter, same.2.2.2, hs.reqID, fed]
  · have adapter : s.nextAdapter a.act = s.adapter := by
      cases hb : a.act with
      | iterNext b => exact absurd hb (hact b)
      | _ => rfl
    exact ⟨by rw [adapter, fed]; exact hs.emitted, by rw [adapter]; exact hs.loaded,
      by rw [adapter]; exact hs.chunkSize, by rw [adapter, fed]; exact hs.reqID,
      by rw [fed]; exact hs.numbered, fun he => by rw [adapter]; exact hs.ended (back he), reads,
      device⟩

theorem session_follows {extents : List Extent} (hd : Diff size extents) {s : Session R S}
    {err : Bool}
    (h : Reach (sessionStep cfg src size) (sessionInit cfg R S size full ⟨extents, err⟩ dst) s) :
    s.Follows cfg src size full extents dst := by
  refine h.invariant ?_ fun s a s' reached hs next => hs.step (session_reach reached) next
  exact ⟨by simp [sessionInit, init, State.log, Log.empty, RbdIterAdapter.new,
    RbdIterAdapter.remaining,
      RbdIterAdapter.endPos, plan], ⟨by simp [sessionInit, RbdIterAdapter.new],
      by simp [sessionInit, RbdIterAdapter.new], by simp [sessionInit, RbdIterAdapter.new],
      hd.nonempty⟩,
    rfl, rfl, rfl, by simp [sessionInit, init], by simp [sessionInit, init, State.log, Log.empty],
    rfl⟩

theorem readAt_inside (src : Content) {offset len : ℕ} (h : offset + len ≤ size) :
    (readAt src size offset len).length = len ∧
      ∀ x, offset ≤ x → x < offset + len →
        (readAt src size offset len).getD (x - offset) 0 = src x := by
  have hmin : min len (size - offset) = len := by omega
  refine ⟨by simp [readAt, hmin], fun x hlo hhi => ?_⟩
  have hx : offset + (x - offset) = x := by omega
  have hlt : x - offset < len := by omega
  simp [readAt, hmin, List.getD_eq_getElem?_getD, List.getElem?_map, List.getElem?_range hlt, hx]

theorem Session.Follows.read_eq {extents : List Extent} {s : Session R S}
    (hs : s.Follows cfg src size full extents dst) {b : ChangeBlock} (hb : b ∈ s.pipe.log.fed)
    (hlen : b.len ≤ cfg.chunkSize.toNat) {bytes : List UInt8}
    (hr : (b.reqID, bytes) ∈ s.pipe.log.reads) : bytes = readAt src size b.offset b.len := by
  obtain ⟨b', hb', hid, hbytes⟩ := hs.reads _ hr
  have same := hs.numbered.eq_of_reqID hb' hb hid
  subst same
  have hmin : (min (b'.len : ℤ) cfg.chunkSize).toNat = b'.len := by omega
  rwa [hmin] at hbytes

theorem Session.Follows.copies {extents : List Extent} {s : Session R S}
    (hs : s.Follows cfg src size full extents dst) {b : ChangeBlock} {cb : ChangedBlock}
    (hb : b ∈ s.pipe.log.fed) (fits : (segmentOf b).Fits full size 0 extents)
    (hlen : b.len ≤ cfg.chunkSize.toNat) (hf : Faithful s.pipe.log.reads b cb)
    (hzero : full = true → ∀ x < size, ¬Covered extents x → src x = 0) :
    touches cb = ⟨b.offset, b.len⟩ ∧ Copies src cb := by
  have inside : b.offset + b.len ≤ size := fits.stop
  obtain ⟨length_eq, read⟩ := readAt_inside src inside
  rcases hf.payload with ⟨hz, -, hl, hwhy⟩ | ⟨hz, -, hdata, -⟩
  · have range : touches cb = ⟨b.offset, b.len⟩ := by
      rw [touches, if_pos hz, hl, hf.offset]
    refine ⟨range, fun x hx => ?_⟩
    rw [range] at hx
    rw [if_pos hz]
    rcases hwhy with hmark | ⟨bytes, hr, hall⟩
    · obtain ⟨hfull, hun⟩ := fits.zero hmark
      exact (hzero hfull x (hx.2.trans_le inside) (hun x hx)).symm
    · have hbytes := hs.read_eq hb hlen hr
      rw [← read x hx.1 hx.2, ← hbytes]
      have hlt : x - b.offset < bytes.length := by
        rw [hbytes, length_eq]
        obtain ⟨hlo, hhi⟩ := hx
        simp only [Extent.stop] at hlo hhi
        omega
      rw [List.getD_eq_getElem _ _ hlt]
      exact (hall _ (List.getElem_mem hlt)).symm
  · have hbytes := hs.read_eq hb hlen hdata
    have range : touches cb = ⟨b.offset, b.len⟩ := by
      rw [touches, hz, hbytes, hf.offset]
      simp [length_eq]
    refine ⟨range, fun x hx => ?_⟩
    rw [range] at hx
    rw [hz, hbytes, hf.offset]
    simpa using read x hx.1 hx.2

theorem Session.Follows.device_eq {extents : List Extent} (hd : Diff size extents) {s : Session R S}
    (hs : s.Follows cfg src size full extents dst) (hR : 0 < R) (hS : 0 < S)
    (hchunk : 0 < cfg.chunkSize) (reach : Reach (Pipeline.step cfg) (init cfg R S) s.pipe)
    (nil : s.pipe.Succeeded) (hzero : full = true → ∀ x < size, ¬Covered extents x → src x = 0)
    (x : ℕ) :
    s.device x =
      if ∃ t ∈ plan full size cfg.chunkSize.toNat extents,
        t.range.Contains x then src x else dst x := by
  have fin := nil.finished reach
  have fed : s.pipe.log.fed.map segmentOf = plan full size cfg.chunkSize.toNat extents := by
    rw [← hs.emitted, hs.ended fin.feeder]
    simp [cut]
  have block : ∀ b ∈ s.pipe.log.fed, (segmentOf b).Fits full size 0 extents ∧
      b.len ≤ cfg.chunkSize.toNat := by
    intro b hb
    exact plan_fits hd (by omega) (fed ▸ List.mem_map_of_mem hb)
  have applied : ∀ cb ∈ s.pipe.log.applied, ∃ b ∈ s.pipe.log.fed, Faithful s.pipe.log.reads b cb :=
    fun cb hcb => sent_faithful reach ((nil.applied reach).mem_iff.mp hcb)
  have copies : ∀ cb ∈ s.pipe.log.applied, Copies src cb := by
    intro cb hcb
    obtain ⟨b, hb, hf⟩ := applied cb hcb
    exact (hs.copies hb (block b hb).1 (block b hb).2 hf hzero).2
  rw [hs.device, foldl_writeBlock copies]
  congr 1
  rw [eq_iff_iff]
  constructor
  · rintro ⟨e, he, hx⟩
    obtain ⟨cb, hcb, rfl⟩ := List.mem_map.mp he
    obtain ⟨b, hb, hf⟩ := applied cb hcb
    rw [(hs.copies hb (block b hb).1 (block b hb).2 hf hzero).1] at hx
    exact ⟨segmentOf b, fed ▸ List.mem_map_of_mem hb, hx⟩
  · rintro ⟨t, ht, hx⟩
    rw [← fed] at ht
    obtain ⟨b, hb, rfl⟩ := List.mem_map.mp ht
    -- the request with the id of the block is the one that was made for it
    have sent : b.reqID ∈ s.pipe.log.sentBlocks.map (·.requestId) := by
      rw [sentIds_eq, ← List.count_pos_iff, (nil.counts reach hR hS b.reqID).1, List.count_pos_iff]
      exact List.mem_map_of_mem hb
    obtain ⟨cb, hcb, hid⟩ := List.mem_map.mp sent
    have hcb' := (nil.applied reach).mem_iff.mpr hcb
    obtain ⟨b', hb', hf⟩ := applied cb hcb'
    have same := hs.numbered.eq_of_reqID hb' hb (hf.requestId.symm.trans hid)
    subst same
    refine ⟨touches cb, List.mem_map_of_mem hcb', ?_⟩
    rw [(hs.copies hb (block b' hb).1 (block b' hb).2 hf hzero).1]
    exact hx

/-- RBD replication is byte-correct: when the pipeline over the adapter returns nil, a full
diff has made the destination equal to the source, and an incremental one has copied the
union of the extents and nothing else. -/
theorem replication_byte_correct (c : Config) (hc : c.setDefaults.validate = .ok ())
    (size : ℕ) (src dst : Content) (full : Bool) (extents : List Extent) (hd : Diff size extents)
    {s : Session c.setDefaults.readWorkers.toNat c.setDefaults.dataSendWorkers.toNat}
    (h : Reach (sessionStep c.setDefaults src size)
      (sessionInit c.setDefaults _ _ size full ⟨extents, false⟩ dst) s)
    (nil : s.pipe.returned = true ∧ s.pipe.runErr = none) :
    (full = true → (∀ x < size, ¬Covered extents x → src x = 0) → ∀ x < size, s.device x = src x) ∧
    (full = false → ∀ x < size, s.device x = if Covered extents x then src x else dst x) := by
  have valid := (Config.validate_ok_iff _).mp hc
  have hR : 0 < c.setDefaults.readWorkers.toNat := by have := valid.readers; omega
  have hS : 0 < c.setDefaults.dataSendWorkers.toNat := by have := valid.senders_min; omega
  have hchunk : 0 < c.setDefaults.chunkSize := by have := valid.chunk_min; omega
  have follows := session_follows hd h
  have device := fun hzero => follows.device_eq hd hR hS hchunk (session_reach h) nil hzero
  constructor
  · rintro rfl hzero x hx
    rw [device (fun _ => hzero) x, if_pos (plan_covers hd (.inr ⟨rfl, hx⟩))]
  · rintro rfl x hx
    rw [device (by simp) x]
    congr 1
    rw [eq_iff_iff]
    constructor
    · rintro ⟨t, ht, hcon⟩
      have fits := (plan_fits hd (by omega) ht).1
      cases hz : t.isZero with
      | true => simpa using (fits.zero hz).1
      | false => exact fits.data hz x hcon
    · exact fun hcov => plan_covers hd (.inl hcov)

/-- Five bytes of which one is set, and a diff that names three of them. -/
def sampleSource : Content := fun x => if x = 1 then 7 else 0

def sampleDiff : List Extent := [⟨0, 3⟩]

/-- A full-diff run over `sampleSource`: one data block and one zero block behind it. -/
def sampleSchedule : List (Action 2 1) :=
  repeats [(1, .iterNext (some ⟨devicePath, 0, 3, 0, 5, false⟩)), (1, .feeder .ready),
    (1, .iterNext (some ⟨devicePath, 3, 2, 1, 5, true⟩)), (1, .feeder .ready), (1, .iterNext none),
    (3, .reader 0 (.select .ready)), (1, .reader 0 (.data (some [0, 7, 0]))),
    (5, .reader 0 (.select .ready)), (1, .reader 1 (.select .ready)), (1, .stageRead),
    (1, .worker 0 (.open true)), (3, .worker 0 (.sender .ready)), (1, .worker 0 (.send true)),
    (3, .worker 0 (.sender .ready)), (5, .worker 0 .handler), (5, .worker 0 (.ack .ready)),
    (1, .worker 0 .ret), (1, .stageSend), (1, .run)]

theorem replication_byte_correct_sample :
    ∃ s : Session 2 1, Reach (sessionStep smallConfig sampleSource 5)
        (sessionInit smallConfig 2 1 5 true ⟨sampleDiff, false⟩ fun _ => 255) s ∧
      s.pipe.returned = true ∧ s.device 1 = 7 ∧ s.device 4 = 0 := by
  have hrun : ((exec (sessionStep smallConfig sampleSource 5)
      (sessionInit smallConfig 2 1 5 true ⟨sampleDiff, false⟩ fun _ => 255)
      (sampleSchedule.map fun a => ⟨a, true⟩)).any fun s => s.pipe.returned ∧
        s.pipe.runErr = none) =
      true := by decide +kernel
  obtain ⟨s, reach, hret⟩ := Reach.of_exec_any hrun
  have nil : s.pipe.returned = true ∧ s.pipe.runErr = none := by simpa using hret
  have hd : Diff 5 sampleDiff :=
    ⟨by simp [sampleDiff], by simp [sampleDiff], by simp [sampleDiff, Extent.stop]⟩
  have hzero : ∀ x < 5, ¬Covered sampleDiff x → sampleSource x = 0 := by decide
  have equal := (replication_byte_correct smallConfig rfl 5 sampleSource (fun _ => 255) true
    sampleDiff hd
    reach nil).1 rfl hzero
  exact ⟨s, reach, nil.1, equal 1 (by decide), equal 4 (by decide)⟩

end CephVolsync.Rbd
