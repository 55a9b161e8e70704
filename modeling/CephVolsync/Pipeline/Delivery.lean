import CephVolsync.Pipeline.Window

/-! Exactly-once delivery: when `Run` returns nil, the requests of all streams together
carry every block of the iterator once, with the block's own header and with its bytes or
a zero mark, and the whole window has been given back. -/

namespace CephVolsync.Pipeline

open Function TransitionSystem IndexedFamily

variable {R S : ℕ} {cfg : Config}

theorem step_fed {s s' : State R S} {a : Action R S} (h : step cfg s a = some s') :
    (∃ b, a = .iterNext (some b) ∧ s'.log.fed = s.log.fed ++ [b] ∧ s.feeder = .next ∧
        s'.feeder = .send (feederChunk b)) ∨
      (a = .iterNext none ∧ s'.log.fed = s.log.fed ∧ s.feeder = .next ∧ s'.feeder = .exit none) ∨
      ((∀ b, a ≠ .iterNext b) ∧ s'.log.fed = s.log.fed ∧
        (s'.feeder = .exit none → s.feeder = .exit none)) := by
  cases step_cases h with
  | next hf => exact .inl ⟨_, rfl, rfl, hf, rfl⟩
  | nextEnd hf => exact .inr (.inl ⟨rfl, rfl, hf, rfl⟩)
  | feed hf => exact .inr (.inr ⟨by simp, rfl, by simp⟩)
  | feedDone hf => exact .inr (.inr ⟨by simp, rfl, by simp [State.exitFeeder]⟩)
  | reader hr => exact .inr (.inr ⟨by simp, hr.fed_eq, id⟩)
  | worker hw => exact .inr (.inr ⟨by simp, hw.fed_eq, id⟩)
  | _ => exact .inr (.inr ⟨by simp, rfl, id⟩)

theorem step_iterNext {s s' : State R S} {b : Option ChangeBlock}
    (h : step cfg s (.iterNext b) = some s') :
    s.feeder = .next ∧ s'.log.fed = s.log.fed ++ b.toList ∧
      (s'.feeder = .exit none → b = none) := by
  rcases step_fed h with ⟨b, hb, fed, hf, hf'⟩ | ⟨hb, fed, hf, -⟩ | ⟨hno, -⟩
  · cases hb
    exact ⟨hf, fed, by simp [hf']⟩
  · cases hb
    exact ⟨hf, by simp [fed], fun _ => rfl⟩
  · exact absurd rfl (hno _)

theorem step_returned {s s' : State R S} {a : Action R S} (h : step cfg s a = some s')
    (hr : s.returned = true) : s'.returned = true := by
  cases step_cases h with
  | run => rfl
  | _ => exact hr

def State.writes (s : State R S) : Action R S → List ChangedBlock
  | .worker i .handler => (s.workers i).stream.handler.todo.take 1
  | _ => []

theorem step_applied {s s' : State R S} {a : Action R S} (h : step cfg s a = some s') :
    s'.log.applied = s.log.applied ++ s.writes a := by
  cases step_cases h with
  | @reader r e pc sh hr =>
    have frame : sh.log.applied = s.shared.log.applied := by
      generalize s.readers r = pc₀ at hr
      cases hr <;> rfl
    simpa [State.writes, State.log] using frame
  | @worker i e w sh hw =>
    simp only [State.log]
    generalize hw₀ : s.workers i = w₀ at hw
    cases hw with
    | @free hd => cases hm : hd.hasMem <;> exact (List.append_nil _).symm
    | handlerTake hh | handlerEof hh | handlerAck hh | handlerWrite hh =>
      simp [State.writes, hw₀, hh, Handler.todo]
    | @ackFail e hp ha he =>
      rcases he with rfl | ⟨rfl, -⟩ <;> exact (List.append_nil _).symm
    | _ => exact (List.append_nil _).symm
  | _ => exact (List.append_nil _).symm

theorem step_reads {s s' : State R S} {a : Action R S} (h : step cfg s a = some s') :
    s'.log.reads = s.log.reads ∨
      ∃ r c bytes, a = .reader r (.data (some bytes)) ∧ s.readers r = .read c ∧
        s'.log.reads = s.log.reads ++ [(c.reqID, bytes)] := by
  cases step_cases h with
  | @reader r e pc sh hr =>
    simp only [State.log]
    generalize hpc : s.readers r = pc₀ at hr
    cases hr with
    | readZero | readData => exact .inr ⟨r, _, _, rfl, hpc, rfl⟩
    | _ => exact .inl rfl
  | worker hw =>
    left
    cases hw with
    | @free hd => cases hm : hd.hasMem <;> rfl
    | _ => rfl
  | _ => exact .inl rfl

/-- The iterator returns the given blocks in order and then reports its end. -/
def iterates (blocks : List ChangeBlock) (s : State R S) : Action R S → Bool
  | .iterNext b => b = blocks[s.log.fed.length]?
  | _ => true

theorem iterates_fed {blocks : List ChangeBlock} {s : State R S}
    (h : Reach (restrict (iterates blocks) (step cfg)) (init cfg R S) s) :
    s.log.fed <+: blocks ∧ (s.feeder = .exit none → s.log.fed = blocks) := by
  refine h.invariant (P := fun s => s.log.fed <+: blocks ∧
    (s.feeder = .exit none → s.log.fed = blocks))
    ⟨List.nil_prefix, by simp [init]⟩ ?_
  rintro s a s' - ⟨pre, ended⟩ next
  obtain ⟨allowed, hs⟩ := restrict_eq_some.mp next
  rcases step_fed hs with ⟨b, rfl, fed, -, hf⟩ | ⟨rfl, fed, -, -⟩ | ⟨-, fed, back⟩
  · simp only [iterates, decide_eq_true_eq] at allowed
    obtain ⟨rest, rfl⟩ := pre
    rw [fed]
    refine ⟨?_, by simp [hf]⟩
    cases rest with
    | nil => simp at allowed
    | cons c rest =>
      simp only [List.getElem?_append_right le_rfl, Nat.sub_self, List.getElem?_cons_zero,
        Option.some.injEq] at allowed
      exact ⟨rest, by simp [allowed]⟩
  · simp only [iterates, decide_eq_true_eq] at allowed
    rw [fed]
    refine ⟨pre, fun _ => pre.eq_of_length_le ?_⟩
    exact List.getElem?_eq_none_iff.mp allowed.symm
  · rw [fed]
    exact ⟨pre, fun he => ended (back he)⟩

/-- What a request says about block `b` when `reads` are the bytes read per request id:
the block's own header, and either a zero mark of the block's length without data, or the
bytes read and their number. -/
structure Faithful (reads : List (ℕ × List UInt8)) (b : ChangeBlock) (cb : ChangedBlock) :
    Prop where
  requestId : cb.requestId = b.reqID
  filePath : cb.filePath = b.filePath
  offset : cb.offset = b.offset
  totalSize : cb.totalSize = uint64 b.totalSize
  payload :
    (cb.isZero = true ∧ cb.data = [] ∧ cb.length = b.len ∧
      (b.isZero = true ∨ ∃ bytes, (b.reqID, bytes) ∈ reads ∧ ∀ x ∈ bytes, x = 0)) ∨
    (cb.isZero = false ∧ b.isZero = false ∧ (b.reqID, cb.data) ∈ reads ∧
      cb.length = cb.data.length)

theorem Delivers.faithful {log : Log} {rc : ReadChunk} (h : Delivers cfg log rc) :
    ∃ b ∈ log.fed, Faithful log.reads b (changedBlock rc) := by
  cases h with
  | @marked b hb hz => exact ⟨b, hb, rfl, rfl, rfl, rfl, .inl ⟨rfl, rfl, rfl, .inl hz⟩⟩
  | @zeros b bytes hb hz hr ha =>
    refine ⟨b, hb, rfl, rfl, rfl, rfl, .inl ⟨rfl, rfl, rfl, .inr ⟨bytes, hr, ?_⟩⟩⟩
    simpa [isAllZero] using ha
  | @data b bytes hb hz hr ha => exact ⟨b, hb, rfl, rfl, rfl, rfl, .inr ⟨rfl, hz, hr, rfl⟩⟩

theorem sent_faithful {s : State R S} (h : Reach (step cfg) (init cfg R S) s) {cb : ChangedBlock}
    (hcb : cb ∈ s.log.sentBlocks) : ∃ b ∈ s.log.fed, Faithful s.log.reads b cb := by
  obtain ⟨req, hreq, hb⟩ := List.mem_flatMap.mp hcb
  obtain ⟨rc, hrc, rfl⟩ := (reach_carries h).shared.sent req hreq cb hb
  exact hrc.faithful

theorem sentIds_eq (log : Log) : log.sentBlocks.map (·.requestId) = log.sentIds := by
  simp only [Log.sentBlocks, Log.sentIds, collectRequestIDs, List.map_flatMap]

theorem reads_nodup {s : State R S} (h : Reach (step cfg) (init cfg R S) s)
    (hn : s.log.fedIds.Nodup) : (s.log.reads.map (·.1)).Nodup := by
  rw [List.nodup_iff_count_le_one] at hn ⊢
  intro x
  have once := reach_readOnce h x
  have fed := hn x
  simp only [Shared.readIds, List.count_append, State.log] at once fed ⊢
  omega

theorem State.Succeeded.applied {s : State R S} (hs : s.Succeeded)
    (h : Reach (step cfg) (init cfg R S) s) : s.log.applied.Perm s.log.sentBlocks := by
  have fin := hs.finished h
  rw [List.perm_iff_count]
  intro b
  have written := reach_written h b
  simpa [fin.unwritten, Log.handled, fin.clean.unapplied] using written

theorem Numbered.eq_of_reqID {fed : List ChangeBlock} (h : Numbered fed) {b b' : ChangeBlock}
    (hb : b ∈ fed) (hb' : b' ∈ fed) (he : b.reqID = b'.reqID) : b = b' := by
  have nodup : (fed.map (·.reqID)).Nodup := by
    rw [h]
    exact List.nodup_range
  exact List.inj_on_of_nodup_map nodup hb hb' he

theorem State.Succeeded.released {s : State R S} (hs : s.Succeeded)
    (h : Reach (step cfg) (init cfg R S) s) (hR : 0 < R) (hS : 0 < S) (hw : 0 < cfg.maxWindow)
    (hn : Numbered s.log.fed) (i : ℕ) (hi : i < s.log.fed.length) :
    s.shared.win.isReleased i = true := by
  have win := (reach_windowed hw h hn.nodup).agrees
  have all : ∀ j, j < s.log.fed.length → j ∈ s.log.released := by
    intro j hj
    have count := (hs.counts h hR hS j).2
    rw [← List.count_pos_iff, count, List.count_pos_iff, Log.fedIds, hn]
    exact List.mem_range.mpr hj
  have base : s.log.fed.length ≤ s.shared.win.base := by
    by_contra hlt
    exact win.base_open (all _ (by omega))
  simp only [WindowSemaphore.isReleased, decide_eq_true_eq]
  omega

/-- Exactly-once delivery of `Pipeline.Run`, for every accepted configuration, every reader
and every schedule. -/
theorem run_delivers_exactly_once (c : Config) (hc : c.setDefaults.validate = .ok ())
    (blocks : List ChangeBlock) (hn : Numbered blocks)
    {s : State c.setDefaults.readWorkers.toNat c.setDefaults.dataSendWorkers.toNat}
    (h : Reach (restrict (iterates blocks) (step c.setDefaults)) (init c.setDefaults _ _) s)
    (nil : s.returned = true ∧ s.runErr = none) :
    (s.log.sentBlocks.map (·.requestId)).Perm (List.range blocks.length) ∧
    (∀ cb ∈ s.log.sentBlocks, ∃ b ∈ blocks, Faithful s.log.reads b cb) ∧
    (s.log.reads.map (·.1)).Nodup ∧
    ∀ i < blocks.length, s.shared.win.isReleased i = true := by
  have valid := (Config.validate_ok_iff _).mp hc
  have hR : 0 < c.setDefaults.readWorkers.toNat := by have := valid.readers; omega
  have hS : 0 < c.setDefaults.dataSendWorkers.toNat := by have := valid.senders_min; omega
  have hw : 0 < c.setDefaults.maxWindow := by have := valid.window_min; omega
  have reach := h.of_restrict
  have success : s.Succeeded := nil
  have fed : s.log.fed = blocks := (iterates_fed h).2 (success.finished reach).feeder
  have numbered : Numbered s.log.fed := fed ▸ hn
  refine ⟨?_, ?_, reads_nodup reach numbered.nodup, ?_⟩
  · rw [sentIds_eq, ← hn, List.perm_iff_count]
    intro x
    rw [(success.counts reach hR hS x).1, Log.fedIds, fed]
  · intro cb hcb
    exact fed ▸ sent_faithful reach hcb
  · intro i hi
    exact success.released reach hR hS hw numbered i (fed ▸ hi)

/-- The smallest configuration that `validate` accepts: two read workers, one stream. -/
def smallConfig : Config := ⟨65536, 8, 2, 1, 4, 65536, 65536, 4⟩

def twoBlocks : List ChangeBlock := [⟨[100], 4096, 3, 0, 8192, false⟩, ⟨[100], 0, 2, 1, 8192, true⟩]

def twoBlocksSchedule : List (Action 2 1) :=
  repeats [(1, .iterNext twoBlocks[0]?), (1, .feeder .ready), (1, .iterNext twoBlocks[1]?),
    (1, .feeder .ready), (1, .iterNext none), (3, .reader 0 (.select .ready)),
    (3, .reader 1 (.select .ready)), (1, .reader 0 (.data (some [1, 2, 3]))),
    (2, .reader 0 (.select .ready)), (1, .reader 1 (.select .ready)), (1, .stageRead),
    (1, .worker 0 (.open true)), (3, .worker 0 (.sender .ready)), (1, .worker 0 (.send true)),
    (3, .worker 0 (.sender .ready)), (5, .worker 0 .handler), (5, .worker 0 (.ack .ready)),
    (1, .worker 0 .ret), (1, .stageSend), (1, .run)]

theorem run_delivers_twoBlocks : ∃ s : State 2 1,
    Reach (restrict (iterates twoBlocks) (step smallConfig)) (init smallConfig 2 1) s ∧
      s.returned = true ∧ s.log.sentBlocks.map (·.requestId) = [1, 0] ∧
      (∀ cb ∈ s.log.sentBlocks, ∃ b ∈ twoBlocks, Faithful s.log.reads b cb) ∧
      s.shared.win.isReleased 1 = true := by
  have run : (exec (restrict (iterates twoBlocks) (step smallConfig)) (init smallConfig 2 1)
      twoBlocksSchedule).any (fun s => (s.returned ∧ s.runErr = none) ∧
        s.log.sentBlocks.map (·.requestId) = [1, 0]) = true := by decide +kernel
  obtain ⟨s, reached, hs⟩ := Reach.of_exec_any run
  simp only [decide_eq_true_eq] at hs
  obtain ⟨nil, sent⟩ := hs
  obtain ⟨-, faithful, -, released⟩ :=
    run_delivers_exactly_once smallConfig rfl twoBlocks rfl reached nil
  exact ⟨s, reached, nil.1, sent, faithful, released 1 (by decide)⟩

end CephVolsync.Pipeline
