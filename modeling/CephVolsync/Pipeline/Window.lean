import CephVolsync.Pipeline.Outcome

/-! The window semaphore over a whole run. As long as each slot is given back once, the
ring records the released ids of the current window, `base` is the first id not released,
and exactly the ids at or past the end of the window wait. -/

namespace CephVolsync.Pipeline

open Function TransitionSystem IndexedFamily WaitQueue SlidingWindow

section Semaphore

variable {γ : Type}

/-- The semaphore agrees with the ids `released` so far and serves the callers in `want`. -/
structure WindowSemaphore.Agrees (want : γ → Option ℕ) (released : List ℕ)
    (w : WindowSemaphore γ) : Prop where
  limit_pos : 0 < w.limit
  tracks : Tracks w.limit w.base w.released {i | i ∈ released}
  below : ∀ i, i < w.base → i ∈ released
  base_open : w.base ∉ released
  above : ∀ i ∈ released, i < w.base + w.limit
  serves : Serves want w.waiters w.closed
  sorted : w.waiters.Pairwise fun v v' => v.key ≤ v'.key
  beyond : ∀ v ∈ w.waiters, w.base + w.limit ≤ v.key
  granted : ∀ c ∈ w.closed, ∀ k, want c = some k → k < w.base + w.limit

namespace WindowSemaphore

variable {want : γ → Option ℕ} {released : List ℕ} {w : WindowSemaphore γ} {c : γ} {k id : ℕ}

theorem inWindow_iff {base limit reqID : ℕ} :
    inWindow base limit reqID = true ↔ base ≤ reqID ∧ reqID < base + limit := by
  simp [inWindow]

theorem Agrees.base_le (h : w.Agrees want released) (hid : id ∉ released) : w.base ≤ id := by
  by_contra hlt
  exact hid (h.below id (by omega))

theorem new_agrees {n : ℕ} (hn : 0 < n) :
    (new n : WindowSemaphore γ).Agrees (fun _ => none) [] where
  limit_pos := by simp [new, hn]
  tracks := fun i _ _ => by simp [new]
  below := by simp [new]
  base_open := by simp
  above := by simp
  serves := .empty
  sorted := .nil
  beyond := by simp [new]
  granted := by simp [new]

theorem acquire_frame : (w.acquire k c).1.base = w.base ∧ (w.acquire k c).1.limit = w.limit := by
  unfold acquire
  split <;> exact ⟨rfl, rfl⟩

theorem acquire_true (h : (w.acquire k c).2 = true) : k < w.base + w.limit := by
  unfold acquire at h
  split at h
  · rename_i hin
    exact (inWindow_iff.mp hin).2
  · simp at h

theorem Agrees.acquire_granted (h : w.Agrees want released) (hk : (w.acquire k c).2 = true) :
    (w.acquire k c).1.Agrees want released := by
  unfold acquire at hk ⊢
  split at hk
  · rename_i hin
    rw [if_pos hin]
    exact ⟨h.limit_pos, h.tracks, h.below, h.base_open, h.above, h.serves, h.sorted, h.beyond,
      h.granted⟩
  · simp at hk

theorem Agrees.takeRelease (h : w.Agrees want released) : w.takeRelease.Agrees want released :=
  ⟨h.limit_pos, h.tracks, h.below, h.base_open, h.above, h.serves, h.sorted, h.beyond, h.granted⟩

theorem insertWaiter_sorted {ws : List (Waiter ℕ γ)} (h : ws.Pairwise fun v v' => v.key ≤ v'.key)
    (v : Waiter ℕ γ) : (insertWaiter ws v).Pairwise fun v v' => v.key ≤ v'.key := by
  induction ws with
  | nil => simp [insertWaiter]
  | cons u rest ih =>
    obtain ⟨hu, hrest⟩ := List.pairwise_cons.mp h
    by_cases huv : u.key < v.key
    · have split : insertWaiter (u :: rest) v = u :: insertWaiter rest v := by
        simp [insertWaiter, huv]
      rw [split]
      refine List.pairwise_cons.mpr ⟨fun x hx => ?_, ih hrest⟩
      have hx' : x = v ∨ x ∈ rest := by
        simp only [insertWaiter, List.mem_append, List.mem_cons] at hx
        rcases hx with hx | rfl | hx
        · exact .inr (List.takeWhile_sublist _ |>.mem hx)
        · exact .inl rfl
        · exact .inr (List.dropWhile_sublist _ |>.mem hx)
      rcases hx' with rfl | hx'
      · omega
      · exact hu x hx'
    · have split : insertWaiter (u :: rest) v = v :: u :: rest := by
        simp [insertWaiter, huv]
      rw [split]
      refine List.pairwise_cons.mpr ⟨fun x hx => ?_, h⟩
      rcases List.mem_cons.mp hx with rfl | hx
      · omega
      · have := hu x hx
        omega

theorem Agrees.acquire_queued [DecidableEq γ] (h : w.Agrees want released) (hc : want c = none)
    (hid : k ∉ released) (hk : (w.acquire k c).2 = false) :
    (w.acquire k c).1.Agrees (update want c (some k)) released := by
  have low := h.base_le hid
  unfold acquire at hk ⊢
  split at hk
  · simp at hk
  · rename_i hin
    rw [if_neg hin]
    have far : w.base + w.limit ≤ k := by
      by_contra hlt
      exact hin (inWindow_iff.mpr ⟨low, by omega⟩)
    refine ⟨h.limit_pos, h.tracks, h.below, h.base_open, h.above, ?_, ?_, ?_, ?_⟩
    · exact h.serves.enqueue hc k _ _ (List.takeWhile_append_dropWhile).symm
    · exact insertWaiter_sorted h.sorted _
    · intro v hv
      simp only [insertWaiter, List.mem_append, List.mem_cons] at hv
      rcases hv with hv | rfl | hv
      · exact h.beyond v (List.takeWhile_sublist _ |>.mem hv)
      · exact far
      · exact h.beyond v (List.dropWhile_sublist _ |>.mem hv)
    · intro d hd k' hk'
      have hne : d ≠ c := fun e => (h.serves.idle hc).2 (e ▸ hd)
      rw [update_of_ne hne] at hk'
      exact h.granted d hd k' hk'

theorem Agrees.leave [DecidableEq γ] (h : w.Agrees want released) (hc : c ∈ w.closed) :
    (w.leave c).Agrees (update want c none) released := by
  refine ⟨h.limit_pos, h.tracks, h.below, h.base_open, h.above, h.serves.leave hc, h.sorted,
    h.beyond, ?_⟩
  intro d hd k hk
  by_cases hdc : d = c
  · subst hdc; simp at hk
  · rw [update_of_ne hdc] at hk
    exact h.granted d (List.mem_of_mem_erase hd) k hk

theorem Agrees.remove [DecidableEq γ] (h : w.Agrees want released) (hc : c ∉ w.closed) :
    (w.remove c).Agrees (update want c none) released := by
  refine ⟨h.limit_pos, h.tracks, h.below, h.base_open, h.above, h.serves.giveUp hc,
    h.sorted.sublist List.filter_sublist, fun v hv => h.beyond v (List.mem_of_mem_filter hv), ?_⟩
  intro d hd k hk
  have hdc : d ≠ c := fun e => hc (e ▸ hd)
  rw [update_of_ne hdc] at hk
  exact h.granted d hd k hk

theorem wakeWinWaiters_agrees (htr : Tracks w.limit w.base w.released {i | i ∈ released})
    (hpos : 0 < w.limit) (hbelow : ∀ i, i < w.base → i ∈ released) (hopen : w.base ∉ released)
    (habove : ∀ i ∈ released, i < w.base + w.limit) (hserves : Serves want w.waiters w.closed)
    (hsorted : w.waiters.Pairwise fun v v' => v.key ≤ v'.key)
    (hkeys : ∀ v ∈ w.waiters, w.base ≤ v.key)
    (hgranted : ∀ c ∈ w.closed, ∀ k, want c = some k → k < w.base + w.limit) :
    w.wakeWinWaiters.Agrees want released := by
  obtain ⟨front, hsplit, hch, hfits⟩ := wake_split (fits w.base w.limit) w.inFlight w.waiters
  have head := @wake_head ℕ γ ℤ (fits w.base w.limit) w.inFlight w.waiters
  have serves := hserves.wake (fits w.base w.limit) w.inFlight
  refine ⟨hpos, htr, hbelow, hopen, habove, serves, ?_, ?_, ?_⟩
  · rw [hsplit] at hsorted
    exact (List.pairwise_append.mp hsorted).2.1
  · intro v hv
    change v ∈ (wake (fits w.base w.limit) w.inFlight w.waiters).2.1 at hv
    change w.base + w.limit ≤ v.key
    cases hrest : (wake (fits w.base w.limit) w.inFlight w.waiters).2.1 with
    | nil => simp [hrest] at hv
    | cons u rest =>
      have hnone := head hrest
      have hu : w.base + w.limit ≤ u.key := by
        by_contra hlt
        have hin : inWindow w.base w.limit u.key = true :=
          inWindow_iff.mpr ⟨hkeys u (by rw [hsplit, hrest]; simp), by omega⟩
        simp [fits, hin] at hnone
      rw [hsplit, hrest] at hsorted
      have tail := (List.pairwise_append.mp hsorted).2.1
      rw [hrest] at hv
      rcases List.mem_cons.mp hv with rfl | hv
      · exact hu
      · exact hu.trans ((List.pairwise_cons.mp tail).1 v hv)
  · intro d hd k hk
    rcases List.mem_append.mp hd with hd | hd
    · exact hgranted d hd k hk
    · rw [hch] at hd
      obtain ⟨v, hv, rfl⟩ := List.mem_map.mp hd
      have hkey := hserves.asleep v (by rw [hsplit]; exact List.mem_append_left _ hv)
      rw [hkey, Option.some.injEq] at hk
      obtain ⟨b, hb⟩ := hfits v hv
      by_cases hin : inWindow w.base w.limit v.key = true
      · exact hk ▸ (inWindow_iff.mp hin).2
      · simp [fits, hin] at hb

theorem Agrees.release (h : w.Agrees want released) (hid : id ∉ released)
    (hlt : id < w.base + w.limit) :
    (w.release id).Agrees want (released ++ [id]) ∧ (w.release id).limit = w.limit ∧
      w.base ≤ (w.release id).base := by
  have low := h.base_le hid
  have clear : w.released (id % w.limit) ≠ true := fun hb => hid ((h.tracks id low hlt).mp hb)
  have mem : ∀ i, i ∈ released ++ [id] ↔ i ∈ insert id {i | i ∈ released} := by
    intro i
    simp [or_comm]
  have tr := tracks_insert h.tracks low hlt
  have outside : ∀ i, w.base + w.limit ≤ i → i ∉ insert id {i | i ∈ released} := by
    rintro i hi (rfl | hm)
    · omega
    · have := h.above i hm
      omega
  obtain ⟨hle, hall, hnot, htr⟩ := advance_spec w.limit tr outside le_rfl
  have base_le : (advance w.limit w.limit (update w.released (id % w.limit) true) w.base).2 ≤
      w.base + w.limit := by
    by_contra hgt
    exact outside (w.base + w.limit) le_rfl (hall _ (by omega) (by omega))
  unfold WindowSemaphore.release
  rw [if_neg clear]
  generalize advance w.limit w.limit (update w.released (id % w.limit) true) w.base = ring at *
  refine ⟨?_, rfl, hle⟩
  have woken := @wakeWinWaiters_agrees γ want (released ++ [id])
    { w with released := ring.1, base := ring.2, inFlight := w.inFlight - 1 }
    (fun i hi hi' => (htr i hi hi').trans (mem i).symm) h.limit_pos
    (fun i hi => (mem i).mpr ?_) (fun hm => hnot ((mem _).mp hm))
    (fun i hm => ?_) h.serves h.sorted (fun v hv => base_le.trans (h.beyond v hv))
    (fun d hd k hk => Nat.lt_of_lt_of_le (h.granted d hd k hk) (Nat.add_le_add_right hle _))
  · exact ⟨woken.limit_pos, woken.tracks, woken.below, woken.base_open, woken.above, woken.serves,
      woken.sorted, woken.beyond, woken.granted⟩
  · by_cases hib : i < w.base
    · exact .inr (h.below i hib)
    · exact hall i (by omega) hi
  · have : i < w.base + w.limit := by
      by_contra hge
      exact outside i (by omega) ((mem i).mp hm)
    change i < ring.2 + w.limit
    omega

end WindowSemaphore

end Semaphore

variable {R S : ℕ} {cfg : Config} {done : Bool} {re : ReaderEvent} {we : WorkerEvent}
  {a : Action R S}

/-- Only the first `fed.length` numbers are request ids, each once: `0, 1, 2, …`. -/
def Numbered (fed : List ChangeBlock) : Prop := fed.map (·.reqID) = List.range fed.length

theorem Numbered.nodup {log : Log} (h : Numbered log.fed) : log.fedIds.Nodup := by
  rw [Log.fedIds, h]
  exact List.nodup_range

theorem Numbered.lt {fed : List ChangeBlock} (h : Numbered fed) {b : ChangeBlock} (hb : b ∈ fed) :
    b.reqID < fed.length := by
  have mem := List.mem_map_of_mem (f := fun b : ChangeBlock => b.reqID) hb
  rw [h] at mem
  exact List.mem_range.mp mem

theorem Numbered.concat {fed : List ChangeBlock} (h : Numbered fed) {b : ChangeBlock}
    (hb : b.reqID = fed.length) : Numbered (fed ++ [b]) := by
  rw [Numbered, List.map_append, h, List.length_append, List.length_singleton, List.range_succ]
  simp [hb]

def ReaderPC.wantWin : ReaderPC → Option ℕ
  | .winWait c => some c.reqID
  | _ => none

def ReaderPC.slots : ReaderPC → List ℕ
  | .read c | .freeMem c => [c.reqID]
  | .emit rc => [rc.reqID]
  | .releasing h _ => if h.hasWin then [h.reqID] else []
  | _ => []

def Shared.horizon (sh : Shared R) : ℕ := sh.win.base + sh.win.limit

structure State.Windowed (s : State R S) : Prop where
  agrees : s.shared.win.Agrees (fun r => (s.readers r).wantWin) s.log.released
  readers : ∀ r, ∀ x ∈ (s.readers r).slots, x < s.shared.horizon
  readCh : ∀ rc ∈ s.shared.readCh.buf, rc.reqID < s.shared.horizon
  workers : ∀ i, ∀ x ∈ (s.workers i).unsent ++ (s.workers i).underway, x < s.shared.horizon

theorem ids_fresh {s : State R S} (h : Reach (step cfg) (init cfg R S) s) (hn : s.log.fedIds.Nodup)
    {x : ℕ} (hx : (∃ r, x ∈ (s.readers r).ids) ∨ ∃ i,
    x ∈ (s.workers i).unsent ++ (s.workers i).underway) :
    x ∉ s.log.released := by
  have placed := reach_placed h x
  have settled := reach_settled h x
  have once := List.nodup_iff_count_le_one.mp hn x
  simp only [Shared.placed, Log.gone, Log.left, List.count_append, State.log] at placed settled once
  rw [← List.count_eq_zero, State.log]
  rcases hx with ⟨r, hr⟩ | ⟨i, hi⟩
  · have mine := le_sum (fun pc : ReaderPC => pc.ids.count x) s.readers r
    have pos := List.count_pos_iff.mpr hr
    omega
  · rcases List.mem_append.mp hi with hi | hi
    · have mine := le_sum (fun w : SendWorker => w.unsent.count x) s.workers i
      have pos := List.count_pos_iff.mpr hi
      omega
    · have mine := le_sum (fun w : SendWorker => w.underway.count x) s.workers i
      have pos := List.count_pos_iff.mpr hi
      omega

theorem afterWin_slots {c : Chunk} {b : ℕ} (hc : c.reqID < b) :
    ∀ x ∈ (afterWin c).slots, x < b := by
  unfold afterWin
  split <;> simpa [ReaderPC.slots, zeroChunk] using hc

theorem afterWin_wantWin (c : Chunk) : (afterWin c).wantWin = none := by
  unfold afterWin
  split <;> rfl

structure ReaderStep.Window (r : Fin R) (want : Fin R → Option ℕ) (pc' : ReaderPC)
    (sh sh' : Shared R) : Prop where
  agrees : sh'.win.Agrees (update want r pc'.wantWin) sh'.log.released
  horizon : sh.horizon ≤ sh'.horizon
  slots : ∀ x ∈ pc'.slots, x < sh'.horizon
  readCh : ∀ rc ∈ sh'.readCh.buf, rc.reqID < sh'.horizon

theorem ReaderStep.window {r : Fin R} {pc pc' : ReaderPC} {sh sh' : Shared R}
    {want : Fin R → Option ℕ} (h : ReaderStep cfg done r pc sh re pc' sh')
    (ha : sh.win.Agrees want sh.log.released) (hw : want r = pc.wantWin)
    (hp : pc.Carries cfg sh.log) (hfresh : ∀ x ∈ pc.ids, x ∉ sh.log.released)
    (hslots : ∀ x ∈ pc.slots, x < sh.horizon)
    (hread : ∀ rc ∈ sh.readCh.buf, rc.reqID < sh.horizon) :
    ReaderStep.Window r want pc' sh sh' := by
  have idle : pc.wantWin = none → pc'.wantWin = none → update want r pc'.wantWin = want := by
    intro hn hn'
    rw [hn', ← hn, ← hw, update_eq_self]
  cases h with
  | recvZero | recvData | recvClosed | recvDone | memTake | memQueue | memWoken | memGiveUp =>
    exact ⟨by rw [idle rfl rfl]; exact ha, le_rfl, by simp [ReaderPC.slots], hread⟩
  | @winTake sh c hc =>
    have lt := WindowSemaphore.acquire_true hc
    have agrees := ha.acquire_granted hc
    have hor : ({ sh with win := (sh.win.acquire c.reqID r).1 } : Shared R).horizon =
      sh.horizon := by
      simp only [Shared.horizon, WindowSemaphore.acquire_frame]
    refine ⟨by rw [idle rfl (afterWin_wantWin c)]; exact agrees, hor.ge, ?_, ?_⟩
    · rw [hor]; exact afterWin_slots lt
    · rw [hor]; exact hread
  | @winQueue sh c hc =>
    have agrees := ha.acquire_queued hw (hfresh c.reqID (by simp [ReaderPC.ids])) hc
    have hor : ({ sh with win := (sh.win.acquire c.reqID r).1 } : Shared R).horizon =
      sh.horizon := by
      simp only [Shared.horizon, WindowSemaphore.acquire_frame]
    refine ⟨agrees, hor.ge, by simp [ReaderPC.slots], ?_⟩
    rw [hor]; exact hread
  | @winWoken sh c b hc =>
    refine ⟨by rw [afterWin_wantWin]; exact ha.leave hc, le_rfl, ?_, hread⟩
    exact afterWin_slots (ha.granted r hc c.reqID hw)
  | winGiveUp hd hc => exact ⟨ha.remove hc, le_rfl, by simp [ReaderPC.slots], hread⟩
  | readFail | readZero | readData | freeMem =>
    exact ⟨by rw [idle rfl rfl]; exact ha, le_rfl, hslots, hread⟩
  | @emit sh rc =>
    refine ⟨by rw [idle rfl rfl]; exact ha, le_rfl, by simp [ReaderPC.slots], ?_⟩
    intro rc' hrc
    rcases List.mem_append.mp hrc with hrc | hrc
    · exact hread rc' hrc
    · exact List.mem_singleton.mp hrc ▸ hslots rc.reqID (by simp [ReaderPC.slots])
  | emitDone =>
    refine ⟨by rw [idle rfl rfl]; exact ha, le_rfl, ?_, hread⟩
    rw [ReaderPC.slots, if_pos (Delivers.hasWin hp), hp.held_reqID]
    exact hslots
  | relMem => exact ⟨by rw [idle rfl rfl]; exact ha, le_rfl, hslots, hread⟩
  | @relWin sh hd err hm hh =>
    have mem : hd.reqID ∈ (ReaderPC.releasing hd err).ids := by simp [ReaderPC.ids, hh]
    have slot : hd.reqID ∈ (ReaderPC.releasing hd err).slots := by simp [ReaderPC.slots, hh]
    obtain ⟨agrees, limit, base⟩ := ha.release (hfresh _ mem) (hslots _ slot)
    have hor : sh.horizon ≤ (sh.forfeit hd.reqID).horizon := by
      simp only [Shared.horizon, Shared.forfeit, limit]
      omega
    exact ⟨by rw [idle rfl rfl]; exact agrees, hor, by simp [ReaderPC.slots],
      fun rc hrc => (hread rc hrc).trans_le hor⟩
  | relExit => exact ⟨by rw [idle rfl rfl]; exact ha, le_rfl, by simp [ReaderPC.slots], hread⟩

theorem WorkerStep.gone_le {w w' : SendWorker} {sh sh' : Shared R}
    (h : WorkerStep cfg done w sh we w' sh') (x : ℕ) :
    sh'.log.dropped = sh.log.dropped ∧ sh.log.gone.count x ≤ sh'.log.gone.count x := by
  cases h with
  | @free hd => cases hm : hd.hasMem <;> exact ⟨rfl, le_rfl⟩
  | abortWin | ackRelease | handlerLose =>
    refine ⟨rfl, ?_⟩
    simp only [Log.gone, Shared.forfeit, Shared.releaseAck, List.count_append]
    omega
  | _ => exact ⟨rfl, le_rfl⟩

theorem WorkerStep.ids_of {w w' : SendWorker} {sh sh' : Shared R}
    (h : WorkerStep cfg done w sh we w' sh') (hw : w.Carries cfg sh.log) {x : ℕ}
    (hx : x ∈ w'.unsent ++ w'.underway) :
    x ∈ w.unsent ++ w.underway ∨ ∃ rc ∈ sh.readCh.buf, rc.reqID = x := by
  have placed := h.placed hw x
  have settled := h.settled x
  obtain ⟨dropped, gone⟩ := h.gone_le x
  have pos := List.count_pos_iff.mpr hx
  simp only [Shared.placed, Log.left, dropped, h.channels.chunkCh, List.count_append] at *
  have : 0 < (w.unsent ++ w.underway).count x + (sh.readCh.buf.map (·.reqID)).count x := by
    rw [List.count_append]
    omega
  rcases Nat.eq_zero_or_pos ((w.unsent ++ w.underway).count x) with hz | hp
  · rw [hz, zero_add, List.count_pos_iff] at this
    exact .inr (List.mem_map.mp this)
  · exact .inl (List.count_pos_iff.mp hp)

structure WorkerStep.Window (want : Fin R → Option ℕ) (w' : SendWorker) (sh sh' : Shared R) :
    Prop where
  agrees : sh'.win.Agrees want sh'.log.released
  horizon : sh.horizon ≤ sh'.horizon
  ids : ∀ x ∈ w'.unsent ++ w'.underway, x < sh'.horizon
  readCh : ∀ rc ∈ sh'.readCh.buf, rc.reqID < sh'.horizon

theorem WorkerStep.window {w w' : SendWorker} {sh sh' : Shared R} {want : Fin R → Option ℕ}
    (h : WorkerStep cfg done w sh we w' sh') (ha : sh.win.Agrees want sh.log.released)
    (hw : w.Carries cfg sh.log) (hfresh : ∀ x ∈ w.unsent ++ w.underway, x ∉ sh.log.released)
    (hids : ∀ x ∈ w.unsent ++ w.underway, x < sh.horizon)
    (hread : ∀ rc ∈ sh.readCh.buf, rc.reqID < sh.horizon) : WorkerStep.Window want w' sh sh' := by
  have bound : ∀ x ∈ w'.unsent ++ w'.underway, x < sh.horizon := by
    intro x hx
    rcases h.ids_of hw hx with hx | ⟨rc, hrc, rfl⟩
    · exact hids x hx
    · exact hread rc hrc
  have release : ∀ {id : ℕ}, id ∈ w.unsent ++ w.underway →
      (sh.win.release id).Agrees want (sh.log.released ++ [id]) ∧
        sh.horizon ≤ (sh.win.release id).base + (sh.win.release id).limit := by
    intro id hid
    obtain ⟨agrees, limit, base⟩ := ha.release (hfresh id hid) (hids id hid)
    refine ⟨agrees, ?_⟩
    rw [limit, Shared.horizon]
    omega
  cases h with
  | take hp hs hb | overflow hp hs hb =>
    exact ⟨ha, le_rfl, bound, fun rc hrc => hread rc (by rw [hb]; exact List.mem_cons_of_mem _ hrc)⟩
  | @free hd => cases hm : hd.hasMem <;> exact ⟨ha, le_rfl, bound, hread⟩
  | @abortWin hd todo err hp hs hm hh =>
    obtain ⟨agrees, hor⟩ := @release hd.reqID
      (List.mem_append_left _ (by simp [SendWorker.unsent, hs, heldIds_cons, hh]))
    exact ⟨agrees, hor, fun x hx => (bound x hx).trans_le hor, fun rc hrc =>
      (hread rc hrc).trans_le hor⟩
  | @ackRelease id ids hp hk =>
    obtain ⟨agrees, hor⟩ := @release id
      (List.mem_append_right _ (by simp [SendWorker.underway, hk, AckPC.ids]))
    exact ⟨agrees, hor, fun x hx => (bound x hx).trans_le hor, fun rc hrc =>
      (hread rc hrc).trans_le hor⟩
  | _ => exact ⟨ha, le_rfl, bound, hread⟩

theorem PipelineStep.fed_grows {s s' : State R S} (h : PipelineStep cfg s a s') :
    s.log.fed <+: s'.log.fed := by
  cases h with
  | next => exact List.prefix_append _ _
  | reader hr => exact ⟨[], (List.append_nil _).trans hr.fed_eq.symm⟩
  | worker hw => exact ⟨[], (List.append_nil _).trans hw.fed_eq.symm⟩
  | _ => exact List.prefix_refl _

theorem PipelineStep.windowed {s s' : State R S} (h : PipelineStep cfg s a s')
    (hr : Reach (step cfg) (init cfg R S) s) (hn : s.log.fedIds.Nodup) (hs : s.Windowed) :
    s'.Windowed := by
  have carries := reach_carries hr
  cases h with
  | @reader r e pc sh hstep =>
    have win := hstep.window hs.agrees rfl (carries.readers r)
      (fun x hx => ids_fresh hr hn (.inl ⟨r, hx⟩)) (hs.readers r) hs.readCh
    have want : (fun j => (update s.readers r pc j).wantWin) =
        update (fun j => (s.readers j).wantWin) r pc.wantWin :=
      funext fun j => apply_update (fun _ => ReaderPC.wantWin) s.readers r pc j
    refine ⟨by simp only [want]; exact win.agrees, ?_, win.readCh,
      fun i x hx => (hs.workers i x hx).trans_le win.horizon⟩
    exact forall_update (P := fun _ pc => ∀ x ∈ ReaderPC.slots pc, x < _) win.slots
      fun j _ x hx => (hs.readers j x hx).trans_le win.horizon
  | @worker i e w sh hstep =>
    have win := hstep.window hs.agrees (carries.workers i)
      (fun x hx => ids_fresh hr hn (.inr ⟨i, hx⟩)) (hs.workers i) hs.readCh
    refine ⟨win.agrees, fun r x hx => (hs.readers r x hx).trans_le win.horizon, win.readCh, ?_⟩
    exact forall_update (P := fun _ w => ∀ x ∈ SendWorker.unsent w ++ SendWorker.underway w, x < _)
      win.ids fun j _ x hx => (hs.workers j x hx).trans_le win.horizon
  | takeRelease => exact ⟨hs.agrees.takeRelease, hs.readers, hs.readCh, hs.workers⟩
  | _ => exact ⟨hs.agrees, hs.readers, hs.readCh, hs.workers⟩

theorem reach_windowed (hw : 0 < cfg.maxWindow) {s : State R S}
    (h : Reach (step cfg) (init cfg R S) s) (hn : s.log.fedIds.Nodup) : s.Windowed := by
  revert hn
  refine h.invariant (P := fun s => s.log.fedIds.Nodup → s.Windowed) ?_ ?_
  · intro _
    refine ⟨WindowSemaphore.new_agrees (by omega), ?_, ?_, ?_⟩
    · simp [init, ReaderPC.slots]
    · simp [init, Chan.new]
    · simp [init, SendWorker.init, SendWorker.unsent, SendWorker.underway, Batch.ids, Batch.empty,
        Handler.ids, AckPC.ids]
  · intro s a s' reached ih next hn
    have before : s.log.fedIds.Nodup :=
      hn.sublist ((step_cases next).fed_grows.sublist.map _)
    exact (step_cases next).windowed reached before (ih before)

end CephVolsync.Pipeline
