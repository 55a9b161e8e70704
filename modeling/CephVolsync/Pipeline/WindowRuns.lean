import CephVolsync.Pipeline.Window

/-! The window semaphore on its own, under any use: every id is acquired at most once, the
waiting callers may be cancelled, and a slot is given back after its `Acquire` has
returned nil. A second `Release` of an id is a step of its own: the peer decides how often
it acknowledges an id. -/

namespace CephVolsync.Pipeline

open Function TransitionSystem WaitQueue SlidingWindow

/-- The semaphore and the history of the calls. Each `Acquire` sleeps on a channel of its
own, named by its id. -/
structure WindowRun where
  sem : WindowSemaphore ℕ
  called : List ℕ
  returned : List ℕ
  cancelled : List ℕ
  released : List ℕ

/-- `woken` is an `Acquire` that returns nil because its channel is closed, also when its
context is done at the same time; `again` is a `Release` of an id that was released. -/
inductive WindowCall where
  | acquire (id : ℕ)
  | woken (id : ℕ)
  | cancel (id : ℕ)
  | release (id : ℕ)
  | again (id : ℕ)
  deriving DecidableEq, Repr

namespace WindowRun

def start (maxWindow : ℕ) : WindowRun := ⟨.new maxWindow, [], [], [], []⟩

/-- The `Acquire` of `id` has neither returned nil nor been cancelled. -/
def waits (s : WindowRun) (id : ℕ) : Bool := id ∈ s.called ∧ id ∉ s.returned ∧ id ∉ s.cancelled

def want (s : WindowRun) (id : ℕ) : Option ℕ := if s.waits id then some id else none

def step (s : WindowRun) : WindowCall → Option WindowRun
  | .acquire id =>
    if id ∈ s.called then none
    else
      let r := s.sem.acquire id id
      some { s with
        sem := r.1
        called := s.called ++ [id]
        returned := if r.2 then s.returned ++ [id] else s.returned }
  | .woken id =>
    if id ∈ s.sem.closed then some { s with sem := s.sem.leave id, returned := s.returned ++ [id] }
    else none
  | .cancel id =>
    if s.waits id ∧ id ∉ s.sem.closed then
      some { s with sem := s.sem.remove id, cancelled := s.cancelled ++ [id] }
    else none
  | .release id =>
    if id ∈ s.returned ∧ id ∉ s.released then
      some { s with sem := s.sem.release id, released := s.released ++ [id] }
    else none
  | .again id => if id ∈ s.released then some { s with sem := s.sem.release id } else none

/-- Ids whose slot is taken: `Acquire` has returned nil or is about to. -/
def acquired (s : WindowRun) : List ℕ := s.returned ++ s.sem.closed

def inUse (s : WindowRun) : List ℕ := s.acquired.filter (· ∉ s.released)

end WindowRun

namespace WindowSemaphore

variable {γ : Type} {w : WindowSemaphore γ} {id : ℕ}

theorem acquire_closed (w : WindowSemaphore γ) (id : ℕ) (c : γ) :
    (w.acquire id c).1.closed = w.closed := by
  unfold acquire
  split <;> rfl

theorem acquire_inFlight (w : WindowSemaphore γ) (id : ℕ) (c : γ) :
    (w.acquire id c).1.inFlight = w.inFlight + if (w.acquire id c).2 then 1 else 0 := by
  unfold acquire
  split <;> simp

theorem fits_one (base limit : ℕ) (inFlight : ℤ) (k : ℕ) (inFlight' : ℤ)
    (h : fits base limit inFlight k = some inFlight') : inFlight' = inFlight + 1 := by
  unfold fits at h
  split at h <;> cases h
  rfl

theorem wakeWinWaiters_inFlight (w : WindowSemaphore γ) :
    w.wakeWinWaiters.inFlight - w.wakeWinWaiters.closed.length = w.inFlight - w.closed.length := by
  have count := wake_count (fits w.base w.limit) w.inFlight (fits_one _ _) w.waiters
  simp only [wakeWinWaiters, List.length_append]
  omega

theorem wakeWinWaiters_length (w : WindowSemaphore γ) :
    w.wakeWinWaiters.waiters.length + w.wakeWinWaiters.closed.length =
      w.waiters.length + w.closed.length := by
  obtain ⟨front, waiters, closed, -⟩ := wake_split (fits w.base w.limit) w.inFlight w.waiters
  have length := congrArg List.length waiters
  simp only [wakeWinWaiters, closed, List.length_append, List.length_map] at length ⊢
  omega

theorem release_inFlight (clear : w.released (id % w.limit) = false) :
    (w.release id).inFlight - (w.release id).closed.length = w.inFlight - 1 - w.closed.length := by
  simp only [release, clear, Bool.false_eq_true, if_false]
  exact wakeWinWaiters_inFlight _

theorem release_stops (hl : 0 < w.limit) (clear : w.released (id % w.limit) = false) :
    (w.release id).released ((w.release id).base % w.limit) = false := by
  simp only [release, clear, Bool.false_eq_true, if_false]
  exact advance_stops hl _ _ _ (marked_card_le _ _)

end WindowSemaphore

namespace WindowRun

structure Sound (maxWindow : ℕ) (s : WindowRun) : Prop where
  limit : s.sem.limit = 2 * maxWindow
  agrees : s.sem.Agrees s.want s.released
  returned_called : ∀ id ∈ s.returned, id ∈ s.called
  returned_nodup : s.returned.Nodup
  cancelled : ∀ id ∈ s.cancelled, id ∈ s.called ∧ id ∉ s.returned
  released_returned : ∀ id ∈ s.released, id ∈ s.returned
  released_nodup : s.released.Nodup
  window : ∀ id ∈ s.returned, id < s.sem.base + s.sem.limit
  inFlight : s.sem.inFlight = s.returned.length + s.sem.closed.length - s.released.length

theorem start_sound {maxWindow : ℕ} (h : 0 < maxWindow) : (start maxWindow).Sound maxWindow where
  limit := rfl
  agrees := WindowSemaphore.new_agrees h
  returned_called := by simp [start]
  returned_nodup := List.nodup_nil
  cancelled := by simp [start]
  released_returned := by simp [start]
  released_nodup := List.nodup_nil
  window := by simp [start]
  inFlight := by simp [start, WindowSemaphore.new]

theorem waits_iff {s : WindowRun} {id : ℕ} :
    s.waits id = true ↔ id ∈ s.called ∧ id ∉ s.returned ∧ id ∉ s.cancelled := by
  simp [waits]

theorem want_eq (s s' : WindowRun) (id : ℕ) (other : ∀ j, j ≠ id → s'.waits j = s.waits j) :
    s'.want = update s.want id (s'.want id) := by
  funext j
  by_cases hj : j = id
  · subst hj
    rw [update_self]
  · rw [update_of_ne hj, want, want, other j hj]

theorem nodup_snoc {ids : List ℕ} {id : ℕ} (h : ids.Nodup) (fresh : id ∉ ids) :
    (ids ++ [id]).Nodup := by
  rw [← List.concat_eq_append]
  exact h.concat fresh

theorem Sound.acquire {maxWindow : ℕ} {s : WindowRun} (hs : s.Sound maxWindow) {id : ℕ}
    (fresh : id ∉ s.called) :
    Sound maxWindow { s with
      sem := (s.sem.acquire id id).1
      called := s.called ++ [id]
      returned := if (s.sem.acquire id id).2 then s.returned ++ [id] else s.returned } := by
  have notReturned : id ∉ s.returned := fun h => fresh (hs.returned_called id h)
  have notReleased : id ∉ s.released := fun h => notReturned (hs.released_returned id h)
  have notCancelled : id ∉ s.cancelled := fun h => fresh (hs.cancelled id h).1
  have idle : s.want id = none := by simp [want, waits, fresh]
  obtain ⟨base, limit⟩ := WindowSemaphore.acquire_frame (w := s.sem) (k := id) (c := id)
  have inFlight := s.sem.acquire_inFlight id id
  have balance := hs.inFlight
  have closed := s.sem.acquire_closed id id
  cases hg : (s.sem.acquire id id).2 with
  | true =>
    let s' : WindowRun := { s with
      sem := (s.sem.acquire id id).1, called := s.called ++ [id], returned := s.returned ++ [id] }
    have want : s'.want = s.want := by
      rw [want_eq s s' id fun j hj => by simp [waits, s', hj]]
      have done : s'.want id = none := by simp [WindowRun.want, waits, s']
      rw [done, ← idle, update_eq_self]
    refine ⟨limit.trans hs.limit, want ▸ hs.agrees.acquire_granted hg, ?_, ?_, ?_, ?_,
      hs.released_nodup, ?_, ?_⟩
    · simp only [if_true, List.mem_append, List.mem_singleton]
      rintro j (hj | rfl)
      · exact .inl (hs.returned_called j hj)
      · exact .inr rfl
    · exact nodup_snoc hs.returned_nodup notReturned
    · intro j hj
      obtain ⟨called, out⟩ := hs.cancelled j hj
      have ne : j ≠ id := fun e => notCancelled (e ▸ hj)
      exact ⟨List.mem_append_left _ called, by simp [ne, out]⟩
    · intro j hj
      exact List.mem_append_left _ (hs.released_returned j hj)
    · simp only [if_true, base, limit, List.mem_append, List.mem_singleton]
      rintro j (hj | rfl)
      · exact hs.window j hj
      · exact WindowSemaphore.acquire_true hg
    · simp only [hg, if_true] at inFlight ⊢
      rw [inFlight, closed, balance, List.length_append]
      simp only [List.length_singleton, Nat.cast_add, Nat.cast_one]
      ring
  | false =>
    let s' : WindowRun := { s with sem := (s.sem.acquire id id).1, called := s.called ++ [id] }
    have want : s'.want = update s.want id (some id) := by
      rw [want_eq s s' id fun j hj => by simp [waits, s', hj]]
      have asleep : s'.want id = some id := by
        simp [WindowRun.want, waits, s', notReturned, notCancelled]
      rw [asleep]
    have agrees := hs.agrees.acquire_queued idle notReleased hg
    rw [← want] at agrees
    refine ⟨limit.trans hs.limit, agrees, ?_, hs.returned_nodup, ?_, hs.released_returned,
      hs.released_nodup, ?_, ?_⟩
    · intro j hj
      exact List.mem_append_left _ (hs.returned_called j hj)
    · intro j hj
      exact ⟨List.mem_append_left _ (hs.cancelled j hj).1, (hs.cancelled j hj).2⟩
    · simp only [base, limit]
      exact hs.window
    · simp only [hg, Bool.false_eq_true, if_false, add_zero] at inFlight ⊢
      rw [inFlight, closed, balance]

theorem Sound.woken {maxWindow : ℕ} {s : WindowRun} (hs : s.Sound maxWindow) {id : ℕ}
    (hc : id ∈ s.sem.closed) :
    Sound maxWindow { s with sem := s.sem.leave id, returned := s.returned ++ [id] } := by
  let s' : WindowRun := { s with sem := s.sem.leave id, returned := s.returned ++ [id] }
  have waiting : s.waits id = true := by
    by_contra idle
    exact hs.agrees.serves.woken id hc (by simp [WindowRun.want, idle])
  obtain ⟨called, notReturned, notCancelled⟩ := waits_iff.mp waiting
  have want : s'.want = update s.want id none := by
    rw [want_eq s s' id fun j hj => by simp [waits, s', hj]]
    have done : s'.want id = none := by simp [WindowRun.want, waits, s']
    rw [done]
  have agrees := hs.agrees.leave hc
  rw [← want] at agrees
  have granted := hs.agrees.granted id hc id (by simp [WindowRun.want, waiting])
  refine ⟨hs.limit, agrees, ?_, ?_, ?_, ?_, hs.released_nodup, ?_, ?_⟩
  · simp only [List.mem_append, List.mem_singleton]
    rintro j (hj | rfl)
    · exact hs.returned_called j hj
    · exact called
  · exact nodup_snoc hs.returned_nodup notReturned
  · intro j hj
    obtain ⟨called, out⟩ := hs.cancelled j hj
    have ne : j ≠ id := fun e => notCancelled (e ▸ hj)
    exact ⟨called, by simp [out, ne]⟩
  · intro j hj
    exact List.mem_append_left _ (hs.released_returned j hj)
  · simp only [List.mem_append, List.mem_singleton]
    rintro j (hj | rfl)
    · exact hs.window j hj
    · exact granted
  · have erased := List.length_erase_of_mem hc
    have pos := List.length_pos_of_mem hc
    have balance := hs.inFlight
    simp only [WindowSemaphore.leave, List.length_append, List.length_singleton]
    omega

theorem Sound.cancel {maxWindow : ℕ} {s : WindowRun} (hs : s.Sound maxWindow) {id : ℕ}
    (waiting : s.waits id = true) (hc : id ∉ s.sem.closed) :
    Sound maxWindow { s with sem := s.sem.remove id, cancelled := s.cancelled ++ [id] } := by
  let s' : WindowRun := { s with sem := s.sem.remove id, cancelled := s.cancelled ++ [id] }
  obtain ⟨called, notReturned, -⟩ := waits_iff.mp waiting
  have want : s'.want = update s.want id none := by
    rw [want_eq s s' id fun j hj => by simp [waits, s', hj]]
    have done : s'.want id = none := by simp [WindowRun.want, waits, s']
    rw [done]
  have agrees := hs.agrees.remove hc
  rw [← want] at agrees
  refine ⟨hs.limit, agrees, hs.returned_called, hs.returned_nodup, ?_, hs.released_returned,
    hs.released_nodup, hs.window, hs.inFlight⟩
  simp only [List.mem_append, List.mem_singleton]
  rintro j (hj | rfl)
  · exact hs.cancelled j hj
  · exact ⟨called, notReturned⟩

theorem Sound.release {maxWindow : ℕ} {s : WindowRun} (hs : s.Sound maxWindow) {id : ℕ}
    (hid : id ∈ s.returned) (fresh : id ∉ s.released) :
    Sound maxWindow { s with sem := s.sem.release id, released := s.released ++ [id] } := by
  have lt := hs.window id hid
  obtain ⟨agrees, limit, base⟩ := hs.agrees.release fresh lt
  have clear : s.sem.released (id % s.sem.limit) = false := by
    have tracked := hs.agrees.tracks id (hs.agrees.base_le fresh) lt
    simpa using mt tracked.mp fresh
  have inFlight := WindowSemaphore.release_inFlight clear
  refine ⟨limit.trans hs.limit, agrees, hs.returned_called, hs.returned_nodup, hs.cancelled, ?_, ?_,
    ?_, ?_⟩
  · simp only [List.mem_append, List.mem_singleton]
    rintro j (hj | rfl)
    · exact hs.released_returned j hj
    · exact hid
  · exact nodup_snoc hs.released_nodup fresh
  · intro j hj
    have inside := hs.window j hj
    show j < (s.sem.release id).base + (s.sem.release id).limit
    omega
  · have balance := hs.inFlight
    simp only [List.length_append, List.length_singleton, Nat.cast_add, Nat.cast_one]
    omega

theorem Sound.released_cell {maxWindow : ℕ} {s : WindowRun} (hs : s.Sound maxWindow) (id : ℕ) :
    s.sem.released (id % s.sem.limit) = true ↔
      ∃ j ∈ s.released, s.sem.base ≤ j ∧ j % s.sem.limit = id % s.sem.limit := by
  constructor
  · intro set
    obtain ⟨j, hj, hj', cell⟩ := exists_cell s.sem.base (Nat.mod_lt id hs.agrees.limit_pos)
    exact ⟨j, (hs.agrees.tracks j hj hj').mp (by rw [cell]; exact set), hj, cell⟩
  · rintro ⟨j, released, hj, cell⟩
    rw [← cell]
    exact (hs.agrees.tracks j hj (hs.agrees.above j released)).mpr released

def firstReleases : WindowRun → WindowCall → Bool
  | _, .again _ => false
  | _, _ => true

/-- An id is released again only while the number that its cell stands for now has been
released: the id itself while it is in the window, behind it another one. -/
def harmless (s : WindowRun) : WindowCall → Bool
  | .again id => ∃ j ∈ s.released, s.sem.base ≤ j ∧ j % s.sem.limit = id % s.sem.limit
  | _ => true

theorem Sound.step {maxWindow : ℕ} {s s' : WindowRun} {c : WindowCall} (hs : s.Sound maxWindow)
    (allowed : s.harmless c = true) (h : s.step c = some s') : s'.Sound maxWindow := by
  cases c with
  | acquire id =>
    simp only [WindowRun.step] at h
    split at h <;> cases h
    exact hs.acquire ‹_›
  | woken id =>
    simp only [WindowRun.step] at h
    split at h <;> cases h
    exact hs.woken ‹_›
  | cancel id =>
    simp only [WindowRun.step] at h
    split at h <;> cases h
    rename_i waiting
    exact hs.cancel waiting.1 waiting.2
  | release id =>
    simp only [WindowRun.step] at h
    split at h <;> cases h
    rename_i held
    exact hs.release held.1 held.2
  | again id =>
    have set := (hs.released_cell id).mpr (by simpa [harmless] using allowed)
    simp only [WindowRun.step, WindowSemaphore.release, set, if_true] at h
    split at h <;> cases h
    exact hs

theorem reach_sound {maxWindow : ℕ} (hw : 0 < maxWindow) {s : WindowRun}
    (h : Reach (restrict harmless step) (start maxWindow) s) : s.Sound maxWindow :=
  h.invariant (start_sound hw) fun _ _ _ _ hs next =>
    have ⟨allowed, taken⟩ := restrict_eq_some.mp next
    hs.step allowed taken

theorem Sound.acquired_nodup {maxWindow : ℕ} {s : WindowRun} (hs : s.Sound maxWindow) :
    s.acquired.Nodup := by
  have closed := (List.nodup_append.mp hs.agrees.serves.nodup).2.1
  refine List.nodup_append.mpr ⟨hs.returned_nodup, closed, ?_⟩
  rintro id hid _ hc rfl
  have waiting : s.waits id = true := by
    by_contra idle
    exact hs.agrees.serves.woken id hc (by simp [WindowRun.want, idle])
  exact (waits_iff.mp waiting).2.1 hid

theorem Sound.inUse_length {maxWindow : ℕ} {s : WindowRun} (hs : s.Sound maxWindow) :
    (s.inUse.length : ℤ) = s.sem.inFlight := by
  have gone : (s.acquired.filter (· ∈ s.released)).Perm s.released := by
    have nodup := hs.acquired_nodup.filter (· ∈ s.released)
    refine (List.perm_ext_iff_of_nodup nodup hs.released_nodup).mpr fun id => ?_
    simp only [List.mem_filter, decide_eq_true_eq, and_iff_right_iff_imp]
    exact fun hid => List.mem_append_left _ (hs.released_returned id hid)
  have total := List.length_eq_length_filter_add (l := s.acquired) (· ∈ s.released)
  have balance := hs.inFlight
  have length := gone.length_eq
  have rest : s.acquired.filter (fun id => !decide (id ∈ s.released)) = s.inUse := by
    simp [inUse]
  rw [rest] at total
  simp only [acquired, List.length_append] at total length
  omega

structure Invariant (maxWindow : ℕ) (s : WindowRun) : Prop where
  limit : s.sem.limit = 2 * maxWindow
  /-- The loop of every `Release` has ended after `limit` turns at most. -/
  terminates : ∀ id, (s.sem.release id).released ((s.sem.release id).base % s.sem.limit) = false
  below : ∀ i < s.sem.base, i ∈ s.released
  base : s.sem.base ∉ s.released
  ring : ∀ i, s.sem.base ≤ i → i < s.sem.base + s.sem.limit →
    (s.sem.released (i % s.sem.limit) = true ↔ i ∈ s.released)
  window : ∀ i ∈ s.inUse, s.sem.base ≤ i ∧ i < s.sem.base + s.sem.limit
  distinct : s.inUse.Nodup
  inFlight : s.sem.inFlight = s.inUse.length
  sorted : s.sem.waiters.Pairwise fun v v' => v.key ≤ v'.key
  awake : ∀ id, s.waits id = true → id < s.sem.base + s.sem.limit → id ∈ s.sem.closed
  cancelled : ∀ id ∈ s.cancelled, id ∉ s.acquired ∧ ∀ v ∈ s.sem.waiters, v.key ≠ id
  isReleased : ∀ r, s.sem.isReleased r = true ↔ ∀ i ≤ r, i ∈ s.released

theorem Sound.isReleased {maxWindow : ℕ} {s : WindowRun} (hs : s.Sound maxWindow) (r : ℕ) :
    s.sem.isReleased r = true ↔ ∀ i ≤ r, i ∈ s.released := by
  simp only [WindowSemaphore.isReleased, decide_eq_true_eq]
  constructor
  · intro hr i hi
    exact hs.agrees.below i (by omega)
  · intro all
    by_contra hle
    exact hs.agrees.base_open (all _ (by omega))

theorem Sound.invariant {maxWindow : ℕ} {s : WindowRun} (hs : s.Sound maxWindow) :
    s.Invariant maxWindow where
  limit := hs.limit
  terminates := by
    intro id
    cases set : s.sem.released (id % s.sem.limit) with
    | false => exact WindowSemaphore.release_stops hs.agrees.limit_pos set
    | true =>
      have open_ := hs.agrees.tracks s.sem.base le_rfl (by have := hs.agrees.limit_pos; omega)
      simp only [WindowSemaphore.release, set, if_true]
      simpa using mt open_.mp hs.agrees.base_open
  below := hs.agrees.below
  base := hs.agrees.base_open
  ring := hs.agrees.tracks
  window := by
    intro i hi
    obtain ⟨held, fresh⟩ := List.mem_filter.mp hi
    refine ⟨hs.agrees.base_le (by simpa using fresh), ?_⟩
    rcases List.mem_append.mp held with returned | closed
    · exact hs.window i returned
    · obtain ⟨k, hk⟩ := Option.ne_none_iff_exists'.mp (hs.agrees.serves.woken i closed)
      have key : k = i := by
        unfold want at hk
        split at hk <;> cases hk
        rfl
      exact key ▸ hs.agrees.granted i closed k hk
  distinct := hs.acquired_nodup.filter _
  inFlight := hs.inUse_length.symm
  sorted := hs.agrees.sorted
  awake := by
    intro id waiting lt
    refine (hs.agrees.serves.present id id (by simp [want, waiting])).resolve_left fun asleep => ?_
    have beyond : s.sem.base + s.sem.limit ≤ id := hs.agrees.beyond _ asleep
    omega
  cancelled := by
    intro id hid
    have idle : s.want id = none := by simp [want, waits, hid]
    refine ⟨fun held => ?_, fun v hv key => ?_⟩
    · rcases List.mem_append.mp held with returned | closed
      · exact (hs.cancelled id hid).2 returned
      · exact hs.agrees.serves.woken id closed idle
    · have asleep := hs.agrees.serves.asleep v hv
      unfold want at asleep
      split at asleep
      · rename_i waiting
        have own : v.ch = v.key := Option.some.inj asleep
        rw [own, key] at waiting
        exact absurd (waits_iff.mp waiting).2.2 (by simp [hid])
      · cases asleep
  isReleased := hs.isReleased

/-- The invariant of `WindowSemaphore` in every state that calls of `Acquire`, cancellations
and first calls of `Release` lead to. -/
theorem window_invariant (maxWindow : ℕ) (hw : 0 < maxWindow) (s : WindowRun)
    (h : Reach (restrict firstReleases step) (start maxWindow) s) : s.Invariant maxWindow := by
  refine (reach_sound hw (h.weaken fun s c first => ?_)).invariant
  cases c with
  | again => cases first
  | _ => rfl

theorem window_invariant_two : ∃ s : WindowRun, s.sem.base = 2 ∧ s.inUse = [2] ∧
    s.cancelled = [5] ∧ s.Invariant 1 := by
  have run : ((exec (restrict firstReleases step) (start 1) [.acquire 0, .acquire 2, .acquire 1,
      .release 1, .release 0, .woken 2, .acquire 5, .cancel 5]).any
        fun s => s.sem.base = 2 ∧ s.inUse = [2] ∧ s.cancelled = [5]) = true := by
    decide +kernel
  obtain ⟨s, reached, hs⟩ := Reach.of_exec_any run
  simp only [decide_eq_true_eq] at hs
  exact ⟨s, hs.1, hs.2.1, hs.2.2, window_invariant 1 Nat.one_pos s reached⟩

theorem release_unchanged {γ : Type} (w : WindowSemaphore γ) (id : ℕ) :
    ((w.release id).base = w.base ∧ (w.release id).released = w.released ∧
      (w.release id).inFlight = w.inFlight ∧ (w.release id).waiters = w.waiters) ↔
      w.released (id % w.limit) = true := by
  constructor
  · rintro ⟨-, -, inFlight, waiters⟩
    by_contra set
    have clear : w.released (id % w.limit) = false := by simpa using set
    have balance := WindowSemaphore.release_inFlight clear
    have kept : (w.release id).waiters.length + (w.release id).closed.length =
        w.waiters.length + w.closed.length := by
      simp only [WindowSemaphore.release, clear, Bool.false_eq_true, if_false]
      exact WindowSemaphore.wakeWinWaiters_length _
    rw [waiters] at kept
    omega
  · intro set
    simp only [WindowSemaphore.release, set, if_true, and_self]

/-- A second `Release` of an id changes nothing exactly if it is harmless, and in a run
whose repeated releases are all harmless `IsReleased` never answers too early. -/
theorem repeated_release_noop (maxWindow : ℕ) (hw : 0 < maxWindow) (s : WindowRun)
    (h : Reach (restrict harmless step) (start maxWindow) s) :
    (∀ id ∈ s.released,
      ((s.sem.release id).base = s.sem.base ∧ (s.sem.release id).released = s.sem.released ∧
        (s.sem.release id).inFlight = s.sem.inFlight ∧
        (s.sem.release id).waiters = s.sem.waiters ↔ s.harmless (.again id) = true)) ∧
    ∀ r, s.sem.isReleased r = true → ∀ i ≤ r, i ∈ s.released := by
  have hs := reach_sound hw h
  refine ⟨fun id _ => ?_, fun r => (hs.isReleased r).mp⟩
  rw [release_unchanged, hs.released_cell]
  simp [harmless]

theorem repeated_release_noop_one : ∃ s : WindowRun, 1 ∈ s.released ∧ s.sem.base = 0 ∧
    (s.sem.release 1).inFlight = s.sem.inFlight := by
  have run : ((exec (restrict harmless step) (start 1)
      [.acquire 0, .acquire 1, .release 1, .again 1]).any
        fun s => 1 ∈ s.released ∧ s.sem.base = 0 ∧ s.harmless (.again 1) = true) = true := by
    decide +kernel
  obtain ⟨s, reached, hs⟩ := Reach.of_exec_any run
  simp only [decide_eq_true_eq] at hs
  obtain ⟨released, base, allowed⟩ := hs
  exact ⟨s, released, base,
    (((repeated_release_noop 1 Nat.one_pos s reached).1 1 released).mpr allowed).2.2.1⟩

/-- Id 0 is acknowledged twice: the second `Release` finds the cell of id 2, takes one off
`inFlight`, and after the release of 1 the window moves past 2, which nobody acquired. -/
theorem repeated_release_harms :
    (∃ s : WindowRun, Reach step (start 1) s ∧ 0 ∈ s.released ∧
      (s.sem.release 0).inFlight ≠ s.sem.inFlight ∧ (s.sem.release 0).released ≠ s.sem.released) ∧
    ∃ s : WindowRun, Reach step (start 1) s ∧ s.sem.isReleased 2 = true ∧ 2 ∉ s.released ∧
      2 ∉ s.called := by
  constructor
  · have run : ((exec step (start 1) [.acquire 0, .release 0]).any fun s =>
        0 ∈ s.released ∧ (s.sem.release 0).inFlight ≠ s.sem.inFlight ∧
          (s.sem.release 0).released 0 ≠ s.sem.released 0) = true := by
      decide +kernel
    obtain ⟨s, reached, hs⟩ := Reach.of_exec_any run
    simp only [decide_eq_true_eq] at hs
    exact ⟨s, reached, hs.1, hs.2.1, fun same => hs.2.2 (congrFun same 0)⟩
  · have run : ((exec step (start 1) [.acquire 0, .release 0, .again 0, .acquire 1, .release 1]).any
        fun s => s.sem.isReleased 2 = true ∧ 2 ∉ s.released ∧ 2 ∉ s.called) = true := by
      decide +kernel
    obtain ⟨s, reached, hs⟩ := Reach.of_exec_any run
    simp only [decide_eq_true_eq] at hs
    exact ⟨s, reached, hs⟩

end WindowRun

end CephVolsync.Pipeline
