import CephVolsync.Library.TransitionSystem
import CephVolsync.Pipeline.MemSemaphore64

/-! Any number of concurrent calls of `MemSemaphore.Acquire`, cut at the sections under the
mutex, with cancellations and releases in between: what is handed out, in which order, and
whether a request that fits can be left asleep. -/

namespace CephVolsync.Pipeline

open WaitQueue TransitionSystem Function

variable {γ : Type}

/-- Where a call of `Acquire` stands: queued, with its context done but before it has the mutex
again, returned with what it has not released yet, or returned with an error. -/
inductive AcquirePC where
  | idle
  | waiting (n : Int64)
  | cancelled (n : Int64)
  | holding (n : Int64)
  | failed
  deriving DecidableEq, Repr

def AcquirePC.want : AcquirePC → Option Int64
  | .waiting n | .cancelled n => some n
  | _ => none

/-- What the call has of the semaphore. A closed channel is a grant that it has yet to see. -/
def AcquirePC.held (pc : AcquirePC) (woken : Bool) : ℤ :=
  match pc with
  | .waiting n | .cancelled n => if woken then n.toInt else 0
  | .holding n => n.toInt
  | .idle | .failed => 0

def AcquirePC.Modest (capacity : Int64) : AcquirePC → Prop
  | .waiting n | .cancelled n => Fair capacity n
  | .holding n => 0 ≤ n.toInt
  | .idle | .failed => True

/-- The calls of `Acquire`, each with a name of its own, and the history of the calls in the
order of their first section and of the grants. -/
structure MemRun (γ : Type) where
  sem : MemSemaphore64 γ
  calls : γ → AcquirePC
  arrived : List γ
  granted : List γ

/-- `receive` is the receive from the waiter's channel, `cancel` the other branch of the select,
and `recheck` the section behind it. -/
inductive MemAction (γ : Type) where
  | acquire (c : γ) (n : Int64)
  | receive (c : γ)
  | cancel (c : γ)
  | recheck (c : γ)
  | release (c : γ) (n : Int64)
  deriving DecidableEq, Repr

namespace MemRun

def start (capacity : Int64) : MemRun γ := ⟨.new capacity, fun _ => .idle, [], []⟩

variable [DecidableEq γ]

def set (s : MemRun γ) (c : γ) (pc : AcquirePC) : MemRun γ :=
  { s with calls := update s.calls c pc }

def step (s : MemRun γ) : MemAction γ → Option (MemRun γ)
  | .acquire c n =>
    if s.calls c = .idle then
      let (sem, granted) := s.sem.acquire n c
      some { s.set c (if granted then .holding n else .waiting n) with
        sem := sem
        arrived := s.arrived ++ [c]
        granted := if granted then s.granted ++ [c] else s.granted }
    else none
  | .receive c =>
    match s.calls c with
    | .waiting n =>
      if c ∈ s.sem.closed then some { s.set c (.holding n) with sem := s.sem.leave c } else none
    | _ => none
  | .cancel c =>
    match s.calls c with
    | .waiting n => some (s.set c (.cancelled n))
    | _ => none
  | .recheck c =>
    match s.calls c with
    | .cancelled n =>
      if c ∈ s.sem.closed then some { s.set c (.holding n) with sem := s.sem.leave c }
      else some { s.set c .failed with sem := s.sem.remove c }
    | _ => none
  | .release c n =>
    match s.calls c with
    | .holding h =>
      some { s.set c (.holding (h - n)) with
        sem := s.sem.release n
        granted := s.granted ++ (s.sem.woken (s.sem.cur - n)).2.2 }
    | _ => none

/-- A call asks for at most the capacity and releases at most what it holds. -/
def proper (s : MemRun γ) : MemAction γ → Bool
  | .acquire _ n => Fair s.sem.capacity n
  | .release c n =>
    match s.calls c with
    | .holding h => 0 ≤ n.toInt ∧ n.toInt ≤ h.toInt
    | _ => false
  | _ => true

/-- A call that takes itself out of the queue is not the front, or the request behind it does
not fit. -/
def settled (s : MemRun γ) : MemAction γ → Bool
  | .recheck c =>
    match s.sem.waiters with
    | front :: next :: _ => front.ch ≠ c ∨ s.sem.capacity < s.sem.cur + next.key
    | _ => true
  | _ => true

def held (s : MemRun γ) (c : γ) : ℤ := (s.calls c).held (c ∈ s.sem.closed)

inductive Step (s : MemRun γ) : MemAction γ → MemRun γ → Prop
  | granted {c : γ} {n : Int64} : s.calls c = .idle → s.sem.cur + n ≤ s.sem.capacity →
      s.sem.waiters = [] →
      Step s (.acquire c n) ⟨{ s.sem with cur := s.sem.cur + n }, update s.calls c (.holding n),
        s.arrived ++ [c], s.granted ++ [c]⟩
  | queued {c : γ} {n : Int64} : s.calls c = .idle →
      (s.sem.waiters = [] → s.sem.capacity < s.sem.cur + n) →
      Step s (.acquire c n) ⟨{ s.sem with waiters := s.sem.waiters ++ [⟨n, c⟩] },
        update s.calls c (.waiting n), s.arrived ++ [c], s.granted⟩
  | returned {a : MemAction γ} {c : γ} {n : Int64} : a = .receive c ∨ a = .recheck c →
      (s.calls c).want = some n → c ∈ s.sem.closed →
      Step s a ⟨s.sem.leave c, update s.calls c (.holding n), s.arrived, s.granted⟩
  | cancel {c : γ} {n : Int64} : s.calls c = .waiting n →
      Step s (.cancel c) ⟨s.sem, update s.calls c (.cancelled n), s.arrived, s.granted⟩
  | failed {c : γ} {n : Int64} : s.calls c = .cancelled n → c ∉ s.sem.closed →
      Step s (.recheck c) ⟨s.sem.remove c, update s.calls c .failed, s.arrived, s.granted⟩
  | release {c : γ} {n h : Int64} : s.calls c = .holding h →
      Step s (.release c n) ⟨s.sem.release n, update s.calls c (.holding (h - n)), s.arrived,
        s.granted ++ (s.sem.woken (s.sem.cur - n)).2.2⟩

theorem step_cases {s s' : MemRun γ} {a : MemAction γ} (h : s.step a = some s') : Step s a s' := by
  cases a with
  | acquire c n =>
    simp only [step] at h
    split at h
    · rename_i idle
      by_cases free : s.sem.cur + n ≤ s.sem.capacity ∧ s.sem.waiters.length = 0
      · rw [MemSemaphore64.acquire, if_pos free] at h
        cases h
        exact .granted idle free.1 (List.eq_nil_of_length_eq_zero free.2)
      · rw [MemSemaphore64.acquire, if_neg free] at h
        cases h
        refine .queued idle fun empty => ?_
        rw [empty] at free
        exact Int64.not_le.mp fun le => free ⟨le, rfl⟩
    · cases h
  | receive c =>
    simp only [step] at h
    split at h
    · rename_i n hc
      split at h <;> cases h
      exact .returned (.inl rfl) (by rw [hc]; rfl) ‹_›
    · cases h
  | cancel c =>
    simp only [step] at h
    split at h
    · cases h
      exact .cancel ‹_›
    · cases h
  | recheck c =>
    simp only [step] at h
    split at h
    · rename_i n hc
      split at h <;> cases h
      · exact .returned (.inr rfl) (by rw [hc]; rfl) ‹_›
      · exact .failed hc ‹_›
    · cases h
  | release c n =>
    simp only [step] at h
    split at h
    · cases h
      exact .release ‹_›
    · cases h

section Calls

variable {calls : γ → AcquirePC} {c : γ} {waiting : List (Waiter Int64 γ)}
variable {closed arrived granted : List γ}

theorem want_update (calls : γ → AcquirePC) (c : γ) (pc : AcquirePC) :
    (fun d => (update calls c pc d).want) = update (fun d => (calls d).want) c pc.want :=
  comp_update AcquirePC.want calls c pc

theorem want_same {pc : AcquirePC} (h : (calls c).want = pc.want) :
    (fun d => (update calls c pc d).want) = fun d => (calls d).want := by
  rw [want_update, ← h]
  exact update_eq_self c _

theorem filter_update (before : calls c ≠ .failed) {pc : AcquirePC} (after : pc ≠ .failed)
    (l : List γ) :
    l.filter (fun d => update calls c pc d ≠ .failed) = l.filter fun d => calls d ≠ .failed := by
  refine List.filter_congr fun d _ => ?_
  by_cases same : d = c
  · rw [same, update_self]
    simp [before, after]
  · rw [update_of_ne same]

/-- The queue and the calls against the history, whatever the amounts are. -/
structure Queued (waiting : List (Waiter Int64 γ)) (closed : List γ) (calls : γ → AcquirePC)
    (arrived granted : List γ) : Prop where
  serves : Serves (fun c => (calls c).want) waiting closed
  mem_arrived : ∀ c, c ∈ arrived ↔ calls c ≠ .idle
  nodup : arrived.Nodup
  order : granted ++ waiting.map (·.ch) = arrived.filter fun c => calls c ≠ .failed
  mem_granted : ∀ c, c ∈ granted ↔ (∃ n, calls c = .holding n) ∨ c ∈ closed

namespace Queued

omit [DecidableEq γ] in
theorem fresh (h : Queued waiting closed calls arrived granted) (idle : calls c = .idle) :
    c ∉ closed ∧ c ∉ granted := by
  have away := (h.serves.idle (show (calls c).want = none by rw [idle]; rfl)).2
  refine ⟨away, fun hc => ?_⟩
  rcases (h.mem_granted c).mp hc with ⟨n, holding⟩ | hc
  · rw [idle] at holding
    cases holding
  · exact away hc

theorem arrived_update (h : Queued waiting closed calls arrived granted) (before : calls c ≠ .idle)
    {pc : AcquirePC} (after : pc ≠ .idle) (d : γ) :
    d ∈ arrived ↔ update calls c pc d ≠ .idle := by
  rw [h.mem_arrived]
  by_cases same : d = c
  · rw [same, update_self]
    simp [before, after]
  · rw [update_of_ne same]

theorem arrive (h : Queued waiting closed calls arrived granted) (idle : calls c = .idle)
    {pc : AcquirePC} (begun : pc ≠ .idle) (after : pc ≠ .failed) :
    (∀ d, d ∈ arrived ++ [c] ↔ update calls c pc d ≠ .idle) ∧ (arrived ++ [c]).Nodup ∧
      (arrived ++ [c]).filter (fun d => update calls c pc d ≠ .failed) =
        granted ++ waiting.map (·.ch) ++ [c] := by
  refine ⟨fun d => ?_, ?_, ?_⟩
  · rw [List.mem_append, List.mem_singleton, h.mem_arrived]
    by_cases same : d = c
    · simp [same, begun]
    · simp [same, update_of_ne]
  · have fresh : c ∉ arrived := fun hc => (h.mem_arrived c).mp hc idle
    exact List.nodup_append'.mpr
      ⟨h.nodup, List.nodup_singleton _, List.disjoint_singleton.mpr fresh⟩
  · rw [filter_update (by rw [idle]; nofun) after, List.filter_append, ← h.order]
    simp [idle]

theorem grant (h : Queued [] closed calls arrived granted) (idle : calls c = .idle) (n : Int64) :
    Queued [] closed (update calls c (.holding n)) (arrived ++ [c]) (granted ++ [c]) := by
  obtain ⟨members, nodup, order⟩ := h.arrive idle (show AcquirePC.holding n ≠ .idle by nofun) nofun
  refine ⟨?_, members, nodup, ?_, fun d => ?_⟩
  · rw [want_same (by rw [idle]; rfl)]
    exact h.serves
  · rw [order]
    simp
  · rw [List.mem_append, List.mem_singleton, h.mem_granted]
    by_cases same : d = c
    · simp [same]
    · simp [same, update_of_ne]

theorem enqueue (h : Queued waiting closed calls arrived granted) (idle : calls c = .idle)
    (n : Int64) :
    Queued (waiting ++ [⟨n, c⟩]) closed (update calls c (.waiting n)) (arrived ++ [c]) granted := by
  obtain ⟨members, nodup, order⟩ := h.arrive idle (show AcquirePC.waiting n ≠ .idle by nofun) nofun
  obtain ⟨away, ungranted⟩ := h.fresh idle
  refine ⟨?_, members, nodup, ?_, fun d => ?_⟩
  · rw [want_update]
    exact h.serves.enqueue (by rw [idle]; rfl) n waiting [] (List.append_nil _).symm
  · rw [order]
    simp
  · by_cases same : d = c
    · simp [same, away, ungranted]
    · rw [h.mem_granted, update_of_ne same]

theorem leave (h : Queued waiting closed calls arrived granted) {n : Int64}
    (want : (calls c).want = some n) (woken : c ∈ closed) :
    Queued waiting (closed.erase c) (update calls c (.holding n)) arrived granted := by
  have idle : calls c ≠ .idle := fun hc => by rw [hc] at want; cases want
  have failed : calls c ≠ .failed := fun hc => by rw [hc] at want; cases want
  refine ⟨?_, h.arrived_update idle nofun, h.nodup, ?_, fun d => ?_⟩
  · rw [want_update]
    exact h.serves.leave woken
  · rw [filter_update failed (by nofun)]
    exact h.order
  · rw [h.mem_granted]
    by_cases same : d = c
    · simp [same, woken]
    · simp [update_of_ne same, List.mem_erase_of_ne same]

theorem cancel (h : Queued waiting closed calls arrived granted) {n : Int64}
    (hc : calls c = .waiting n) :
    Queued waiting closed (update calls c (.cancelled n)) arrived granted := by
  refine ⟨?_, h.arrived_update (by rw [hc]; nofun) nofun, h.nodup, ?_, fun d => ?_⟩
  · rw [want_same (by rw [hc]; rfl)]
    exact h.serves
  · rw [filter_update (by rw [hc]; nofun) (by nofun)]
    exact h.order
  · rw [h.mem_granted]
    by_cases same : d = c
    · simp [same, hc]
    · rw [update_of_ne same]

theorem giveUp (h : Queued waiting closed calls arrived granted) {n : Int64}
    (hc : calls c = .cancelled n) (asleep : c ∉ closed) :
    Queued (waiting.filter fun w => w.ch ≠ c) closed (update calls c .failed) arrived granted := by
  have ungranted : c ∉ granted := fun hg => by simpa [hc, asleep] using (h.mem_granted c).mp hg
  refine ⟨?_, h.arrived_update (by rw [hc]; nofun) nofun, h.nodup, ?_, fun d => ?_⟩
  · rw [want_update]
    exact h.serves.giveUp asleep
  · have rest : arrived.filter (fun d => update calls c .failed d ≠ .failed) =
        (arrived.filter fun d => calls d ≠ .failed).filter fun d => d ≠ c := by
      rw [List.filter_filter]
      refine List.filter_congr fun d _ => ?_
      by_cases same : d = c
      · simp [same]
      · simp [same, update_of_ne]
    have keep : granted.filter (fun d => d ≠ c) = granted :=
      List.filter_eq_self.mpr fun d hd => decide_eq_true fun same => ungranted (same ▸ hd)
    rw [rest, ← h.order, List.filter_append, keep, List.filter_map]
    rfl
  · rw [h.mem_granted]
    by_cases same : d = c
    · simp [same, hc]
    · rw [update_of_ne same]

theorem wake (h : Queued waiting closed calls arrived granted) {m : Int64}
    (hc : calls c = .holding m) (m' : Int64) (fits : Int64 → Int64 → Option Int64) (cur : Int64) :
    Queued (WaitQueue.wake fits cur waiting).2.1 (closed ++ (WaitQueue.wake fits cur waiting).2.2)
      (update calls c (.holding m')) arrived
        (granted ++ (WaitQueue.wake fits cur waiting).2.2) := by
  refine ⟨?_, h.arrived_update (by rw [hc]; nofun) nofun, h.nodup, ?_, fun d => ?_⟩
  · rw [want_same (by rw [hc]; rfl)]
    exact h.serves.wake _ _
  · obtain ⟨front, split, woken, -⟩ := wake_split fits cur waiting
    rw [filter_update (by rw [hc]; nofun) (by nofun), ← h.order, woken, List.append_assoc,
      ← List.map_append, ← split]
  · rw [List.mem_append, List.mem_append, h.mem_granted]
    by_cases same : d = c
    · simp [same, hc]
    · rw [update_of_ne same, or_assoc]

end Queued

end Calls

def Tracked (s : MemRun γ) : Prop :=
  Queued s.sem.waiters s.sem.closed s.calls s.arrived s.granted

variable {s s' : MemRun γ} {a : MemAction γ} {c : γ}

omit [DecidableEq γ] in
theorem start_tracked (capacity : Int64) : (start capacity : MemRun γ).Tracked :=
  ⟨.empty, by simp [start], List.nodup_nil, rfl, by simp [start, MemSemaphore64.new]⟩

theorem Tracked.step (h : s.Tracked) (hs : Step s a s') : s'.Tracked := by
  unfold Tracked at h
  cases hs with
  | granted idle _ empty =>
    rw [empty] at h
    unfold Tracked
    simp only [empty]
    exact h.grant idle _
  | queued idle => exact h.enqueue idle _
  | returned _ want closed => exact h.leave want closed
  | cancel hc => exact h.cancel hc
  | failed hc asleep => exact h.giveUp hc asleep
  | release hc => exact h.wake hc _ _ _

structure Paid (s : MemRun γ) : Prop where
  modest : ∀ c, (s.calls c).Modest s.sem.capacity
  total : s.sem.cur.toInt = (s.granted.map s.held).sum
  le : s.sem.cur.toInt ≤ s.sem.capacity.toInt

theorem start_paid {capacity : Int64} (nonneg : 0 ≤ capacity.toInt) :
    (start capacity : MemRun γ).Paid :=
  ⟨fun _ => trivial, rfl, nonneg⟩

theorem held_nonneg {capacity : Int64} {pc : AcquirePC} (h : pc.Modest capacity) (woken : Bool) :
    0 ≤ pc.held woken := by
  cases pc with
  | idle | failed => exact le_rfl
  | holding n => exact h
  | waiting n | cancelled n =>
    cases woken with
    | false => exact le_rfl
    | true => exact h.1

theorem Paid.held_nonneg (h : s.Paid) : ∀ x ∈ s.granted.map s.held, 0 ≤ x := by
  intro x hx
  obtain ⟨c, -, rfl⟩ := List.mem_map.mp hx
  exact MemRun.held_nonneg (h.modest c) _

theorem Paid.fair (h : s.Paid) : Fair s.sem.capacity s.sem.cur :=
  ⟨h.total ▸ List.sum_nonneg h.held_nonneg, h.le⟩

theorem modest_update {capacity : Int64} {calls : γ → AcquirePC}
    (h : ∀ c, (calls c).Modest capacity) {pc : AcquirePC} (new : pc.Modest capacity) (d : γ) :
    (update calls c pc d).Modest capacity := by
  by_cases same : d = c
  · rw [same, update_self]
    exact new
  · rw [update_of_ne same]
    exact h d

theorem held_of_ne {closed closed' : List γ} {calls : γ → AcquirePC} {pc : AcquirePC} {d : γ}
    (other : d ≠ c) (same : d ∈ closed' ↔ d ∈ closed) :
    (update calls c pc d).held (d ∈ closed') = (calls d).held (d ∈ closed) := by
  rw [update_of_ne other]
  simp only [same]

theorem Modest.of_want {capacity n : Int64} {pc : AcquirePC} (h : pc.Modest capacity)
    (want : pc.want = some n) : Fair capacity n := by
  cases pc with
  | idle | holding | failed => cases want
  | waiting | cancelled =>
    cases want
    exact h

theorem Paid.grant (h : s.Paid) (tracked : s.Tracked) (small : s.sem.capacity.toInt < 2 ^ 62)
    {n : Int64} (idle : s.calls c = .idle) (le : s.sem.cur + n ≤ s.sem.capacity)
    (fair : Fair s.sem.capacity n) :
    Paid ⟨{ s.sem with cur := s.sem.cur + n }, update s.calls c (.holding n),
      s.arrived ++ [c], s.granted ++ [c]⟩ := by
  have fresh := (Queued.fresh tracked idle).2
  refine ⟨modest_update h.modest fair.1, ?_, Int64.le_iff_toInt_le.mp le⟩
  have old : s.granted.map (fun d => (update s.calls c (.holding n) d).held (d ∈ s.sem.closed)) =
      s.granted.map s.held :=
    List.map_congr_left fun d hd => held_of_ne (fun same => fresh (same ▸ hd)) Iff.rfl
  rw [toInt_add_of_fair small h.fair fair, List.map_append, List.sum_append, h.total, ← old]
  refine congrArg₂ (· + ·) rfl ?_
  simp [held, AcquirePC.held]

theorem Paid.outside (h : s.Paid) (ungranted : c ∉ s.granted) (pc : AcquirePC)
    (new : pc.Modest s.sem.capacity) (waiters : List (Waiter Int64 γ)) (arrived : List γ) :
    Paid ⟨{ s.sem with waiters := waiters }, update s.calls c pc, arrived, s.granted⟩ := by
  refine ⟨modest_update h.modest new, ?_, h.le⟩
  have old : s.granted.map (fun d => (update s.calls c pc d).held (d ∈ s.sem.closed)) =
      s.granted.map s.held :=
    List.map_congr_left fun d hd => held_of_ne (fun same => ungranted (same ▸ hd)) Iff.rfl
  exact h.total.trans (congrArg List.sum old.symm)

theorem Paid.keep (h : s.Paid) (pc : AcquirePC) (closed : List γ)
    (new : pc.Modest s.sem.capacity) (others : ∀ d, d ≠ c → (d ∈ closed ↔ d ∈ s.sem.closed))
    (same : pc.held (c ∈ closed) = s.held c) :
    Paid ⟨{ s.sem with closed := closed }, update s.calls c pc, s.arrived, s.granted⟩ := by
  refine ⟨modest_update h.modest new, ?_, h.le⟩
  have old : s.granted.map (fun d => (update s.calls c pc d).held (d ∈ closed)) =
      s.granted.map s.held := by
    refine List.map_congr_left fun d hd => ?_
    by_cases hc : d = c
    · rw [hc, update_self]
      exact same
    · exact held_of_ne hc (others d hc)
  exact h.total.trans (congrArg List.sum old.symm)

theorem Paid.woken (h : s.Paid) (tracked : s.Tracked) (small : s.sem.capacity.toInt < 2 ^ 62)
    {cur : Int64} (fair : Fair s.sem.capacity cur) :
    ∃ front, s.sem.waiters = front ++ (s.sem.woken cur).2.1 ∧
      (s.sem.woken cur).2.2 = front.map (·.ch) ∧
      (s.sem.woken cur).1.toInt = cur.toInt + (front.map (·.key.toInt)).sum := by
  have keys : ∀ w ∈ s.sem.waiters, Fair s.sem.capacity w.key := fun w hw =>
    Modest.of_want (h.modest w.ch) (tracked.serves.asleep w hw)
  have pay : ∀ b k b', MemSemaphore.fits s.sem.capacity.toInt b k = some b' → b' = b + k := by
    intro b k b' hb
    unfold MemSemaphore.fits at hb
    split_ifs at hb
    cases hb
    rfl
  have total := wake_total _ cur.toInt pay s.sem.toInt.waiters
  obtain ⟨front, split, woken, -⟩ :=
    wake_split (MemSemaphore64.fits s.sem.capacity) cur s.sem.waiters
  refine ⟨front, split, woken, ?_⟩
  rw [MemSemaphore64.woken_toInt small keys fair] at total
  have waiting : (s.sem.toInt.waiters.map (·.key)).sum =
      (front.map (·.key.toInt)).sum + ((s.sem.woken cur).2.1.map (·.key.toInt)).sum := by
    simp only [MemSemaphore64.toInt, List.map_map, Function.comp_def]
    conv_lhs => rw [split]
    rw [List.map_append, List.sum_append]
    rfl
  rw [waiting] at total
  simp only [List.map_map, Function.comp_def] at total
  omega

omit [DecidableEq γ] in
theorem Tracked.apart (h : s.Tracked) {front rest : List (Waiter Int64 γ)}
    (split : s.sem.waiters = front ++ rest) :
    s.granted.Nodup ∧ ∀ d ∈ s.granted, d ∉ front.map (·.ch) := by
  have all := h.nodup.filter fun c => s.calls c ≠ .failed
  rw [← h.order, split, List.map_append, ← List.append_assoc] at all
  obtain ⟨nodup, -, apart⟩ := List.nodup_append'.mp all.of_append_left
  exact ⟨nodup, fun _ hd => apart hd⟩

theorem sum_map_change {l : List γ} (nodup : l.Nodup) (mem : c ∈ l) {f g : γ → ℤ}
    (others : ∀ d ∈ l, d ≠ c → g d = f d) : (l.map g).sum = (l.map f).sum - f c + g c := by
  have same : (l.erase c).map g = (l.erase c).map f := List.map_congr_left fun d hd =>
    others d (List.mem_of_mem_erase hd) fun eq => nodup.not_mem_erase (eq ▸ hd)
  rw [← List.sum_map_erase g mem, ← List.sum_map_erase f mem, same]
  omega

theorem held_woken {pc : AcquirePC} {n : Int64} (want : pc.want = some n) :
    pc.held true = n.toInt := by
  cases pc with
  | idle | holding | failed => cases want
  | waiting | cancelled =>
    cases want
    rfl

theorem Paid.release (h : s.Paid) (tracked : s.Tracked) (small : s.sem.capacity.toInt < 2 ^ 62)
    {n m : Int64} (holding : s.calls c = .holding m) (nonneg : 0 ≤ n.toInt)
    (le : n.toInt ≤ m.toInt) :
    Paid ⟨s.sem.release n, update s.calls c (.holding (m - n)), s.arrived,
      s.granted ++ (s.sem.woken (s.sem.cur - n)).2.2⟩ := by
  have granted : c ∈ s.granted := (tracked.mem_granted c).mpr (.inl ⟨m, holding⟩)
  have own : s.held c = m.toInt := by rw [held, holding]; rfl
  have part : m.toInt ≤ s.sem.cur.toInt := by
    rw [h.total, ← own]
    exact List.single_le_sum h.held_nonneg _ (List.mem_map_of_mem granted)
  have rest := toInt_sub_of_le nonneg (le.trans part)
  have left := toInt_sub_of_le nonneg le
  have fair : Fair s.sem.capacity (s.sem.cur - n) := by
    have := h.le
    exact ⟨by omega, by omega⟩
  obtain ⟨front, split, woken, cur⟩ := h.woken tracked small fair
  obtain ⟨nodup, apart⟩ := tracked.apart split
  have closed : ∀ d, d ∈ (s.sem.release n).closed ↔ d ∈ s.sem.closed ∨ d ∈ front.map (·.ch) := by
    intro d
    rw [← woken]
    exact List.mem_append
  let held' : γ → ℤ := fun d =>
    (update s.calls c (.holding (m - n)) d).held (d ∈ (s.sem.release n).closed)
  have kept : (s.granted.map held').sum = (s.granted.map s.held).sum - n.toInt := by
    have here : held' c = (m - n).toInt := by simp [held', AcquirePC.held]
    have others : ∀ d ∈ s.granted, d ≠ c → held' d = s.held d := fun d hd hne =>
      held_of_ne hne ((closed d).trans (or_iff_left (apart d hd)))
    rw [sum_map_change nodup granted others, own, here]
    omega
  have gained : ((front.map (·.ch)).map held').sum = (front.map (·.key.toInt)).sum := by
    rw [List.map_map]
    refine congrArg List.sum (List.map_congr_left fun w hw => ?_)
    have mem : w.ch ∈ front.map (·.ch) := List.mem_map_of_mem hw
    have other : w.ch ≠ c := fun same => apart c granted (same ▸ mem)
    have want := tracked.serves.asleep w (by rw [split]; exact List.mem_append_left _ hw)
    simp only [Function.comp_apply, held', update_of_ne other, closed, mem, or_true, decide_true]
    exact held_woken want
  refine ⟨modest_update h.modest (show 0 ≤ (m - n).toInt by omega), ?_, ?_⟩
  · change (s.sem.woken (s.sem.cur - n)).1.toInt =
      ((s.granted ++ (s.sem.woken (s.sem.cur - n)).2.2).map held').sum
    rw [cur, woken, List.map_append, List.sum_append, kept, gained, rest, h.total]
  · refine wake_invariant _ (P := fun a : Int64 => a.toInt ≤ s.sem.capacity.toInt) ?_ fair.2 _
    intro a k a' _ hk
    unfold MemSemaphore64.fits at hk
    split_ifs at hk with more
    cases hk
    exact Int64.le_iff_toInt_le.mp (Int64.not_lt.mp more)

theorem Paid.step (h : s.Paid) (tracked : s.Tracked) (small : s.sem.capacity.toInt < 2 ^ 62)
    (proper : s.proper a = true) (hs : Step s a s') : s'.Paid := by
  cases hs with
  | granted idle le => exact h.grant tracked small idle le (of_decide_eq_true proper)
  | @queued c n idle =>
    have fair : Fair s.sem.capacity n := of_decide_eq_true proper
    exact h.outside (Queued.fresh tracked idle).2 (.waiting n) fair _ _
  | @returned _ c n _ want closed =>
    refine h.keep (.holding n) (s.sem.closed.erase c) (Modest.of_want (h.modest c) want).1
      (fun d hd => List.mem_erase_of_ne hd) ?_
    rw [held, decide_eq_true closed, held_woken want]
    rfl
  | @cancel c n hc =>
    have fair := h.modest c
    rw [hc] at fair
    refine h.keep (.cancelled n) s.sem.closed fair (fun _ _ => Iff.rfl) ?_
    rw [held, hc]
    rfl
  | @failed c n hc asleep =>
    have ungranted : c ∉ s.granted := fun hg => by
      simpa [hc, asleep] using (tracked.mem_granted c).mp hg
    exact h.outside ungranted .failed trivial _ _
  | release hc =>
    simp only [MemRun.proper, hc, decide_eq_true_eq] at proper
    exact h.release tracked small hc proper.1 proper.2

theorem capacity_step (hs : Step s a s') : s'.sem.capacity = s.sem.capacity := by
  cases hs <;> rfl

theorem reach_tracked {capacity : Int64} (h : Reach step (start capacity) s) : s.Tracked :=
  h.invariant (start_tracked capacity) fun _ _ _ _ hs next => hs.step (step_cases next)

theorem reach_capacity {capacity : Int64} (h : Reach step (start capacity) s) :
    s.sem.capacity = capacity :=
  h.invariant (P := fun s => s.sem.capacity = capacity) rfl
    fun _ _ _ _ hs next => (capacity_step (step_cases next)).trans hs

theorem reach_paid {capacity : Int64} (nonneg : 0 ≤ capacity.toInt)
    (small : capacity.toInt < 2 ^ 62)
    (h : Reach (restrict proper step) (start capacity) s) : s.Paid := by
  refine h.invariant (start_paid nonneg) fun s a s' reached hs next => ?_
  obtain ⟨proper, next⟩ := restrict_eq_some.mp next
  have reached := reached.of_restrict
  exact hs.step (reach_tracked reached) (by rwa [reach_capacity reached]) proper (step_cases next)

/-- The semaphore hands out what its callers hold and never more than its capacity, a call that
fails holds nothing, and the grants come in the order of the calls that have not failed. -/
theorem weighted_fifo (capacity : Int64) (nonneg : 0 ≤ capacity.toInt)
    (small : capacity.toInt < 2 ^ 62) (s : MemRun γ)
    (reached : Reach (restrict proper step) (start capacity) s) :
    s.sem.cur.toInt = (s.granted.map s.held).sum ∧
    0 ≤ s.sem.cur.toInt ∧ s.sem.cur.toInt ≤ capacity.toInt ∧
    (∀ c, c ∈ s.granted ↔ (∃ n, s.calls c = .holding n) ∨ c ∈ s.sem.closed) ∧
    (∀ c, s.calls c = .failed → s.held c = 0 ∧ c ∉ s.granted ∧ c ∉ s.sem.waiters.map (·.ch)) ∧
    s.granted ++ s.sem.waiters.map (·.ch) = s.arrived.filter fun c => s.calls c ≠ .failed := by
  have tracked := reach_tracked reached.of_restrict
  have paid := reach_paid nonneg small reached
  have fair := paid.fair
  rw [reach_capacity reached.of_restrict] at fair
  refine ⟨paid.total, fair.1, fair.2, tracked.mem_granted, fun c failed => ?_, tracked.order⟩
  have out : c ∉ s.granted ++ s.sem.waiters.map (·.ch) := by
    rw [tracked.order]
    simp [failed]
  exact ⟨by rw [held, failed]; rfl, fun hc => out (List.mem_append_left _ hc),
    fun hc => out (List.mem_append_right _ hc)⟩

/-- Two grants of 2^62 overflow: what is in use becomes negative. -/
theorem overflow_granted : ∃ s : MemRun ℕ,
    Reach (restrict proper step) (start 4611686018427387904) s ∧ s.granted = [0, 1] ∧
    s.sem.cur.toInt < 0 := by
  have run : ((exec (restrict proper step) (start 4611686018427387904 : MemRun ℕ)
      [.acquire 0 4611686018427387904, .acquire 1 4611686018427387904]).any fun s =>
      s.granted = [0, 1] ∧ s.sem.cur.toInt < 0) = true := by
    decide +kernel
  obtain ⟨s, reached, hs⟩ := Reach.of_exec_any run
  exact ⟨s, reached, of_decide_eq_true hs⟩

/-- A queue with a late small request, a cancellation that loses the race with its grant, and
one that wins. -/
def contended : List (MemAction ℕ) :=
  [.acquire 0 6, .acquire 1 7, .acquire 2 1, .acquire 3 5, .cancel 1, .release 0 4, .recheck 1,
    .cancel 3, .recheck 3, .receive 2, .release 1 7]

theorem weighted_fifo_contended : ∃ s : MemRun ℕ,
    s.arrived = [0, 1, 2, 3] ∧ s.granted = [0, 1, 2] ∧ s.calls 3 = .failed ∧ s.held 3 = 0 ∧
    s.sem.cur.toInt = 3 ∧ s.sem.cur.toInt = (s.granted.map s.held).sum := by
  have run : ((exec (restrict proper step) (start 10) contended).any fun s =>
      s.arrived = [0, 1, 2, 3] ∧ s.granted = [0, 1, 2] ∧ s.calls 3 = .failed ∧
        s.sem.cur.toInt = 3) = true := by
    decide +kernel
  obtain ⟨s, reached, hs⟩ := Reach.of_exec_any run
  obtain ⟨arrived, granted, failed, cur⟩ := of_decide_eq_true hs
  obtain ⟨total, -, -, -, nothing, -⟩ :=
    weighted_fifo 10 (by decide +kernel) (by decide +kernel) s reached
  exact ⟨s, arrived, granted, failed, (nothing 3 failed).1, cur, total⟩

/-- The front request of the queue does not fit, as the source computes it. -/
def Asleep (s : MemRun γ) : Prop :=
  ∀ w ∈ s.sem.waiters.head?, s.sem.capacity < s.sem.cur + w.key

omit [DecidableEq γ] in
theorem Tracked.behind (h : s.Tracked) {front : Waiter Int64 γ} {rest : List (Waiter Int64 γ)}
    (queue : s.sem.waiters = front :: rest) : ∀ w ∈ rest, w.ch ≠ front.ch := by
  have apart := h.serves.nodup.of_append_left
  rw [queue, List.map_cons, List.nodup_cons] at apart
  exact fun w hw same => apart.1 (same ▸ List.mem_map_of_mem hw)

theorem settled_recheck (c : γ) : s.settled (.recheck c) = true ↔
    ∀ front next rest, s.sem.waiters = front :: next :: rest → front.ch = c →
      s.sem.capacity < s.sem.cur + next.key := by
  match queue : s.sem.waiters with
  | [] | [_] => simp [settled, queue]
  | front :: next :: rest =>
    simp only [settled, queue, decide_eq_true_eq, ← Decidable.imp_iff_not_or, ne_eq]
    refine ⟨fun h front' next' rest' same => ?_, fun h => h front next rest rfl⟩
    cases same
    exact h

theorem Tracked.remove_asleep (h : s.Tracked) (asleep : s.Asleep) (c : γ) :
    (∀ w ∈ (s.sem.remove c).waiters.head?, s.sem.capacity < s.sem.cur + w.key) ↔
      s.settled (.recheck c) = true := by
  -- without the call that gives up, the queue begins with its old front or with the one behind
  rw [settled_recheck]
  match queue : s.sem.waiters with
  | [] => simp [MemSemaphore64.remove, queue]
  | front :: rest =>
    have full : s.sem.capacity < s.sem.cur + front.key := asleep front (by rw [queue]; rfl)
    by_cases same : front.ch = c
    · have others : rest.filter (fun w => w.ch ≠ c) = rest :=
        List.filter_eq_self.mpr fun w hw => decide_eq_true (same ▸ h.behind queue w hw)
      have removed : (s.sem.remove c).waiters = rest := by
        simpa [MemSemaphore64.remove, queue, same] using others
      rw [removed]
      cases rest with
      | nil => simp
      | cons next rest => simp [same]
    · refine iff_of_true (by simp [MemSemaphore64.remove, queue, same, full]) ?_
      intro front' next rest' first here
      cases first
      exact absurd here same

theorem Asleep.step_iff (h : s.Asleep) (tracked : s.Tracked) (hs : Step s a s') :
    s'.Asleep ↔ s.settled a = true := by
  -- the one step that can leave a request in front that fits is a front that gives up
  cases hs with
  | granted _ _ empty => simp [Asleep, empty, settled]
  | @queued c n _ full =>
    refine iff_of_true (fun w hw => ?_) rfl
    cases hq : s.sem.waiters with
    | nil =>
      simp only [hq, List.nil_append, List.head?_cons, Option.mem_some_iff] at hw
      rw [← hw]
      exact full hq
    | cons front rest =>
      simp only [hq, List.cons_append, List.head?_cons] at hw
      exact h w (by rw [hq]; exact hw)
  | @returned a c _ which _ closed =>
    refine iff_of_true h ?_
    rcases which with rfl | rfl
    · rfl
    · rw [settled_recheck]
      intro front next rest queue same
      -- a woken call is no longer in the queue
      have queued : c ∈ s.sem.waiters.map (·.ch) := by simp [queue, same]
      exact absurd closed (List.disjoint_of_nodup_append tracked.serves.nodup queued)
  | cancel => exact iff_of_true h rfl
  | failed => exact tracked.remove_asleep h _
  | @release c n m _ =>
    refine iff_of_true (fun w hw => ?_) rfl
    obtain ⟨rest, hrest⟩ := List.head?_eq_some_iff.mp (Option.mem_def.mp hw)
    have stop := wake_head _ _ _ hrest
    unfold MemSemaphore64.fits at stop
    split_ifs at stop with more
    exact more

theorem reach_asleep {capacity : Int64} (h : Reach (restrict settled step) (start capacity) s) :
    s.Asleep := by
  refine h.invariant (P := Asleep) (fun _ hw => by cases hw) fun _ _ _ reached hs next => ?_
  obtain ⟨settled, next⟩ := restrict_eq_some.mp next
  exact (hs.step_iff (reach_tracked reached.of_restrict) (step_cases next)).mpr settled

/-- As long as no call gives up at the front while the request behind it fits, the front
request never fits, neither as the source computes the sum nor as an integer. A call that does
leaves a request in front that fits. -/
theorem front_never_fits (capacity : Int64) (s : MemRun γ)
    (reached : Reach (restrict settled step) (start capacity) s) :
    (∀ w rest, s.sem.waiters = w :: rest → capacity < s.sem.cur + w.key ∧
      (0 ≤ w.key.toInt → capacity.toInt < s.sem.cur.toInt + w.key.toInt)) ∧
    ∀ a s', s.step a = some s' → s.settled a = false →
      ∃ w rest, s'.sem.waiters = w :: rest ∧ s'.sem.cur + w.key ≤ capacity := by
  have asleep := reach_asleep reached
  have size := reach_capacity reached.of_restrict
  constructor
  · intro w rest front
    have full := asleep w (by rw [front]; rfl)
    rw [size] at full
    exact ⟨full, fun nonneg => lt_toInt_add nonneg full⟩
  · intro a s' next unsettled
    have hs := step_cases next
    have awake : ¬ s'.Asleep := fun h => by
      rw [(asleep.step_iff (reach_tracked reached.of_restrict) hs).mp h] at unsettled
      cases unsettled
    simp only [Asleep, not_forall, Int64.not_lt] at awake
    obtain ⟨w, hw, fits⟩ := awake
    obtain ⟨rest, hrest⟩ := List.head?_eq_some_iff.mp (Option.mem_def.mp hw)
    rw [capacity_step hs, size] at fits
    exact ⟨w, rest, hrest, fits⟩

theorem front_never_fits_cancelled : ∃ s : MemRun ℕ, s.sem.waiters = [⟨9, 3⟩] ∧
    s.calls 1 = .failed ∧ s.calls 2 = .failed ∧ (10 : Int64) < s.sem.cur + 9 := by
  have run : ((exec (restrict settled step) (start 10 : MemRun ℕ)
      [.acquire 0 6, .acquire 1 10, .acquire 2 2, .acquire 3 9, .cancel 2, .recheck 2, .cancel 1,
        .recheck 1]).any fun s =>
      s.sem.waiters = [⟨9, 3⟩] ∧ s.calls 1 = .failed ∧ s.calls 2 = .failed) = true := by
    decide +kernel
  obtain ⟨s, reached, hs⟩ := Reach.of_exec_any run
  obtain ⟨queue, first, second⟩ := of_decide_eq_true hs
  exact ⟨s, queue, first, second, ((front_never_fits 10 s reached).1 ⟨9, 3⟩ [] queue).1⟩

/-- Six of ten are in use. The call for ten gives up, and the call for two behind it sleeps on. -/
theorem front_left_asleep : ∃ s : MemRun ℕ, Reach (restrict proper step) (start 10) s ∧
    s.sem.waiters = [⟨2, 2⟩] ∧ s.sem.cur + 2 ≤ (10 : Int64) ∧ s.sem.cur.toInt + 2 ≤ 10 := by
  have run : ((exec (restrict proper step) (start 10 : MemRun ℕ)
      [.acquire 0 6, .acquire 1 10, .acquire 2 2, .cancel 1, .recheck 1]).any fun s =>
      s.sem.waiters = [⟨2, 2⟩] ∧ s.sem.cur + 2 ≤ (10 : Int64) ∧
        s.sem.cur.toInt + 2 ≤ 10) = true := by
    decide +kernel
  obtain ⟨s, reached, hs⟩ := Reach.of_exec_any run
  exact ⟨s, reached, of_decide_eq_true hs⟩

end MemRun

end CephVolsync.Pipeline
