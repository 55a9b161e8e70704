import CephVolsync.Library.SlidingWindow
import CephVolsync.Library.WaitQueue

/-! The two semaphores of the pipeline (`internal/worker/pipeline/semaphore.go`).

Every function below is one section under the semaphore's mutex. A caller that has to
wait is queued behind a channel `γ`; a waker records the channels it closes, and the
caller forgets its channel when it leaves. Request ids are natural numbers: the test
`reqID - base < limit` on `uint64` is false when `reqID` lies below `base`, because the
difference wraps around. -/

namespace CephVolsync.Pipeline

open WaitQueue Function

variable {γ : Type} [DecidableEq γ]

/-- Weighted semaphore with one channel per waiter and FIFO wake discipline. -/
structure MemSemaphore (γ : Type) where
  capacity : ℤ
  cur : ℤ
  waiters : List (Waiter ℤ γ)
  closed : List γ

namespace MemSemaphore

def new (capacity : ℤ) : MemSemaphore γ := ⟨capacity, 0, [], []⟩

def fits (capacity cur n : ℤ) : Option ℤ := if cur + n > capacity then none else some (cur + n)

def wakeWaiters (s : MemSemaphore γ) : MemSemaphore γ :=
  let r := wake (fits s.capacity) s.cur s.waiters
  { s with cur := r.1, waiters := r.2.1, closed := s.closed ++ r.2.2 }

/-- First section of `Acquire`: take the amount, or queue behind `ch` (`false`). -/
def acquire (s : MemSemaphore γ) (n : ℤ) (ch : γ) : MemSemaphore γ × Bool :=
  if s.cur + n ≤ s.capacity ∧ s.waiters.length = 0 then ({ s with cur := s.cur + n }, true)
  else ({ s with waiters := s.waiters ++ [⟨n, ch⟩] }, false)

def leave (s : MemSemaphore γ) (ch : γ) : MemSemaphore γ := { s with closed := s.closed.erase ch }

/-- The waiter gives up: it is taken out of the queue, and nobody else is woken. -/
def remove (s : MemSemaphore γ) (ch : γ) : MemSemaphore γ :=
  { s with waiters := s.waiters.filter (fun w => w.ch ≠ ch) }

def release (s : MemSemaphore γ) (n : ℤ) : MemSemaphore γ :=
  wakeWaiters { s with cur := s.cur - n }

end MemSemaphore

structure WindowSemaphore (γ : Type) where
  maxWindow : ℕ
  limit : ℕ
  base : ℕ
  released : ℕ → Bool
  inFlight : ℤ
  waiters : List (Waiter ℕ γ)
  closed : List γ
  releaseCh : Bool

namespace WindowSemaphore

def new (maxWindow : ℕ) : WindowSemaphore γ :=
  ⟨maxWindow, 2 * maxWindow, 0, fun _ => false, 0, [], [], false⟩

/-- `reqID - base < limit` in `uint64`. -/
def inWindow (base limit reqID : ℕ) : Bool := base ≤ reqID ∧ reqID < base + limit

def fits (base limit : ℕ) (inFlight : ℤ) (reqID : ℕ) : Option ℤ :=
  if inWindow base limit reqID then some (inFlight + 1) else none

def insertWaiter (ws : List (Waiter ℕ γ)) (w : Waiter ℕ γ) : List (Waiter ℕ γ) :=
  ws.takeWhile (fun v => v.key < w.key) ++ w :: ws.dropWhile (fun v => v.key < w.key)

def wakeWinWaiters (w : WindowSemaphore γ) : WindowSemaphore γ :=
  let r := wake (fits w.base w.limit) w.inFlight w.waiters
  { w with inFlight := r.1, waiters := r.2.1, closed := w.closed ++ r.2.2 }

/-- First section of `Acquire`: take the slot, or queue behind `ch` (`false`). -/
def acquire (w : WindowSemaphore γ) (reqID : ℕ) (ch : γ) : WindowSemaphore γ × Bool :=
  if inWindow w.base w.limit reqID then ({ w with inFlight := w.inFlight + 1 }, true)
  else ({ w with waiters := insertWaiter w.waiters ⟨reqID, ch⟩ }, false)

def leave (w : WindowSemaphore γ) (ch : γ) : WindowSemaphore γ :=
  { w with closed := w.closed.erase ch }

def remove (w : WindowSemaphore γ) (ch : γ) : WindowSemaphore γ :=
  { w with waiters := w.waiters.filter (fun v => v.ch ≠ ch) }

/-- The ring has `limit` cells and each turn of the loop clears one, so `limit` turns
are enough for the loop that moves `base`. -/
def release (w : WindowSemaphore γ) (reqID : ℕ) : WindowSemaphore γ :=
  if w.released (reqID % w.limit) then w
  else
    let ring := SlidingWindow.advance w.limit w.limit
      (update w.released (reqID % w.limit) true) w.base
    let woken := wakeWinWaiters
      { w with released := ring.1, base := ring.2, inFlight := w.inFlight - 1 }
    { woken with releaseCh := true }

def takeRelease (w : WindowSemaphore γ) : WindowSemaphore γ := { w with releaseCh := false }

/-- `IsReleased`: the id and everything below it has left the window. -/
def isReleased (w : WindowSemaphore γ) (reqID : ℕ) : Bool := reqID < w.base

end WindowSemaphore

end CephVolsync.Pipeline
