import CephVolsync.Pipeline.Semaphore

/-! `MemSemaphore` (`internal/worker/pipeline/semaphore.go`) with the `int64` arithmetic of the
source. As long as the capacity is below 2^62 and nobody asks for more than it, no sum
overflows and the semaphore is the one over the integers. -/

namespace CephVolsync.Pipeline

open WaitQueue

variable {γ : Type}

structure MemSemaphore64 (γ : Type) where
  capacity : Int64
  cur : Int64
  waiters : List (Waiter Int64 γ)
  closed : List γ

namespace MemSemaphore64

def new (capacity : Int64) : MemSemaphore64 γ := ⟨capacity, 0, [], []⟩

def fits (capacity cur n : Int64) : Option Int64 :=
  if cur + n > capacity then none else some (cur + n)

def woken (s : MemSemaphore64 γ) (cur : Int64) : Int64 × List (Waiter Int64 γ) × List γ :=
  wake (fits s.capacity) cur s.waiters

/-- First section of `Acquire`: take the amount, or queue behind `ch` (`false`). -/
def acquire (s : MemSemaphore64 γ) (n : Int64) (ch : γ) : MemSemaphore64 γ × Bool :=
  if s.cur + n ≤ s.capacity ∧ s.waiters.length = 0 then ({ s with cur := s.cur + n }, true)
  else ({ s with waiters := s.waiters ++ [⟨n, ch⟩] }, false)

def leave [DecidableEq γ] (s : MemSemaphore64 γ) (ch : γ) : MemSemaphore64 γ :=
  { s with closed := s.closed.erase ch }

def remove [DecidableEq γ] (s : MemSemaphore64 γ) (ch : γ) : MemSemaphore64 γ :=
  { s with waiters := s.waiters.filter (fun w => w.ch ≠ ch) }

def release (s : MemSemaphore64 γ) (n : Int64) : MemSemaphore64 γ :=
  let r := s.woken (s.cur - n)
  { s with cur := r.1, waiters := r.2.1, closed := s.closed ++ r.2.2 }

def toInt (s : MemSemaphore64 γ) : MemSemaphore γ :=
  ⟨s.capacity.toInt, s.cur.toInt, s.waiters.map fun w => ⟨w.key.toInt, w.ch⟩, s.closed⟩

end MemSemaphore64

def Fair (capacity n : Int64) : Prop := 0 ≤ n.toInt ∧ n.toInt ≤ capacity.toInt

instance (capacity n : Int64) : Decidable (Fair capacity n) := by
  unfold Fair
  infer_instance

section Arithmetic

variable {capacity a n : Int64}

theorem toInt_add_of_fair (small : capacity.toInt < 2 ^ 62) (ha : Fair capacity a)
    (hn : Fair capacity n) : (a + n).toInt = a.toInt + n.toInt := by
  obtain ⟨ha, ha'⟩ := ha
  obtain ⟨hn, hn'⟩ := hn
  rw [Int64.toInt_add]
  exact Int.bmod_eq_of_le (by omega) (by omega)

theorem toInt_sub_of_le (hn : 0 ≤ n.toInt) (le : n.toInt ≤ a.toInt) :
    (a - n).toInt = a.toInt - n.toInt := by
  have := a.toInt_lt
  rw [Int64.toInt_sub]
  exact Int.bmod_eq_of_le (by omega) (by omega)

theorem lt_toInt_add (hn : 0 ≤ n.toInt) (h : capacity < a + n) :
    capacity.toInt < a.toInt + n.toInt := by
  rw [Int64.lt_iff_toInt_lt, Int64.toInt_add] at h
  by_cases wrapped : a.toInt + n.toInt < 2 ^ 63
  · have := a.le_toInt
    rwa [Int.bmod_eq_of_le (by omega) (by omega)] at h
  · have := capacity.toInt_lt
    omega

end Arithmetic

namespace MemSemaphore64

structure InRange (s : MemSemaphore64 γ) : Prop where
  cur : Fair s.capacity s.cur
  waiters : ∀ w ∈ s.waiters, Fair s.capacity w.key

variable {s : MemSemaphore64 γ} {n : Int64} {ch : γ}

theorem fits_toInt {capacity cur n : Int64} (small : capacity.toInt < 2 ^ 62)
    (hc : Fair capacity cur) (hn : Fair capacity n) :
    MemSemaphore.fits capacity.toInt cur.toInt n.toInt = (fits capacity cur n).map Int64.toInt := by
  have sum := toInt_add_of_fair small hc hn
  unfold MemSemaphore.fits fits
  rw [← sum]
  by_cases more : cur + n > capacity
  · rw [if_pos more, if_pos (Int64.lt_iff_toInt_lt.mp more)]
    rfl
  · rw [if_neg more, if_neg fun h => more (Int64.lt_iff_toInt_lt.mpr h)]
    rfl

theorem fits_fair {capacity cur n a : Int64} (small : capacity.toInt < 2 ^ 62)
    (hc : Fair capacity cur) (hn : Fair capacity n) (h : fits capacity cur n = some a) :
    Fair capacity a := by
  unfold fits at h
  split_ifs at h with more
  cases h
  have sum := toInt_add_of_fair small hc hn
  have le := Int64.le_iff_toInt_le.mp (Int64.not_lt.mp more)
  exact ⟨by rw [sum]; exact Int.add_nonneg hc.1 hn.1, le⟩

theorem acquire_toInt (small : s.capacity.toInt < 2 ^ 62) (h : s.InRange)
    (hn : Fair s.capacity n) :
    s.toInt.acquire n.toInt ch = ((s.acquire n ch).1.toInt, (s.acquire n ch).2) := by
  have sum := toInt_add_of_fair small h.cur hn
  have free : s.cur.toInt + n.toInt ≤ s.capacity.toInt ↔ s.cur + n ≤ s.capacity := by
    rw [Int64.le_iff_toInt_le, sum]
  unfold acquire MemSemaphore.acquire
  simp only [toInt, free, List.length_map]
  split_ifs
  · simp [sum]
  · simp

theorem woken_toInt (small : s.capacity.toInt < 2 ^ 62)
    (keys : ∀ w ∈ s.waiters, Fair s.capacity w.key) {cur : Int64} (hc : Fair s.capacity cur) :
    wake (MemSemaphore.fits s.capacity.toInt) cur.toInt s.toInt.waiters =
      ((s.woken cur).1.toInt, (s.woken cur).2.1.map fun w => ⟨w.key.toInt, w.ch⟩,
        (s.woken cur).2.2) :=
  wake_map Int64.toInt Int64.toInt (fun _ _ => fits_toInt small)
    (fun _ _ _ => fits_fair small) hc keys

theorem release_toInt (small : s.capacity.toInt < 2 ^ 62) (h : s.InRange) (hn : 0 ≤ n.toInt)
    (le : n.toInt ≤ s.cur.toInt) : s.toInt.release n.toInt = (s.release n).toInt := by
  have sub := toInt_sub_of_le hn le
  have fair : Fair s.capacity (s.cur - n) := by
    have := h.cur.2
    exact ⟨by omega, by omega⟩
  have woken := woken_toInt small h.waiters fair
  rw [sub] at woken
  simp only [MemSemaphore.release, MemSemaphore.wakeWaiters, toInt, release] at woken ⊢
  rw [woken]

end MemSemaphore64

end CephVolsync.Pipeline
