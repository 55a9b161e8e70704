import Mathlib

/-! A worker that gathers the items of a queue into batches and hands over one batch at a
time: when the batch has `limit` items, and once more when the queue has ended. `jobs` are
the batches whose hand-over succeeded, oldest first. A worker stops at the first failure and
keeps its batch, so that what was taken is never forgotten; `jobErr` tells the errors of a
hand-over from those of a worker that stopped while it gathered. -/

namespace BatchWorker

inductive PC (ε : Type*) where
  | recv
  | job (last : Bool)
  | exit (err : Option ε)
  deriving DecidableEq, Repr

structure Worker (α ε : Type*) where
  pc : PC ε
  batch : List α
  jobs : List (List α)
  deriving DecidableEq, Repr

variable {α ε : Type*}

namespace PC

def error : PC ε → Option ε
  | exit err => err
  | _ => none

def exited : PC ε → Bool
  | exit _ => true
  | _ => false

def drained : PC ε → Bool
  | job last => last
  | exit none => true
  | _ => false

end PC

namespace Worker

def new : Worker α ε := ⟨.recv, [], []⟩

def take (limit : ℕ) (w : Worker α ε) (x : α) : Worker α ε :=
  let batch := w.batch ++ [x]
  { w with batch := batch, pc := if limit ≤ batch.length then .job false else .recv }

def finish (w : Worker α ε) : Worker α ε :=
  { w with pc := if w.batch.length = 0 then .exit none else .job true }

def complete (w : Worker α ε) (last : Bool) : Worker α ε :=
  ⟨if last then .exit none else .recv, [], w.jobs ++ [w.batch]⟩

def fail (w : Worker α ε) (err : ε) : Worker α ε := { w with pc := .exit (some err) }

def taken (w : Worker α ε) : List α := w.jobs.flatten ++ w.batch

@[simp] theorem taken_new : (new : Worker α ε).taken = [] := rfl

@[simp] theorem taken_take (limit : ℕ) (w : Worker α ε) (x : α) :
    (w.take limit x).taken = w.taken ++ [x] := by
  simp [taken, take]

@[simp] theorem taken_finish (w : Worker α ε) : w.finish.taken = w.taken := rfl

@[simp] theorem taken_complete (w : Worker α ε) (last : Bool) :
    (w.complete last).taken = w.taken := by
  simp [taken, complete]

@[simp] theorem taken_fail (w : Worker α ε) (err : ε) : (w.fail err).taken = w.taken := rfl

/-- The batches handed over: those that succeeded, and the last one while its hand-over is
under way or when it has failed. -/
def submitted (jobErr : ε → Bool) (w : Worker α ε) : List (List α) :=
  w.jobs ++
    match w.pc with
    | .job _ => [w.batch]
    | .exit (some err) => if jobErr err then [w.batch] else []
    | _ => []

def Filled (limit : ℕ) (jobErr : ε → Bool) (batch : List α) : PC ε → Prop
  | .recv => batch.length < limit
  | .job _ => batch ≠ [] ∧ batch.length ≤ limit
  | .exit none => batch = []
  | .exit (some err) => batch.length ≤ limit ∧ (jobErr err = true → batch ≠ [])

structure Sound (limit : ℕ) (jobErr : ε → Bool) (w : Worker α ε) : Prop where
  jobs : ∀ job ∈ w.jobs, job ≠ [] ∧ job.length ≤ limit
  filled : Filled limit jobErr w.batch w.pc

variable {limit : ℕ} {jobErr : ε → Bool} {w : Worker α ε}

theorem new_sound (positive : 0 < limit) : (new : Worker α ε).Sound limit jobErr :=
  ⟨by simp [new], positive⟩

theorem Sound.room (h : w.Sound limit jobErr) (ready : w.pc = .recv) : w.batch.length < limit := by
  have filled := h.filled
  rw [ready] at filled
  exact filled

theorem Sound.take (h : w.Sound limit jobErr) (ready : w.pc = .recv) (x : α) :
    (w.take limit x).Sound limit jobErr := by
  refine ⟨h.jobs, ?_⟩
  have room := h.room ready
  simp only [Worker.take, List.length_append, List.length_singleton]
  split_ifs with full
  · exact ⟨by simp, by simp; omega⟩
  · simp only [Filled, List.length_append, List.length_singleton]
    omega

theorem Sound.finish (h : w.Sound limit jobErr) (ready : w.pc = .recv) :
    w.finish.Sound limit jobErr := by
  refine ⟨h.jobs, ?_⟩
  simp only [Worker.finish]
  split_ifs with empty
  · exact List.eq_nil_of_length_eq_zero empty
  · exact ⟨fun none => empty (by rw [none]; rfl), (h.room ready).le⟩

theorem Sound.complete (h : w.Sound limit jobErr) {last : Bool} (runs : w.pc = .job last) :
    (w.complete last).Sound limit jobErr := by
  have batch := h.filled
  rw [runs] at batch
  change w.batch ≠ [] ∧ w.batch.length ≤ limit at batch
  refine ⟨fun job hj => ?_, ?_⟩
  · rcases List.mem_append.mp hj with old | new
    · exact h.jobs job old
    · rw [List.mem_singleton.mp new]
      exact batch
  · have positive : 0 < limit := (List.length_pos_iff.mpr batch.1).trans_le batch.2
    cases last
    · exact positive
    · rfl

theorem Sound.fail (h : w.Sound limit jobErr) {err : ε} (active : w.pc.exited = false)
    (why : jobErr err = true → ∃ last, w.pc = .job last) : (w.fail err).Sound limit jobErr := by
  refine ⟨h.jobs, ?_⟩
  have batch := h.filled
  cases hpc : w.pc with
  | recv =>
    rw [hpc] at batch
    refine ⟨Nat.le_of_lt batch, fun failed => ?_⟩
    obtain ⟨last, runs⟩ := why failed
    rw [hpc] at runs
    cases runs
  | job last =>
    rw [hpc] at batch
    exact ⟨batch.2, fun _ => batch.1⟩
  | exit err => rw [hpc] at active; cases active

theorem Sound.submitted (h : w.Sound limit jobErr) :
    ∀ job ∈ w.submitted jobErr, job ≠ [] ∧ job.length ≤ limit := by
  have batch := h.filled
  unfold Worker.submitted
  rw [List.forall_mem_append]
  refine ⟨h.jobs, ?_⟩
  cases hpc : w.pc with
  | recv => simp
  | job last =>
    rw [hpc] at batch
    simpa [Filled] using batch
  | exit err =>
    rw [hpc] at batch
    cases err with
    | none => simp
    | some err =>
      cases failed : jobErr err with
      | false => simp [failed]
      | true => simpa [failed] using And.intro (batch.2 failed) batch.1

theorem Sound.taken_exit (h : w.Sound limit jobErr) (returned : w.pc = .exit none) :
    w.taken = w.jobs.flatten := by
  have batch := h.filled
  rw [returned] at batch
  rw [taken, show w.batch = [] from batch, List.append_nil]

end Worker

end BatchWorker
