import CephVolsync.CephFs.Boundaries
import CephVolsync.CephFs.CommitOrder

/-! The wake-up of `flushAll`. The drainer tests the head of `pending` and then waits on
`releaseCh`, whose one cell coalesces the signals; a token may be an old one, and a signal that
finds the cell full is dropped. No wake-up is lost all the same: between the failed test and the
wait nobody but the drainer takes a token, and whoever moves `base` leaves one. -/

namespace CephVolsync.Pipeline

variable {γ : Type} {R S : ℕ} {cfg : Config} {done : Bool}

/-- The window moves only together with a token in `releaseCh`, and no token is taken. -/
def Signals (win win' : WindowSemaphore γ) : Prop :=
  win'.releaseCh = true ∨ win'.base = win.base ∧ win'.releaseCh = win.releaseCh

theorem Signals.refl (win : WindowSemaphore γ) : Signals win win := .inr ⟨rfl, rfl⟩

theorem Signals.release (win : WindowSemaphore γ) (reqID : ℕ) :
    Signals win (win.release reqID) := by
  unfold WindowSemaphore.release
  split
  · exact refl win
  · exact .inl rfl

theorem Signals.acquire (win : WindowSemaphore γ) (reqID : ℕ) (ch : γ) :
    Signals win (win.acquire reqID ch).1 := by
  unfold WindowSemaphore.acquire
  split <;> exact .inr ⟨rfl, rfl⟩

theorem ReaderStep.signals {r : Fin R} {pc pc' : ReaderPC} {sh sh' : Shared R} {e : ReaderEvent}
    (h : ReaderStep cfg done r pc sh e pc' sh') : Signals sh.win sh'.win := by
  cases h with
  | winTake | winQueue => exact .acquire _ _ _
  | relWin => exact .release _ _
  | _ => exact .inr ⟨rfl, rfl⟩

theorem WorkerStep.signals {w w' : SendWorker} {sh sh' : Shared R} {e : WorkerEvent}
    (h : WorkerStep cfg done w sh e w' sh') : Signals sh.win sh'.win := by
  cases h with
  | abortWin | ackRelease => exact .release _ _
  | @free hd => cases hm : hd.hasMem <;> exact .refl _
  | _ => exact .refl _

theorem PipelineStep.signals {s s' : State R S} {a : Action R S} (h : PipelineStep cfg s a s')
    (sender : a ≠ .takeRelease) : Signals s.shared.win s'.shared.win := by
  cases h with
  | reader hr => exact hr.signals
  | worker hw => exact hw.signals
  | takeRelease => exact absurd rfl sender
  | _ => exact .refl _

end CephVolsync.Pipeline

namespace CephVolsync.CephFs

open Pipeline TransitionSystem

variable {γ : Type} {R S maxWindow : ℕ}

namespace CommitDrainer

variable {d d' : CommitDrainer} {ch ch' : Chan FileBoundary} {win win' : WindowSemaphore γ}
  {done : Bool} {e : DrainEvent}

/-- A drainer that waits for an id which is already released finds a token. -/
def Alert (d : CommitDrainer) (win : WindowSemaphore γ) : Prop :=
  d.pc = .wait → ∃ fb rest, d.pending = fb :: rest ∧
    (win.isReleased fb.lastReqID = true → win.releaseCh = true)

theorem Alert.signals (h : d.Alert win) (moved : Signals win win') : d.Alert win' := by
  intro waits
  obtain ⟨fb, rest, pending, token⟩ := h waits
  refine ⟨fb, rest, pending, fun released => ?_⟩
  rcases moved with signalled | ⟨base, releaseCh⟩
  · exact signalled
  · have before : win.isReleased fb.lastReqID = true := by
      simpa only [WindowSemaphore.isReleased, base] using released
    rw [releaseCh]
    exact token before

theorem finish_ne_wait (l : DrainLoop) : (d.finish l).pc ≠ .wait := by
  simp only [finish]
  split
  · cases l <;> simp [leave]
  · simp

theorem take_ne_wait (l : DrainLoop) (head : FileBoundary) (rest : List FileBoundary) :
    (d.take l head rest).pc ≠ .wait := by
  simp only [take]
  split <;> simp

theorem turn_wait {isReleased : ℕ → Bool}
    (waits : (d.turn maxWindow isReleased .flushAll d.pending).pc = .wait) :
    ∃ fb rest, d.pending = fb :: rest ∧ isReleased fb.lastReqID = false := by
  cases pending : d.pending with
  | nil =>
    rw [pending] at waits
    exact absurd waits (finish_ne_wait .flushAll)
  | cons head rest =>
    rw [pending, turn] at waits
    split at waits
    · exact absurd waits (take_ne_wait .flushAll head rest)
    · rename_i unreleased
      exact ⟨head, rest, rfl, Bool.eq_false_iff.mpr unreleased⟩

theorem run_alert (h : d.run maxWindow done ch win d.pc e = some (d', ch', win')) :
    d'.Alert win' := by
  intro waits
  cases run_cases h with
  | sleep hpc =>
    have turned : (d.turn maxWindow win.isReleased .flushAll d.pending).pc = .wait := by
      rw [hpc] at h
      rcases e with (_ | _) | _ <;> simp only [run, reduceCtorEq] at h
      exact congrArg (fun r => r.1.pc) (Option.some.inj h)
    obtain ⟨fb, rest, pending, unreleased⟩ := turn_wait turned
    refine ⟨fb, rest, pending, fun released => ?_⟩
    rw [unreleased] at released
    cases released
  | take => exact absurd waits (take_ne_wait _ _ _)
  | finish => exact absurd waits (finish_ne_wait _)
  | @send l more ok =>
    cases ok <;> cases waits
  | @recvAck l more ok =>
    cases ok <;> cases waits
  | @notified l more =>
    cases more <;> cases l <;> cases waits
  | receive | closed | done | wake | notify => cases waits

theorem run_wait (maxWindow : ℕ) (waits : d.pc = .wait) (token : win.releaseCh = true) :
    d.run maxWindow done ch win d.pc (.select .ready) =
      some ({ d with pc := .loop .flushAll }, ch, win.takeRelease) := by
  rw [waits, run, if_pos token]

theorem run_released (maxWindow : ℕ) {fb : FileBoundary} {rest : List FileBoundary}
    (pc : d.pc = .loop .flushAll) (pending : d.pending = fb :: rest)
    (released : win.isReleased fb.lastReqID = true) :
    d.run maxWindow done ch win d.pc (.select .ready) =
      some (d.take .flushAll fb rest, ch, win) := by
  rw [pc, run, pending, turn, if_pos released]

end CommitDrainer

namespace DrainRun

theorem step_alert {s s' : DrainRun γ} {a : DrainAction} (h : s.step maxWindow a = some s')
    (hs : s.drainer.Alert s.win) : s'.drainer.Alert s'.win := by
  cases a with
  | cancel =>
    cases h
    exact hs
  | arrive fb =>
    simp only [step] at h
    split at h <;> cases h
    exact hs
  | close =>
    simp only [step] at h
    split at h <;> cases h
    exact hs
  | release reqID =>
    cases h
    exact hs.signals (.release s.win reqID)
  | drainer e =>
    obtain ⟨⟨d, ch, win⟩, taken, rfl⟩ := Option.map_eq_some_iff.mp h
    exact CommitDrainer.run_alert taken

theorem reach_alert {s₀ s : DrainRun γ} (awake : s₀.drainer.pc ≠ .wait)
    (h : Reach (step maxWindow) s₀ s) : s.drainer.Alert s.win :=
  h.invariant (P := fun s => s.drainer.Alert s.win) (fun waits => absurd waits awake)
    fun _ _ _ _ hs next => step_alert next hs

theorem step_drainer {s : DrainRun γ} {e : DrainEvent} {d : CommitDrainer}
    {ch : Chan FileBoundary} {win : WindowSemaphore γ}
    (h : s.drainer.run maxWindow s.done s.boundaryCh s.win s.drainer.pc e = some (d, ch, win)) :
    s.step maxWindow (.drainer e) =
      some { s with drainer := d, boundaryCh := ch, win := win } := by
  rw [step, h]
  rfl

/-- No wake-up is lost: whatever was pending, released and signalled when the drainer was last
awake, if it waits for an id that is released by now, there is a token, and with its next two
steps it takes the boundary. -/
theorem flushAll_wakes (maxWindow : ℕ) (s₀ s : DrainRun γ) (awake : s₀.drainer.pc ≠ .wait)
    (h : Reach (step maxWindow) s₀ s) (waits : s.drainer.pc = .wait) :
    ∃ fb rest, s.drainer.pending = fb :: rest ∧
      (s.win.isReleased fb.lastReqID = true → s.win.releaseCh = true ∧
        ∃ s', exec (step maxWindow) s (List.replicate 2 (.drainer (.select .ready))) = some s' ∧
          s'.drainer.pending = rest) := by
  obtain ⟨fb, rest, pending, token⟩ := reach_alert awake h waits
  refine ⟨fb, rest, pending, fun released => ⟨token released, ?_⟩⟩
  have wakes := step_drainer (CommitDrainer.run_wait maxWindow waits (token released))
  have takes := step_drainer (s := ⟨{ s.drainer with pc := .loop .flushAll }, s.boundaryCh,
    s.win.takeRelease, s.done⟩) (CommitDrainer.run_released maxWindow rfl pending released)
  exact ⟨_, (exec_cons _ wakes).trans (exec_cons _ takes), rfl⟩

def flushTwo : DrainRun Unit :=
  ⟨{ CommitDrainer.new with pc := .loop .flushAll, pending := twoBoundaries }, Chan.new.close,
    .new 1, false⟩

/-- The first wait ends with an old token, the second one meets the release of id `0`. -/
def staleToken : List DrainAction :=
  [.release 1, .drainer (.select .ready), .drainer (.select .ready), .drainer (.select .ready),
    .release 0]

theorem flushAll_wakes_stale : ∃ s : DrainRun Unit, Reach (step 1) flushTwo s ∧
    s.drainer.pc = .wait ∧ s.win.isReleased 0 = true ∧ s.win.releaseCh = true := by
  have run : ((exec (step 1) flushTwo staleToken).any fun s => s.drainer.pc = .wait ∧
      s.drainer.pending = twoBoundaries ∧ s.win.isReleased 0 = true) = true := by
    decide +kernel
  obtain ⟨s, reached, hs⟩ := Reach.of_exec_any run
  simp only [decide_eq_true_eq] at hs
  obtain ⟨waits, pending, released⟩ := hs
  obtain ⟨fb, rest, head, token⟩ := flushAll_wakes 1 flushTwo s (by decide) reached waits
  rw [pending] at head
  cases head
  exact ⟨s, reached, waits, released, (token released).1⟩

end DrainRun

namespace Snapdiff

variable {cfg : Config} {newIter : GoString → Option FileDiff} {s s' : Snapdiff R S}

theorem leaveGroup_alert (h : s.drainer.Alert s.pipe.shared.win) (err : Option SnapErr) :
    (s.leaveGroup err).drainer.Alert (s.leaveGroup err).pipe.shared.win := by
  rw [(s.leaveGroup_frame err).2.2.1, (s.leaveGroup_pipe err).1]
  exact h

theorem pipeStep_signals {a : Action R S} (h : s.pipeStep cfg a = some s') :
    s'.drainer = s.drainer ∧ Signals s.pipe.shared.win s'.pipe.shared.win := by
  have sender : a ≠ .takeRelease := by
    rintro rfl
    cases h
  cases @pipeStep_cases R S cfg (iterOptions cfg fun _ => none) s s' a h with
  | answer _ hp | pipe _ hp => exact ⟨rfl, (step_cases hp).signals sender⟩

theorem step_alert {a : SnapAction R S} (h : snapStep cfg newIter s a = some s')
    (hs : s.drainer.Alert s.pipe.shared.win) : s'.drainer.Alert s'.pipe.shared.win := by
  cases a with
  | drainer e =>
    obtain ⟨⟨d, ch, win⟩, taken, rfl⟩ := Option.map_eq_some_iff.mp h
    exact leaveGroup_alert (CommitDrainer.run_alert taken) _
  | pipe a =>
    obtain ⟨drainer, moved⟩ := pipeStep_signals h
    rw [drainer]
    exact hs.signals moved
  | closer b =>
    cases snapStep_cases h with
    | closeCh =>
      refine leaveGroup_alert ?_ _
      exact hs
    | _ => exact hs
  | cancel | proxy | next => cases snapStep_cases h <;> exact hs

theorem waiting_drainer_enabled {first : ChangedFileEntry} {rest : List ChangedFileEntry}
    (h : Reach (snapStep cfg newIter) (snapInit cfg R S first rest) s)
    (waits : s.drainer.pc = .wait) :
    ∃ fb todo, s.drainer.pending = fb :: todo ∧
      (s.pipe.shared.win.isReleased fb.lastReqID = true →
        (snapStep cfg newIter s (.drainer (.select .ready))).isSome = true) := by
  have alert : s.drainer.Alert s.pipe.shared.win :=
    h.invariant (P := fun s => s.drainer.Alert s.pipe.shared.win) nofun
      fun _ _ _ _ hs next => step_alert next hs
  obtain ⟨fb, todo, pending, token⟩ := alert waits
  refine ⟨fb, todo, pending, fun released => ?_⟩
  have wakes : s.drainer.run cfg.maxWindow.toNat s.gctxDone s.feed.boundaryCh s.pipe.shared.win
      s.drainer.pc (.select .ready) = some _ :=
    CommitDrainer.run_wait _ waits (token released)
  simp only [snapStep, drain, wakes, Option.map_some, Option.isSome_some]

end Snapdiff

end CephVolsync.CephFs
