import CephVolsync.Library.TransitionSystem
import CephVolsync.Rbd.Adapter

/-! The goroutine behind `RBDBlockDiffIterator` (`internal/ceph/rbd/rbd.go`). It runs
`DiffIterateByID`, whose callback sends each extent to `blocksChan`; `Next` receives from it, and
`Close` drains it, waits for the result and releases the image and the connection, once. The
adapter sees this through the calls of one goroutine, and to that one it is the queue
`RBDBlockDiffIterator`. -/

namespace CephVolsync.Rbd

open Extents TransitionSystem

def blocksChanCap : ℕ := 64

/-- The goroutine: inside `DiffIterateByID`, in front of the send to `doneChan`, in front of the
deferred close of `blocksChan`. -/
inductive DiffPC where
  | iterate
  | report
  | close
  | exit
  deriving DecidableEq, Repr

/-- The caller: between two calls, or inside the function of `closeOnce`. -/
inductive CallerPC where
  | idle
  | drain
  | wait
  | release (iterErr : Bool)
  deriving DecidableEq, Repr

inductive CloseErr where
  | diffIteration
  | imageClose
  deriving DecidableEq, Repr

/-- `todo` is what `DiffIterateByID` has still to report, `iterErr` how it ends. `once` says that
`closeOnce` is done, `released` counts the calls of `image.Close` and `conn.Destroy`. -/
structure DiffIterator where
  todo : List Extent
  iterErr : Bool
  goroutine : DiffPC
  blocksChan : Chan Extent
  doneChan : List Bool
  caller : CallerPC
  once : Bool
  closeErr : Option CloseErr
  released : ℕ
  deriving DecidableEq, Repr

inductive DiffAction where
  | callback
  | iterated
  | report
  | closeChan
  | next
  | close
  | drain
  | wait
  | release (imageErr : Bool)
  deriving DecidableEq, Repr

def closeErrOf (iterErr imageErr : Bool) : Option CloseErr :=
  if iterErr then some .diffIteration else if imageErr then some .imageClose else none

def diffStep (s : DiffIterator) : DiffAction → Option DiffIterator
  | .callback =>
    match s.goroutine, s.todo with
    | .iterate, e :: rest =>
      if s.blocksChan.buf.length < blocksChanCap then
        some { s with todo := rest, blocksChan := s.blocksChan.send e }
      else none
    | _, _ => none
  | .iterated =>
    if s.goroutine = .iterate ∧ s.todo = [] then some { s with goroutine := .report } else none
  | .report =>
    if s.goroutine = .report then
      some { s with goroutine := .close, doneChan := s.doneChan ++ [s.iterErr] }
    else none
  | .closeChan =>
    if s.goroutine = .close then
      some { s with goroutine := .exit, blocksChan := s.blocksChan.close }
    else none
  | .next =>
    if s.caller = .idle then
      match s.blocksChan.buf with
      | _ :: rest => some { s with blocksChan := { s.blocksChan with buf := rest } }
      | [] => if s.blocksChan.closed then some s else none
    else none
  | .close =>
    if s.caller = .idle then if s.once then some s else some { s with caller := .drain } else none
  | .drain =>
    if s.caller = .drain then
      match s.blocksChan.buf with
      | _ :: rest => some { s with blocksChan := { s.blocksChan with buf := rest } }
      | [] => if s.blocksChan.closed then some { s with caller := .wait } else none
    else none
  | .wait =>
    match s.caller, s.doneChan with
    | .wait, err :: rest => some { s with caller := .release err, doneChan := rest }
    | _, _ => none
  | .release imageErr =>
    match s.caller with
    | .release iterErr => some { s with
        caller := .idle, once := true, closeErr := closeErrOf iterErr imageErr
        released := s.released + 1 }
    | _ => none

def diffInit (blocks : List Extent) (iterErr : Bool) : DiffIterator where
  todo := blocks
  iterErr := iterErr
  goroutine := .iterate
  blocksChan := .new
  doneChan := []
  caller := .idle
  once := false
  closeErr := none
  released := 0

/-- A call of the iterator with its result; `imageClose` is the call of `image.Close` inside of
`Close`. -/
inductive IterCall where
  | next (block : Option Extent)
  | imageClose (failed : Bool)
  | close (err : Option CloseErr)
  deriving DecidableEq, Repr

def returns (s : DiffIterator) : DiffAction → List IterCall
  | .next => [.next s.blocksChan.buf.head?]
  | .close => if s.once then [.close s.closeErr] else []
  | .release imageErr =>
    match s.caller with
    | .release iterErr => [.imageClose imageErr, .close (closeErrOf iterErr imageErr)]
    | _ => []
  | .callback | .iterated | .report | .closeChan | .drain | .wait => []

/-- The queue between two calls, how `image.Close` ended and what `Close` returned. -/
structure CalledQueue where
  queue : RBDBlockDiffIterator
  imageErr : Option Bool
  kept : Option (Option CloseErr)
  deriving DecidableEq, Repr

/-- What the first `Close` is to return when it has read how the diff ended. -/
def firstCloseErr (it : RBDBlockDiffIterator) (imageErr : Bool) : Option CloseErr :=
  match it.iterErr, imageErr with
  | true, _ => some .diffIteration
  | false, true => some .imageClose
  | false, false => none

/-- The calls that the queue admits: the first `Close` is behind a call of `image.Close`, a
further one returns the same. -/
def callStep (q : CalledQueue) : IterCall → Option CalledQueue
  | .next block =>
    if q.queue.next.1 = block then some { q with queue := q.queue.next.2 } else none
  | .imageClose failed =>
    if q.imageErr = none then some { q with imageErr := some failed } else none
  | .close err =>
    match q.kept, q.imageErr with
    | some kept, _ => if err = kept then some q else none
    | none, none => none
    | none, some failed =>
      if firstCloseErr q.queue failed = err then
        some { q with queue := (q.queue.close failed).2, kept := some err }
      else none

inductive DiffStep (s : DiffIterator) : DiffAction → DiffIterator → Prop
  | callback {e : Extent} {rest : List Extent} : s.goroutine = .iterate → s.todo = e :: rest →
      s.blocksChan.buf.length < blocksChanCap →
      DiffStep s .callback { s with todo := rest, blocksChan := s.blocksChan.send e }
  | iterated : s.goroutine = .iterate → s.todo = [] →
      DiffStep s .iterated { s with goroutine := .report }
  | report : s.goroutine = .report →
      DiffStep s .report { s with goroutine := .close, doneChan := s.doneChan ++ [s.iterErr] }
  | closeChan : s.goroutine = .close →
      DiffStep s .closeChan { s with goroutine := .exit, blocksChan := s.blocksChan.close }
  | next {e : Extent} {rest : List Extent} : s.caller = .idle → s.blocksChan.buf = e :: rest →
      DiffStep s .next { s with blocksChan := { s.blocksChan with buf := rest } }
  | ended : s.caller = .idle → s.blocksChan.buf = [] → s.blocksChan.closed = true →
      DiffStep s .next s
  | again : s.caller = .idle → s.once = true → DiffStep s .close s
  | close : s.caller = .idle → s.once = false → DiffStep s .close { s with caller := .drain }
  | drain {e : Extent} {rest : List Extent} : s.caller = .drain → s.blocksChan.buf = e :: rest →
      DiffStep s .drain { s with blocksChan := { s.blocksChan with buf := rest } }
  | drained : s.caller = .drain → s.blocksChan.buf = [] → s.blocksChan.closed = true →
      DiffStep s .drain { s with caller := .wait }
  | wait {err : Bool} {rest : List Bool} : s.caller = .wait → s.doneChan = err :: rest →
      DiffStep s .wait { s with caller := .release err, doneChan := rest }
  | release {iterErr imageErr : Bool} : s.caller = .release iterErr →
      DiffStep s (.release imageErr) { s with
        caller := .idle, once := true, closeErr := closeErrOf iterErr imageErr
        released := s.released + 1 }

theorem diffStep_cases {s s' : DiffIterator} {a : DiffAction} (h : diffStep s a = some s') :
    DiffStep s a s' := by
  cases a with
  | callback =>
    simp only [diffStep] at h
    split at h
    · rename_i at_ queue
      split_ifs at h with room
      cases h
      exact .callback at_ queue room
    · cases h
  | iterated =>
    simp only [diffStep] at h
    split_ifs at h with ready
    cases h
    exact .iterated ready.1 ready.2
  | report =>
    simp only [diffStep] at h
    split_ifs at h with at_
    cases h
    exact .report at_
  | closeChan =>
    simp only [diffStep] at h
    split_ifs at h with at_
    cases h
    exact .closeChan at_
  | next =>
    simp only [diffStep] at h
    split at h
    · rename_i idle
      cases queue : s.blocksChan.buf with
      | nil =>
        simp only [queue] at h
        split_ifs at h with closed
        cases h
        exact .ended idle queue closed
      | cons e rest =>
        simp only [queue] at h
        cases h
        exact .next idle queue
    · cases h
  | close =>
    simp only [diffStep] at h
    split_ifs at h with idle once
    · cases h
      exact .again idle once
    · cases h
      exact .close idle (by simpa using once)
  | drain =>
    simp only [diffStep] at h
    split at h
    · rename_i at_
      cases queue : s.blocksChan.buf with
      | nil =>
        simp only [queue] at h
        split_ifs at h with closed
        cases h
        exact .drained at_ queue closed
      | cons e rest =>
        simp only [queue] at h
        cases h
        exact .drain at_ queue
    · cases h
  | wait =>
    simp only [diffStep] at h
    split at h
    · rename_i at_ queue
      cases h
      exact .wait at_ queue
    · cases h
  | release imageErr =>
    simp only [diffStep] at h
    split at h
    · rename_i at_
      cases h
      exact .release at_
    · cases h

namespace DiffIterator

def drained (s : DiffIterator) : Prop := s.once = true ∨ s.caller ≠ .idle ∧ s.caller ≠ .drain

def result (s : DiffIterator) : List Bool :=
  match s.goroutine with
  | .iterate | .report => []
  | .close | .exit =>
    if s.once then [] else
      match s.caller with
      | .release _ => []
      | _ => [s.iterErr]

structure Orderly (s : DiffIterator) : Prop where
  todo : s.goroutine ≠ .iterate → s.todo = []
  closed : s.blocksChan.closed = true ↔ s.goroutine = .exit
  done : s.doneChan = s.result
  drained : s.drained → s.blocksChan.closed = true ∧ s.blocksChan.buf = []
  err : ∀ err, s.caller = .release err → err = s.iterErr
  released : s.released = if s.once then 1 else 0
  idle : s.once = true → s.caller = .idle

theorem init_orderly (blocks : List Extent) (iterErr : Bool) :
    (diffInit blocks iterErr).Orderly :=
  ⟨by simp [diffInit], by simp [diffInit, Chan.new], rfl, by simp [diffInit, drained],
    by simp [diffInit], rfl, by simp [diffInit]⟩

variable {s : DiffIterator}

theorem Orderly.early (h : s.Orderly) (running : s.goroutine ≠ .exit) : ¬s.drained :=
  fun past => running (h.closed.mp (h.drained past).1)

theorem result_eq (early : ¬s.drained) (reported : s.goroutine = .close ∨ s.goroutine = .exit) :
    s.result = [s.iterErr] := by
  simp only [drained, not_or, not_and, not_not] at early
  have pc : s.caller = .idle ∨ s.caller = .drain := by
    by_cases idle : s.caller = .idle
    · exact .inl idle
    · exact .inr (early.2 idle)
  rcases reported with at_ | at_ <;> rcases pc with pc | pc <;> simp [result, at_, pc, early.1]

end DiffIterator

theorem DiffStep.orderly {s s' : DiffIterator} {a : DiffAction} (h : DiffStep s a s')
    (hs : s.Orderly) : s'.Orderly := by
  obtain ⟨todo, closed, done, drained, err, released, idle⟩ := hs
  have early := DiffIterator.Orderly.early ⟨todo, closed, done, drained, err, released, idle⟩
  have first (busy : s.caller ≠ .idle) : s.once = false := by
    cases once : s.once with
    | false => rfl
    | true => exact absurd (idle once) busy
  cases h with
  | callback at_ =>
    have early := early (by simp [at_])
    exact ⟨fun ne => absurd at_ ne, closed, done, fun past => absurd past early, err, released,
      idle⟩
  | iterated at_ queue =>
    have open_ : ¬s.blocksChan.closed = true := fun c => by simp [closed.mp c] at at_
    have none : s.doneChan = [] := by simpa [DiffIterator.result, at_] using done
    exact ⟨fun _ => queue, by simpa using open_, none, drained, err, released, idle⟩
  | report at_ =>
    have early := early (by simp [at_])
    have open_ : ¬s.blocksChan.closed = true := fun c => by simp [closed.mp c] at at_
    have none : s.doneChan = [] := by simpa [DiffIterator.result, at_] using done
    refine ⟨fun _ => todo (by simp [at_]), by simpa using open_, ?_, drained, err, released, idle⟩
    have result := DiffIterator.result_eq (s := { s with goroutine := .close }) early (.inl rfl)
    exact (congrArg (· ++ [s.iterErr]) none).trans result.symm
  | closeChan at_ =>
    have early := early (by simp [at_])
    refine ⟨fun _ => todo (by simp [at_]), by simp [Chan.close], ?_, fun past => absurd past early,
      err, released, idle⟩
    have result := DiffIterator.result_eq (s := { s with goroutine := .exit }) early (.inr rfl)
    exact (done.trans (DiffIterator.result_eq early (.inl at_))).trans result.symm
  | next _ queue =>
    exact ⟨todo, closed, done, fun past => by simp [(drained past).2] at queue, err, released, idle⟩
  | ended => exact ⟨todo, closed, done, drained, err, released, idle⟩
  | again => exact ⟨todo, closed, done, drained, err, released, idle⟩
  | close at_ first =>
    refine ⟨todo, closed, ?_, by simp [DiffIterator.drained, first], by simp, released,
      by simp [first]⟩
    rw [done]
    simp [DiffIterator.result, at_]
  | drain _ queue =>
    exact ⟨todo, closed, done, fun past => by simp [(drained past).2] at queue, err, released, idle⟩
  | drained at_ queue ended =>
    have first := first (by simp [at_])
    refine ⟨todo, closed, ?_, fun _ => ⟨ended, queue⟩, by simp, released, by simp [first]⟩
    rw [done]
    simp [DiffIterator.result, at_]
  | @wait value rest at_ queue =>
    have first := first (by simp [at_])
    have past := drained (.inr (by simp [at_]))
    have exited := closed.mp past.1
    rw [done, DiffIterator.result, exited, first, at_] at queue
    obtain ⟨rfl, rfl⟩ := List.cons.inj queue
    exact ⟨todo, closed, by simp [DiffIterator.result, exited], fun _ => past, by simp, released,
      by simp [first]⟩
  | @release value imageErr at_ =>
    have first := first (by simp [at_])
    have past := drained (.inr (by simp [at_]))
    have exited := closed.mp past.1
    refine ⟨todo, closed, ?_, fun _ => past, by simp, by simp [released, first], fun _ => rfl⟩
    rw [done]
    simp [DiffIterator.result, exited, at_]

theorem reach_orderly {blocks : List Extent} {iterErr : Bool} {s : DiffIterator}
    (h : Reach diffStep (diffInit blocks iterErr) s) : s.Orderly :=
  h.invariant (DiffIterator.init_orderly blocks iterErr) fun _ _ _ _ hs next =>
    (diffStep_cases next).orderly hs

namespace DiffIterator

def view (s : DiffIterator) : RBDBlockDiffIterator := ⟨s.blocksChan.buf ++ s.todo, s.iterErr⟩

def kept (s : DiffIterator) : Option (Option CloseErr) := if s.once then some s.closeErr else none

structure Follows (start : RBDBlockDiffIterator) (s : DiffIterator) (calls : List IterCall)
    (q : CalledQueue) : Prop where
  run : exec callStep ⟨start, none, none⟩ calls = some q
  kept : q.kept = s.kept
  image : s.once = false → q.imageErr = none
  iterErr : q.queue.iterErr = s.iterErr
  view : s.caller = .idle → q.queue = s.view

end DiffIterator

theorem exec_snoc {start q q' : CalledQueue} {calls : List IterCall} {call : IterCall}
    (run : exec callStep start calls = some q) (next : callStep q call = some q') :
    exec callStep start (calls ++ [call]) = some q' := by
  rw [exec_append, run]
  simp [exec, next]

theorem closeErrOf_admitted {q : CalledQueue} {imageErr : Bool} (kept : q.kept = none)
    (image : q.imageErr = some imageErr) :
    callStep q (.close (closeErrOf q.queue.iterErr imageErr)) = some { q with
      queue := (q.queue.close imageErr).2
      kept := some (closeErrOf q.queue.iterErr imageErr) } := by
  have same : firstCloseErr q.queue imageErr = closeErrOf q.queue.iterErr imageErr := by
    cases iterErr : q.queue.iterErr <;> cases imageErr <;> simp [firstCloseErr, iterErr, closeErrOf]
  simp [callStep, kept, image, same]

theorem DiffStep.follows {s s' : DiffIterator} {a : DiffAction} {start : RBDBlockDiffIterator}
    {calls : List IterCall} {q : CalledQueue} (h : DiffStep s a s') (hs : s.Orderly)
    (follows : s.Follows start calls q) : ∃ q', s'.Follows start (calls ++ returns s a) q' := by
  obtain ⟨run, kept, image, same, view⟩ := follows
  cases h with
  | callback at_ queue =>
    refine ⟨q, by rwa [returns, List.append_nil], kept, image, same, fun idle => ?_⟩
    rw [view idle]
    simp [DiffIterator.view, queue, Chan.send]
  | iterated | report | closeChan =>
    exact ⟨q, by rwa [returns, List.append_nil], kept, image, same, view⟩
  | @next e rest idle queue =>
    have seen := view idle
    rw [returns, queue, List.head?_cons]
    refine ⟨{ q with queue := ⟨rest ++ s.todo, s.iterErr⟩ }, exec_snoc run ?_, kept, image, rfl,
      fun _ => rfl⟩
    simp [callStep, seen, RBDBlockDiffIterator.next, DiffIterator.view, queue]
  | ended idle queue closed =>
    have todo := hs.todo (by simp [hs.closed.mp closed])
    have empty : q.queue.next = (none, q.queue) := by
      rw [view idle]
      simp [RBDBlockDiffIterator.next, DiffIterator.view, queue, todo]
    rw [returns, queue, List.head?_nil]
    exact ⟨q, exec_snoc run (by simp [callStep, empty]), kept, image, same, view⟩
  | again idle once =>
    rw [returns, if_pos once]
    refine ⟨q, exec_snoc run ?_, kept, image, same, view⟩
    simp [callStep, kept, DiffIterator.kept, once]
  | close idle first =>
    rw [returns, if_neg (by simp [first]), List.append_nil]
    exact ⟨q, run, kept, image, same, by simp⟩
  | drain at_ | drained at_ =>
    exact ⟨q, by rwa [returns, List.append_nil], kept, image, same, by simp [at_]⟩
  | wait at_ => exact ⟨q, by rwa [returns, List.append_nil], kept, image, same, by simp⟩
  | @release value imageErr at_ =>
    have past := hs.drained (.inr (by simp [at_]))
    have todo := hs.todo (by simp [hs.closed.mp past.1])
    have first : s.once = false := by
      cases once : s.once with
      | false => rfl
      | true => simp [hs.idle once] at at_
    have closed : callStep q (.imageClose imageErr) =
        some { q with imageErr := some imageErr } := by
      simp [callStep, image first]
    have none : q.kept = none := by simp [kept, DiffIterator.kept, first]
    have returned := closeErrOf_admitted (q := { q with imageErr := some imageErr }) none rfl
    obtain rfl : value = q.queue.iterErr := (hs.err value at_).trans same.symm
    rw [returns, at_, List.append_cons calls]
    refine ⟨_, exec_snoc (exec_snoc run closed) returned, rfl, by simp, same, fun _ => ?_⟩
    simp [DiffIterator.view, RBDBlockDiffIterator.close, past.2, todo, same]

/-- To its caller the iterator is a queue of the extents of the diff: `Next` returns them one
after the other and reports the end behind the last one only; the first `Close` returns the error
of the diff if there is one and else what `image.Close` returned, and a further one the same. The
image and the connection are released once, and not before the goroutine has ended. -/
theorem diff_iterator_is_queue (blocks : List Extent) (iterErr : Bool) (s : DiffIterator)
    (calls : List IterCall)
    (reached : Reach (record returns diffStep) (diffInit blocks iterErr, []) (s, calls)) :
    (∃ q, exec callStep ⟨⟨blocks, iterErr⟩, none, none⟩ calls = some q ∧
      (s.caller = .idle → q.queue = s.view)) ∧
    s.released ≤ 1 ∧ (s.released = 1 → s.goroutine = .exit) := by
  have follows : ∃ q, s.Follows ⟨blocks, iterErr⟩ calls q := by
    refine reached.invariant (P := fun p => ∃ q, p.1.Follows ⟨blocks, iterErr⟩ p.2 q)
      ⟨_, rfl, rfl, fun _ => rfl, rfl, fun _ => rfl⟩ fun p a p' before hp next => ?_
    obtain ⟨step, history⟩ := record_eq_some.mp next
    obtain ⟨q, follows⟩ := hp
    rw [history]
    exact (diffStep_cases step).follows (reach_orderly before.of_record) follows
  have orderly : s.Orderly := reach_orderly reached.of_record
  obtain ⟨q, run, -, -, -, view⟩ := follows
  have released := orderly.released
  refine ⟨⟨q, run, view⟩, ?_, fun once => ?_⟩
  · split_ifs at released <;> omega
  · have done : s.once = true := by
      split_ifs at released with h
      · exact h
      · omega
    exact orderly.closed.mp (orderly.drained (.inl done)).1

/-- Two extents are read, the diff fails behind them and so does `image.Close`. -/
def failedDiffCalls : List IterCall :=
  [.next (some ⟨0, 4⟩), .next (some ⟨8, 4⟩), .next none, .imageClose true,
    .close (some .diffIteration), .close (some .diffIteration)]

theorem diff_iterator_is_queue_two : ∃ (s : DiffIterator) (q : CalledQueue),
    exec callStep ⟨⟨[⟨0, 4⟩, ⟨8, 4⟩], true⟩, none, none⟩ failedDiffCalls = some q ∧
      q.queue = s.view ∧ s.released = 1 := by
  have run : (exec (record returns diffStep) (diffInit [⟨0, 4⟩, ⟨8, 4⟩] true, [])
      [.callback, .next, .callback, .iterated, .next, .report, .closeChan, .next, .close, .drain,
        .wait, .release true, .close]).any (fun p =>
          p.2 = failedDiffCalls ∧ p.1.released = 1 ∧ p.1.caller = .idle) = true := by
    decide +kernel
  obtain ⟨⟨s, calls⟩, reached, hs⟩ := Reach.of_exec_any run
  obtain ⟨rfl, released, idle⟩ := of_decide_eq_true hs
  obtain ⟨⟨q, run, view⟩, -⟩ := diff_iterator_is_queue [⟨0, 4⟩, ⟨8, 4⟩] true s _ reached
  exact ⟨s, q, run, view idle, released⟩

def internal (_ : DiffIterator) : DiffAction → Bool
  | .next | .close => false
  | _ => true

def DiffPC.rank : DiffPC → ℕ
  | .iterate => 3
  | .report => 2
  | .close => 1
  | .exit => 0

def CallerPC.rank : CallerPC → ℕ
  | .drain => 3
  | .wait => 2
  | .release _ => 1
  | .idle => 0

def DiffIterator.work (s : DiffIterator) : ℕ :=
  2 * s.todo.length + s.blocksChan.buf.length + s.goroutine.rank + s.caller.rank

theorem DiffStep.work_lt {s s' : DiffIterator} {a : DiffAction} (h : DiffStep s a s')
    (own : internal s a = true) : s'.work < s.work := by
  cases h with
  | callback at_ queue =>
    simp [DiffIterator.work, queue, Chan.send]
    omega
  | iterated at_ | report at_ | closeChan at_ =>
    simp [DiffIterator.work, at_, DiffPC.rank, Chan.close]
  | next | ended | again | close => cases own
  | drain at_ queue => simp [DiffIterator.work, queue]
  | drained at_ | wait at_ | release at_ =>
    simp [DiffIterator.work, at_, CallerPC.rank]

theorem DiffIterator.Orderly.settled {s : DiffIterator} (hs : s.Orderly)
    (stuck : Stuck (restrict internal diffStep) s) :
    s.caller = .idle ∧ (diffStep s .next).isSome = true := by
  have none (a : DiffAction) (own : internal s a = true) : diffStep s a = none := by
    have := stuck a
    simpa [restrict, own] using this
  -- a goroutine with an empty channel in front of it goes on to its end
  have exited (empty : s.blocksChan.buf = []) : s.goroutine = .exit := by
    cases at_ : s.goroutine with
    | iterate =>
      cases queue : s.todo with
      | nil => simpa [diffStep, at_, queue] using none .iterated rfl
      | cons e rest =>
        simpa [diffStep, at_, queue, empty, blocksChanCap] using none .callback rfl
    | report => simpa [diffStep, at_] using none .report rfl
    | close => simpa [diffStep, at_] using none .closeChan rfl
    | exit => rfl
  have idle : s.caller = .idle := by
    cases pc : s.caller with
    | idle => rfl
    | drain =>
      cases queue : s.blocksChan.buf with
      | nil =>
        have closed := hs.closed.mpr (exited queue)
        simpa [diffStep, pc, queue, closed] using none .drain rfl
      | cons e rest => simpa [diffStep, pc, queue] using none .drain rfl
    | wait =>
      have past := hs.drained (.inr (by simp [pc]))
      have first : s.once = false := by
        cases once : s.once with
        | false => rfl
        | true => simp [hs.idle once] at pc
      have done := hs.done
      simp only [DiffIterator.result, hs.closed.mp past.1, first, pc] at done
      simpa [diffStep, pc, done] using none .wait rfl
    | release err => simpa [diffStep, pc] using none (.release false) rfl
  refine ⟨idle, ?_⟩
  cases queue : s.blocksChan.buf with
  | nil => simp [diffStep, idle, queue, hs.closed.mpr (exited queue)]
  | cons e rest => simp [diffStep, idle, queue]

/-- A call returns: once it has begun, the goroutine and the caller make a bounded number of
steps by themselves, and where they stop the call is over and a further `Next` does not block. -/
theorem iterator_calls_return (blocks : List Extent) (iterErr : Bool) (s s' : DiffIterator)
    (schedule : List DiffAction) (reached : Reach diffStep (diffInit blocks iterErr) s)
    (run : exec (restrict internal diffStep) s schedule = some s') :
    schedule.length ≤ s.work ∧ (Stuck (restrict internal diffStep) s' →
      s'.caller = .idle ∧ (diffStep s' .next).isSome = true) := by
  have after : Reach diffStep (diffInit blocks iterErr) s' :=
    reached.trans (Reach.of_restrict (.of_exec run))
  have bound : schedule.length + s'.work ≤ s.work := by
    refine exec_induction (restrict internal diffStep)
      (P := fun schedule s' => schedule.length + s'.work ≤ s.work) (by simp) ?_ run
    intro schedule s₁ a s₂ _ sofar step
    obtain ⟨own, next⟩ := restrict_eq_some.mp step
    have less := (diffStep_cases next).work_lt own
    simp only [List.length_append, List.length_singleton]
    omega
  exact ⟨by omega, (reach_orderly after).settled⟩

/-- A `Close` that has just begun, with one extent still to be reported. -/
def closing : DiffIterator := { diffInit [⟨0, 4⟩] false with caller := .drain }

theorem iterator_calls_return_closing : closing.work = 8 ∧
    (exec (restrict internal diffStep) closing [.callback, .drain, .iterated, .report, .closeChan,
      .drain, .wait, .release false]).any (·.caller = .idle) = true := by
  have reached : Reach diffStep (diffInit [⟨0, 4⟩] false) closing := .single (a := .close) rfl
  have run : exec (restrict internal diffStep) closing [.callback, .drain, .iterated, .report,
      .closeChan, .drain, .wait, .release false] =
        some ⟨[], false, .exit, ⟨[], true⟩, [], .idle, true, none, 1⟩ := by decide
  obtain ⟨-, settles⟩ := iterator_calls_return [⟨0, 4⟩] false closing _ _ reached run
  have idle := (settles fun a => by cases a <;> rfl).1
  exact ⟨rfl, by rw [run]; exact decide_eq_true idle⟩

end CephVolsync.Rbd
