import CephVolsync.CephFs.PathSafety
import CephVolsync.Library.TransitionSystem

/-! `DataServer.Delete` (`internal/worker/cephfs/destination.go`): it resolves all paths of a
request, and removes them in a group of goroutines of which at most `deleteParallelism` run
at a time. A step is a message of the stream or a step of one goroutine. The state keeps the
requests received and the calls of `RemoveAll`, each with the number of its request. -/

namespace CephVolsync.CephFs

open Filepath TransitionSystem

def deleteParallelism : ℕ := 16

inductive DeleteErr where
  | recv
  | path (message : GoString)
  | ctx
  | remove (fullPath : GoString)
  | send
  deriving DecidableEq, Repr

def sanitizePaths (fullPaths : List GoString) : List GoString → Except GoString (List GoString)
  | [] => .ok fullPaths
  | path :: rest =>
    match sanitizePath path with
    | .error err => .error err
    | .ok fullPath => sanitizePaths (fullPaths ++ [fullPath]) rest

/-- Where the handler stands: it waits for a request, starts goroutines for these paths, waits
for them, answers, or has returned. -/
inductive DeletePC where
  | recv
  | spawn (todo : List GoString)
  | wait
  | send
  | returned (err : Option DeleteErr)
  deriving DecidableEq, Repr

/-- A goroutine of the group, before and behind its look at the group's context. -/
structure DeleteTask where
  fullPath : GoString
  checked : Bool
  deriving DecidableEq, Repr

structure DeleteCall where
  pc : DeletePC
  tasks : List DeleteTask
  groupErr : Option DeleteErr
  ctxDone : Bool
  requests : List (List GoString)
  removed : List (ℕ × GoString)
  deriving DecidableEq, Repr

/-- `task` is a step of the goroutine at this place, with the outcome of its `RemoveAll`. -/
inductive DeleteAction where
  | recv (paths : List GoString)
  | close (err : Bool)
  | spawn
  | task (i : ℕ) (ok : Bool)
  | wait
  | send (ok : Bool)
  | cancel
  deriving DecidableEq, Repr

namespace DeleteCall

def start : DeleteCall := ⟨.recv, [], none, false, [], []⟩

def gctxDone (s : DeleteCall) : Bool := s.ctxDone || s.groupErr.isSome

def finish (s : DeleteCall) (i : ℕ) (err : Option DeleteErr) : DeleteCall :=
  { s with tasks := s.tasks.eraseIdx i, groupErr := s.groupErr.or err }

def number (s : DeleteCall) : ℕ := s.requests.length - 1

def runTask (s : DeleteCall) (i : ℕ) (ok : Bool) : Option DeleteCall :=
  match s.tasks[i]? with
  | none => none
  | some t =>
    if t.checked then
      let s := { s with removed := s.removed ++ [(s.number, t.fullPath)] }
      some (s.finish i (if ok then none else some (.remove t.fullPath)))
    else if s.gctxDone then some (s.finish i (some .ctx))
    else some { s with tasks := s.tasks.set i { t with checked := true } }

def step (s : DeleteCall) : DeleteAction → Option DeleteCall
  | .recv paths =>
    if s.pc = .recv then
      let s := { s with requests := s.requests ++ [paths], groupErr := none }
      match sanitizePaths [] paths with
      | .error err => some { s with pc := .returned (some (.path err)) }
      | .ok fullPaths => some { s with pc := .spawn fullPaths }
    else none
  | .close err =>
    if s.pc = .recv then some { s with pc := .returned (if err then some .recv else none) } else
      none
  | .spawn =>
    match s.pc with
    | .spawn (fullPath :: todo) =>
      if s.tasks.length < deleteParallelism then
        some { s with pc := .spawn todo, tasks := s.tasks ++ [⟨fullPath, false⟩] }
      else none
    | .spawn [] => some { s with pc := .wait }
    | _ => none
  | .task i ok => s.runTask i ok
  | .wait =>
    if s.pc = .wait ∧ s.tasks = [] then
      match s.groupErr with
      | some err => some { s with pc := .returned (some err) }
      | none => some { s with pc := .send }
    else none
  | .send ok =>
    if s.pc = .send then some { s with pc := if ok then .recv else .returned (some .send) } else
      none
  | .cancel => some { s with ctxDone := true }

inductive Step (s : DeleteCall) : DeleteAction → DeleteCall → Prop
  | reject {paths : List GoString} {err : GoString} : s.pc = .recv →
      sanitizePaths [] paths = .error err → Step s (.recv paths) { s with
        requests := s.requests ++ [paths], groupErr := none, pc := .returned (some (.path err)) }
  | accept {paths fullPaths : List GoString} :
      s.pc = .recv → sanitizePaths [] paths = .ok fullPaths →
      Step s (.recv paths) { s with
        requests := s.requests ++ [paths], groupErr := none, pc := .spawn fullPaths }
  | close {err : Bool} : s.pc = .recv →
      Step s (.close err) { s with pc := .returned (if err then some .recv else none) }
  | spawn {fullPath : GoString} {todo : List GoString} : s.pc = .spawn (fullPath :: todo) →
      Step s .spawn { s with pc := .spawn todo, tasks := s.tasks ++ [⟨fullPath, false⟩] }
  | spawned : s.pc = .spawn [] → Step s .spawn { s with pc := .wait }
  | check {i : ℕ} {ok : Bool} {t : DeleteTask} : s.tasks[i]? = some t →
      Step s (.task i ok) { s with tasks := s.tasks.set i { t with checked := true } }
  | skip {i : ℕ} {ok : Bool} : Step s (.task i ok) (s.finish i (some .ctx))
  | remove {i : ℕ} {ok : Bool} {t : DeleteTask} {err : Option DeleteErr} : s.tasks[i]? = some t →
      Step s (.task i ok) ({ s with removed := s.removed ++ [(s.number, t.fullPath)] }.finish i err)
  | wait {pc : DeletePC} : s.tasks = [] → s.pc = .wait →
      pc = .send ∨ (∃ err, pc = .returned (some err)) → Step s .wait { s with pc := pc }
  | send {ok : Bool} : s.pc = .send →
      Step s (.send ok) { s with pc := if ok then .recv else .returned (some .send) }
  | cancel : Step s .cancel { s with ctxDone := true }

theorem step_cases {s s' : DeleteCall} {a : DeleteAction} (h : s.step a = some s') :
    Step s a s' := by
  cases a with
  | recv paths =>
    simp only [step] at h
    split_ifs at h with pc
    split at h
    · cases h
      exact .reject pc ‹_›
    · cases h
      exact .accept pc ‹_›
  | close err =>
    simp only [step] at h
    split at h
    · cases h
      exact .close ‹_›
    · cases h
  | spawn =>
    simp only [step] at h
    split at h
    · split_ifs at h
      cases h
      exact .spawn ‹_›
    · cases h
      exact .spawned ‹_›
    · cases h
  | task i ok =>
    simp only [step, runTask] at h
    split at h
    · cases h
    · rename_i t ht
      split at h
      · cases h
        exact .remove ht
      · split at h
        · cases h
          exact .skip
        · cases h
          exact .check ht
  | wait =>
    simp only [step] at h
    split_ifs at h with cond
    split at h
    · cases h
      exact .wait cond.2 cond.1 (.inr ⟨_, rfl⟩)
    · cases h
      exact .wait cond.2 cond.1 (.inl rfl)
  | send ok =>
    simp only [step] at h
    split at h
    · cases h
      exact .send ‹_›
    · cases h
  | cancel =>
    cases h
    exact .cancel

def Accepted (paths : List GoString) : Prop :=
  ∀ path ∈ paths, ∃ fullPath, sanitizePath path = .ok fullPath

/-- The path comes from a request that was accepted as a whole. -/
def Resolved (requests : List (List GoString)) (i : ℕ) (fullPath : GoString) : Prop :=
  ∃ paths, requests[i]? = some paths ∧ Accepted paths ∧
    ∃ path ∈ paths, sanitizePath path = .ok fullPath

theorem Resolved.append {requests : List (List GoString)} {i : ℕ} {fullPath : GoString}
    (h : Resolved requests i fullPath) (paths : List GoString) :
    Resolved (requests ++ [paths]) i fullPath := by
  obtain ⟨found, hf, rest⟩ := h
  exact ⟨found, by rw [List.getElem?_append_left (List.getElem?_eq_some_iff.mp hf).1, hf], rest⟩

theorem sanitizePaths_ok {paths acc fullPaths : List GoString}
    (h : sanitizePaths acc paths = .ok fullPaths) : Accepted paths ∧ ∀ fullPath ∈ fullPaths,
      fullPath ∈ acc ∨ ∃ path ∈ paths, sanitizePath path = .ok fullPath := by
  induction paths generalizing acc with
  | nil =>
    cases h
    exact ⟨fun _ hp => absurd hp List.not_mem_nil, fun _ hf => .inl hf⟩
  | cons path rest ih =>
    rw [sanitizePaths] at h
    cases hp : sanitizePath path with
    | error err =>
      rw [hp] at h
      cases h
    | ok fullPath =>
      rw [hp] at h
      obtain ⟨accepted, from_⟩ := ih h
      refine ⟨fun q hq => ?_, fun f hf => ?_⟩
      · rcases List.mem_cons.mp hq with rfl | hq
        · exact ⟨fullPath, hp⟩
        · exact accepted q hq
      · rcases from_ f hf with hf | ⟨q, hq, ok⟩
        · rcases List.mem_append.mp hf with hf | hf
          · exact .inl hf
          · rw [List.mem_singleton.mp hf]
            exact .inr ⟨path, List.mem_cons_self, hp⟩
        · exact .inr ⟨q, List.mem_cons_of_mem _ hq, ok⟩

/-- Goroutines run only for a request that was accepted, and a request that was not is the
last one. -/
structure Sound (s : DeleteCall) : Prop where
  removed : ∀ call ∈ s.removed, Resolved s.requests call.1 call.2
  tasks : ∀ t ∈ s.tasks, Resolved s.requests s.number t.fullPath
  todo : ∀ todo, s.pc = .spawn todo → ∀ fullPath ∈ todo, Resolved s.requests s.number fullPath
  idle : s.pc = .recv → s.tasks = []
  busy : s.pc = .send → s.tasks = []
  accepted : ∀ paths ∈ s.requests, Accepted paths ∨ ∃ err, s.pc = .returned (some (.path err))

variable {s s' : DeleteCall}

theorem number_append (s : DeleteCall) (paths : List GoString) :
    (s.requests ++ [paths]).length - 1 = s.requests.length := by
  rw [List.length_append, List.length_singleton, Nat.add_sub_cancel]

theorem Sound.finish (h : s.Sound) (i : ℕ) (err : Option DeleteErr) : (s.finish i err).Sound := by
  refine ⟨h.removed, fun t ht => h.tasks t (List.mem_of_mem_eraseIdx ht), h.todo, fun pc => ?_,
    fun pc => ?_, h.accepted⟩
  · rw [DeleteCall.finish, h.idle pc, List.eraseIdx_nil]
  · rw [DeleteCall.finish, h.busy pc, List.eraseIdx_nil]

theorem Sound.unreturned (h : s.Sound) (goes : ∀ err, s.pc ≠ .returned err) :
    ∀ paths ∈ s.requests, Accepted paths :=
  fun paths hp => (h.accepted paths hp).resolve_right fun ⟨_, returned⟩ => goes _ returned

theorem Sound.step {a : DeleteAction} (h : s.Sound) (hstep : s.step a = some s') : s'.Sound := by
  cases step_cases hstep with
  | @reject paths err pc bad =>
    refine ⟨fun call hc => (h.removed call hc).append paths, fun t ht => ?_, nofun, nofun, nofun,
      fun _ _ => .inr ⟨err, rfl⟩⟩
    rw [h.idle pc] at ht
    cases ht
  | @accept paths fullPaths pc ok =>
    obtain ⟨accepted, from_⟩ := sanitizePaths_ok ok
    refine ⟨fun call hc => (h.removed call hc).append paths, fun t ht => ?_, fun todo hpc f hf =>
      ?_, nofun, nofun, fun req hr => ?_⟩
    · rw [h.idle pc] at ht
      cases ht
    · cases hpc
      refine ⟨paths, ?_, accepted, (from_ f hf).resolve_left List.not_mem_nil⟩
      rw [number, number_append, List.getElem?_concat_length]
    · rcases List.mem_append.mp hr with hr | hr
      · exact .inl (h.unreturned (by rw [pc]; exact nofun) req hr)
      · rw [List.mem_singleton.mp hr]
        exact .inl accepted
  | close pc =>
    exact ⟨h.removed, h.tasks, nofun, nofun, nofun,
      fun req hr => .inl (h.unreturned (by rw [pc]; exact nofun) req hr)⟩
  | @spawn fullPath todo pc =>
    have mine := h.todo _ pc
    refine ⟨h.removed, fun t ht => ?_, fun todo' hpc f hf => ?_, nofun, nofun, fun req hr => ?_⟩
    · rcases List.mem_append.mp ht with ht | ht
      · exact h.tasks t ht
      · rw [List.mem_singleton.mp ht]
        exact mine fullPath List.mem_cons_self
    · cases hpc
      exact mine f (List.mem_cons_of_mem _ hf)
    · exact .inl (h.unreturned (by rw [pc]; exact nofun) req hr)
  | spawned pc =>
    exact ⟨h.removed, h.tasks, nofun, nofun, nofun,
      fun req hr => .inl (h.unreturned (by rw [pc]; exact nofun) req hr)⟩
  | @check i ok t ht =>
    refine ⟨h.removed, fun u hu => ?_, h.todo, fun pc => ?_, fun pc => ?_, h.accepted⟩
    · rcases List.mem_or_eq_of_mem_set hu with hu | rfl
      · exact h.tasks u hu
      · exact h.tasks t (List.mem_of_getElem? ht)
    · rw [h.idle pc, List.set_nil]
    · rw [h.busy pc, List.set_nil]
  | skip => exact h.finish _ _
  | @remove i ok t err ht =>
    have grown : Sound { s with removed := s.removed ++ [(s.number, t.fullPath)] } := by
      refine ⟨fun call hc => ?_, h.tasks, h.todo, h.idle, h.busy, h.accepted⟩
      rcases List.mem_append.mp hc with hc | hc
      · exact h.removed call hc
      · rw [List.mem_singleton.mp hc]
        exact h.tasks t (List.mem_of_getElem? ht)
    exact grown.finish i err
  | wait tasks pc next =>
    refine ⟨h.removed, h.tasks, fun todo hpc => ?_, fun _ => tasks, fun _ => tasks,
      fun req hr => .inl (h.unreturned (by rw [pc]; exact nofun) req hr)⟩
    rcases next with rfl | ⟨err, rfl⟩ <;> cases hpc
  | @send ok pc =>
    refine ⟨h.removed, h.tasks, fun todo hpc => ?_, fun _ => h.busy pc, fun _ => h.busy pc,
      fun req hr => .inl (h.unreturned (by rw [pc]; exact nofun) req hr)⟩
    cases ok <;> cases hpc
  | cancel => exact ⟨h.removed, h.tasks, h.todo, h.idle, h.busy, h.accepted⟩

theorem reach_sound (reached : Reach step start s) : s.Sound := by
  refine reached.invariant ⟨fun call hc => ?_, fun t ht => ?_, fun todo pc => ?_, fun _ => rfl,
    fun _ => rfl, fun paths hp => ?_⟩ fun _ _ _ _ h hstep => h.step hstep
  · cases hc
  · cases ht
  · cases pc
  · cases hp

/-- A request with a path that is empty or cannot be resolved ends the handler with an error
before anything is removed for it, and whatever is removed lies in the data directory. -/
theorem delete_contained (s : DeleteCall) (reached : Reach step start s) :
    (∀ i paths, s.requests[i]? = some paths →
      (∃ path ∈ paths, path = [] ∨ ∃ err, sanitizePath path = .error err) →
      (∃ err, s.pc = .returned (some (.path err))) ∧ ∀ call ∈ s.removed, call.1 ≠ i) ∧
    ∀ call ∈ s.removed, Below dataMountPath call.2 ∧ ∃ paths, s.requests[call.1]? = some paths ∧
      ∃ path ∈ paths, sanitizePath path = .ok call.2 := by
  have sound := reach_sound reached
  refine ⟨fun i paths hi ⟨path, hp, bad⟩ => ?_, fun call hc => ?_⟩
  · have rejected : ¬Accepted paths := by
      intro accepted
      obtain ⟨fullPath, ok⟩ := accepted path hp
      rcases bad with rfl | ⟨err, bad⟩
      · cases ok
      · rw [bad] at ok
        cases ok
    refine ⟨(sound.accepted paths (List.mem_of_getElem? hi)).resolve_left rejected,
      fun call hc eq => ?_⟩
    obtain ⟨paths', hi', accepted, -⟩ := sound.removed call hc
    rw [eq, hi] at hi'
    cases hi'
    exact rejected accepted
  · obtain ⟨paths, hi, -, path, hp, ok⟩ := sound.removed call hc
    exact ⟨sanitizePath_below ok, paths, hi, path, hp, ok⟩

/-- One request is served, and the next one has a bad path behind a good one. -/
def badRequest : List DeleteAction :=
  [.recv [goString "a/../b", goString "/"], .spawn, .spawn, .spawn, .task 0 true, .task 1 true,
    .task 1 true, .task 0 true, .wait, .send true, .recv [goString "a", goString "../etc"]]

theorem delete_contained_badRequest : ∃ s : DeleteCall,
    s.removed = [(0, goString "/data"), (0, goString "/data/b")] ∧ s.requests.length = 2 ∧
    (∃ err, s.pc = .returned (some (.path err))) ∧ (∀ call ∈ s.removed, call.1 ≠ 1) ∧
    ∀ call ∈ s.removed, Below dataMountPath call.2 := by
  have run : ((exec step start badRequest).any fun s =>
      s.removed = [(0, goString "/data"), (0, goString "/data/b")] ∧
      s.requests.length = 2 ∧ s.requests[1]? = some [goString "a", goString "../etc"]) = true := by
    decide +kernel
  obtain ⟨s, reached, hs⟩ := Reach.of_exec_any run
  obtain ⟨removed, length, second⟩ := of_decide_eq_true hs
  have bad : ∃ err, sanitizePath (goString "../etc") = .error err :=
    ⟨goString "invalid path: path traversal not allowed", by decide +kernel⟩
  obtain ⟨whole, below⟩ := delete_contained s reached
  obtain ⟨returned, none⟩ := whole 1 _ second
    ⟨goString "../etc", List.mem_cons_of_mem _ List.mem_cons_self, .inr bad⟩
  exact ⟨s, removed, length, returned, none, fun call hc => (below call hc).1⟩

end DeleteCall

end CephVolsync.CephFs
