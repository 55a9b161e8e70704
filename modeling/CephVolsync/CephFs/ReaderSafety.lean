import CephVolsync.CephFs.FileCache

/-! The source reader `CephFSReader` (`internal/worker/cephfs/cephfs_reader.go`) under concurrent
calls of `ReadAt` and `CloseFile`, cut at their operations on the cache, on the set `acquired`
and on the file. A reader whose path is already in `acquired` gives its reference up before it
reads; the reference of the set keeps the file open. `CloseFile` of a path and `ReadAt` of it
exclude each other. -/

namespace CephVolsync.CephFs

open Function IndexedFamily RefTable TransitionSystem

/-- Where a call stands: `ReadAt` before its `LoadOrStore`, before the `Release` behind it, and
before its pread, and `CloseFile` before its `Delete` and before its `Release`. -/
inductive CallPC where
  | loadOrStore (f : ℕ)
  | release (f : ℕ)
  | pread (f : ℕ)
  | delete
  | closeRelease
  deriving DecidableEq, Repr

namespace CallPC

def reads : CallPC → Bool
  | .loadOrStore _ | .release _ | .pread _ => true
  | .delete | .closeRelease => false

/-- The reference that the call has to give up, or to leave to the set. -/
def refs : CallPC → ℕ
  | .loadOrStore _ | .release _ => 1
  | _ => 0

/-- What a call relies on: a reader on the file that it has got, one that has given up its
reference or is about to on the reference of the set too, and `CloseFile` on its own `Delete`. -/
def Relies (entry : Option (Counted ℕ)) (acquired : Bool) : CallPC → Prop
  | .loadOrStore f => ∃ n, entry = some ⟨f, n⟩
  | .release f | .pread f => acquired = true ∧ ∃ n, entry = some ⟨f, n⟩
  | .delete => True
  | .closeRelease => acquired = false

def weight : Option CallPC → ℕ
  | none => 0
  | some pc => pc.refs

variable {entry : Option (Counted ℕ)} {acquired : Bool} {pc : CallPC}

theorem Relies.recount {f : ℕ} {n : ℤ} (h : pc.Relies (some ⟨f, n⟩) acquired) (m : ℤ) :
    pc.Relies (some ⟨f, m⟩) acquired := by
  have value : ∀ {f' : ℕ}, (∃ k, some (⟨f, n⟩ : Counted ℕ) = some ⟨f', k⟩) →
      ∃ k, some (⟨f, m⟩ : Counted ℕ) = some ⟨f', k⟩ := by
    rintro f' ⟨k, eq⟩
    cases eq
    exact ⟨m, rfl⟩
  cases pc with
  | loadOrStore => exact value h
  | release | pread => exact ⟨h.1, value h.2⟩
  | delete | closeRelease => exact h

theorem Relies.stored (h : pc.Relies entry acquired) (reading : pc.reads = true) :
    pc.Relies entry true := by
  cases pc with
  | loadOrStore => exact h
  | release | pread => exact ⟨rfl, h.2⟩
  | delete | closeRelease => cases reading

theorem relies_of_closing (closing : pc.reads = false) (entry : Option (Counted ℕ)) :
    pc.Relies entry false := by
  cases pc with
  | loadOrStore | release | pread => cases closing
  | delete => trivial
  | closeRelease => rfl

theorem refs_of_closing (closing : pc.reads = false) : pc.refs = 0 := by
  cases pc with
  | loadOrStore | release | pread => cases closing
  | delete | closeRelease => rfl

end CallPC

structure Reader (γ : Type) where
  cache : FileCache
  acquired : GoString → Bool
  calls : γ → Option (GoString × CallPC)

/-- `ok` is the outcome of the system calls of `Acquire`. -/
inductive ReaderAction (γ : Type) where
  | readAt (g : γ) (filePath : GoString) (ok : Bool)
  | closeFile (g : γ) (filePath : GoString)
  | next (g : γ)
  deriving DecidableEq, Repr

variable {γ : Type}

namespace Reader

def start (baseDir : GoString) : Reader γ := ⟨.new baseDir, fun _ => false, fun _ => none⟩

def onPath (p : GoString) (call : Option (GoString × CallPC)) : Option CallPC :=
  call.bind fun call => if call.1 = p then some call.2 else none

def view (calls : γ → Option (GoString × CallPC)) (p : GoString) (g : γ) : Option CallPC :=
  onPath p (calls g)

variable [DecidableEq γ]

def next (s : Reader γ) (g : γ) (p : GoString) : CallPC → Reader γ
  | .loadOrStore f =>
    if s.acquired p then { s with calls := update s.calls g (some (p, .release f)) }
    else
      { s with
        acquired := update s.acquired p true
        calls := update s.calls g (some (p, .pread f)) }
  | .release f =>
    { s with cache := s.cache.release p, calls := update s.calls g (some (p, .pread f)) }
  | .pread _ => { s with calls := update s.calls g none }
  | .delete =>
    { s with
      acquired := update s.acquired p false
      calls := update s.calls g (some (p, .closeRelease)) }
  | .closeRelease => { s with cache := s.cache.release p, calls := update s.calls g none }

variable [Fintype γ]

def step (s : Reader γ) : ReaderAction γ → Option (Reader γ)
  | .readAt g p ok =>
    if s.calls g = none ∧ ∀ j, ∀ pc ∈ view s.calls p j, pc.reads = true then
      match s.cache.acquire p ok with
      | (some f, cache) =>
        some { s with cache := cache, calls := update s.calls g (some (p, .loadOrStore f)) }
      | (none, cache) => some { s with cache := cache }
    else none
  | .closeFile g p =>
    if s.calls g = none ∧ ∀ j, ∀ pc ∈ view s.calls p j, pc.reads = false then
      some { s with calls := update s.calls g (some (p, .delete)) }
    else none
  | .next g => (s.calls g).map fun call => s.next g call.1 call.2

end Reader

/-- The entry of a path against the set and the calls on it. Behind a `Delete` the reference of
the set stays until the first `Release`. -/
def EntryKept (entry : Option (Counted ℕ)) (acquired : Bool) (refs : ℕ) (closing : Prop) : Prop :=
  match entry with
  | none => acquired = false ∧ refs = 0
  | some e => (e.count = acquired.toNat + refs ∧ 1 ≤ acquired.toNat + refs) ∨
      (e.count = 1 ∧ acquired = false ∧ refs = 0 ∧ closing)

theorem EntryKept.imp {entry : Option (Counted ℕ)} {acquired : Bool} {refs : ℕ}
    {closing closing' : Prop} (h : EntryKept entry acquired refs closing)
    (more : closing → closing') : EntryKept entry acquired refs closing' := by
  cases entry with
  | none => exact h
  | some e =>
    rcases h with count | ⟨count, unset, none, last⟩
    · exact .inl count
    · exact .inr ⟨count, unset, none, more last⟩

structure PathSound [Fintype γ] (entry : Option (Counted ℕ)) (acquired : Bool)
    (calls : γ → Option CallPC) : Prop where
  counted : EntryKept entry acquired (∑ g, CallPC.weight (calls g))
    (∃ g, calls g = some .closeRelease)
  apart : ∀ g pc j pc', calls g = some pc → calls j = some pc' → pc.reads = pc'.reads
  relies : ∀ g pc, calls g = some pc → pc.Relies entry acquired

namespace PathSound

variable [DecidableEq γ] [Fintype γ] {entry entry' : Option (Counted ℕ)} {acquired acquired' : Bool}
variable {calls : γ → Option CallPC} {g : γ} {f : ℕ} {pc : CallPC}

theorem sum_weight {x : Option CallPC} {a b : ℕ} (old : CallPC.weight (calls g) = a)
    (new : CallPC.weight x = b) :
    ∑ j, CallPC.weight (update calls g x j) + a = ∑ j, CallPC.weight (calls j) + b := by
  rw [← old, ← new]
  exact sum_update_add CallPC.weight calls g x

theorem replace (h : PathSound entry acquired calls) {x : Option CallPC}
    (counted : EntryKept entry' acquired' (∑ j, CallPC.weight (update calls g x j))
      (∃ j, update calls g x j = some .closeRelease))
    (apart : ∀ pc, x = some pc → ∀ j pc', calls j = some pc' → j ≠ g → pc.reads = pc'.reads)
    (self : ∀ pc, x = some pc → pc.Relies entry' acquired')
    (others : ∀ j pc, calls j = some pc → j ≠ g → pc.Relies entry' acquired') :
    PathSound entry' acquired' (update calls g x) := by
  refine ⟨counted, fun i pc j pc' hi hj => ?_, fun j pc hj => ?_⟩
  · by_cases ig : i = g <;> by_cases jg : j = g
    · rw [ig, update_self] at hi
      rw [jg, update_self, hi] at hj
      cases hj
      rfl
    · rw [ig, update_self] at hi
      rw [update_of_ne jg] at hj
      exact apart pc hi j pc' hj jg
    · rw [update_of_ne ig] at hi
      rw [jg, update_self] at hj
      exact (apart pc' hj i pc hi ig).symm
    · rw [update_of_ne ig] at hi
      rw [update_of_ne jg] at hj
      exact h.apart i pc j pc' hi hj
  · by_cases jg : j = g
    · rw [jg, update_self] at hj
      exact self pc hj
    · rw [update_of_ne jg] at hj
      exact others j pc hj jg

omit [DecidableEq γ] in
theorem counted_reading (h : PathSound entry acquired calls) (call : calls g = some pc)
    (reading : pc.reads = true) : ∀ e, entry = some e →
      e.count = acquired.toNat + ∑ j, CallPC.weight (calls j) := by
  rintro e rfl
  rcases h.counted with ⟨count, -⟩ | ⟨-, -, -, j, closing⟩
  · exact count
  · have same := h.apart g pc j _ call closing
    rw [reading] at same
    cases same

omit [DecidableEq γ] in
theorem sum_closing (h : PathSound entry acquired calls) (call : calls g = some pc)
    (closing : pc.reads = false) : ∑ j, CallPC.weight (calls j) = 0 := by
  refine Finset.sum_eq_zero fun j _ => ?_
  cases hj : calls j with
  | none => rfl
  | some pc' =>
    have same := h.apart j pc' g pc hj call
    rw [closing] at same
    exact CallPC.refs_of_closing same

theorem retain {e : Counted ℕ} (h : PathSound (some e) acquired calls) (idle : calls g = none)
    (reading : ∀ j pc, calls j = some pc → pc.reads = true) :
    PathSound (some { e with count := e.count + 1 }) acquired
      (update calls g (some (.loadOrStore e.value))) := by
  have total := @sum_weight _ _ _ calls g (some (.loadOrStore e.value)) 0 1 (by rw [idle]; rfl) rfl
  refine h.replace (.inl ?_) ?_ ?_ fun j pc hj _ => (h.relies j pc hj).recount _
  · rcases h.counted with ⟨count, -⟩ | ⟨-, -, -, j, closing⟩
    · simp only [count]
      omega
    · cases reading j _ closing
  · rintro pc ⟨⟩ j pc' hj -
    exact (reading j pc' hj).symm
  · rintro pc ⟨⟩
    exact ⟨_, rfl⟩

theorem openFile (h : PathSound none acquired calls) (idle : calls g = none)
    (reading : ∀ j pc, calls j = some pc → pc.reads = true) (f : ℕ) :
    PathSound (some ⟨f, 1⟩) acquired (update calls g (some (.loadOrStore f))) := by
  have total := @sum_weight _ _ _ calls g (some (.loadOrStore f)) 0 1 (by rw [idle]; rfl) rfl
  obtain ⟨unset, none⟩ := h.counted
  refine h.replace (.inl ?_) ?_ ?_ fun j pc hj _ => ?_
  · simp only [unset, Bool.toNat_false]
    omega
  · rintro pc ⟨⟩ j pc' hj -
    exact (reading j pc' hj).symm
  · rintro pc ⟨⟩
    exact ⟨_, rfl⟩
  · have relies := h.relies j pc hj
    have reads := reading j pc hj
    cases pc with
    | loadOrStore =>
      obtain ⟨n, eq⟩ := relies
      cases eq
    | release | pread =>
      obtain ⟨-, n, eq⟩ := relies
      cases eq
    | delete | closeRelease => cases reads

theorem read {n m : ℤ} (h : PathSound (some ⟨f, n⟩) acquired calls) {pc pc' : CallPC}
    (call : calls g = some pc) (reading : pc.reads = true) (reading' : pc'.reads = true)
    (self : pc'.Relies (some ⟨f, m⟩) true)
    (count : n - acquired.toNat + pc'.refs = m - 1 + pc.refs) :
    PathSound (some ⟨f, m⟩) true (update calls g (some pc')) := by
  have total := @sum_weight _ _ _ calls g (some pc') pc.refs pc'.refs (by rw [call]; rfl) rfl
  have before : n = _ := h.counted_reading call reading _ rfl
  refine h.replace (.inl ?_) ?_ ?_ fun j pc' hj _ => ?_
  · simp only [Bool.toNat_true]
    omega
  · rintro _ ⟨⟩ j pc' hj -
    rw [reading', ← reading]
    exact h.apart g pc j pc' call hj
  · rintro _ ⟨⟩
    exact self
  · have reads := h.apart g pc j pc' call hj
    rw [reading] at reads
    exact ((h.relies j pc' hj).recount m).stored reads.symm

theorem load (h : PathSound entry true calls) (call : calls g = some (.loadOrStore f)) :
    PathSound entry true (update calls g (some (.release f))) := by
  obtain ⟨n, rfl⟩ := h.relies g _ call
  exact h.read call rfl rfl ⟨rfl, n, rfl⟩ rfl

theorem store (h : PathSound entry false calls) (call : calls g = some (.loadOrStore f)) :
    PathSound entry true (update calls g (some (.pread f))) := by
  obtain ⟨n, rfl⟩ := h.relies g _ call
  refine h.read call rfl rfl ⟨rfl, n, rfl⟩ ?_
  simp [CallPC.refs]

theorem release (h : PathSound entry acquired calls) (call : calls g = some (.release f)) :
    PathSound (dropped entry) acquired (update calls g (some (.pread f))) := by
  obtain ⟨stored, n, rfl⟩ := h.relies g _ call
  have count : n = _ := h.counted_reading call rfl _ rfl
  have own : 1 ≤ ∑ j, CallPC.weight (calls j) := by
    have part := le_sum CallPC.weight calls g
    rw [call] at part
    exact part
  have more : ¬ n - 1 ≤ 0 := by
    rw [count, stored, Bool.toNat_true]
    omega
  rw [dropped, Option.bind_some, if_neg more, stored]
  refine h.read call rfl rfl ⟨rfl, n - 1, rfl⟩ ?_
  simp [CallPC.refs, stored]

theorem finish (h : PathSound entry acquired calls) (call : calls g = some (.pread f)) :
    PathSound entry acquired (update calls g none) := by
  obtain ⟨stored, n, rfl⟩ := h.relies g _ call
  have total := @sum_weight _ _ _ calls g none 0 0 (by rw [call]; rfl) rfl
  have count : n = _ := h.counted_reading call rfl _ rfl
  refine h.replace (.inl ?_) nofun nofun fun j pc hj _ => h.relies j pc hj
  simp only [stored, Bool.toNat_true] at count ⊢
  omega

theorem closeFile (h : PathSound entry acquired calls) (idle : calls g = none)
    (closing : ∀ j pc, calls j = some pc → pc.reads = false) :
    PathSound entry acquired (update calls g (some .delete)) := by
  have total := @sum_weight _ _ _ calls g (some .delete) 0 0 (by rw [idle]; rfl) rfl
  refine h.replace ?_ ?_ ?_ fun j pc hj _ => h.relies j pc hj
  · rw [Nat.add_right_cancel total]
    refine h.counted.imp fun ⟨j, hj⟩ => ⟨j, ?_⟩
    rw [update_of_ne fun same => by rw [same, idle] at hj; cases hj]
    exact hj
  · rintro _ ⟨⟩ j pc' hj -
    exact (closing j pc' hj).symm
  · rintro _ ⟨⟩
    trivial

theorem delete (h : PathSound entry acquired calls) (call : calls g = some .delete) :
    PathSound entry false (update calls g (some .closeRelease)) := by
  have unused := h.sum_closing call rfl
  have total := @sum_weight _ _ _ calls g (some .closeRelease) 0 0 (by rw [call]; rfl) rfl
  have others : ∀ j pc, calls j = some pc → pc.reads = false := fun j pc hj =>
    h.apart j pc g _ hj call
  refine h.replace ?_ ?_ ?_ fun j pc hj _ => CallPC.relies_of_closing (others j pc hj) _
  · rw [Nat.add_right_cancel total, unused]
    have counted := h.counted
    rw [unused] at counted
    cases entry with
    | none => exact ⟨rfl, rfl⟩
    | some e =>
      have one : e.count = 1 := by
        rcases counted with ⟨count, pos⟩ | ⟨count, -⟩
        · have := acquired.toNat_le
          omega
        · exact count
      exact .inr ⟨one, rfl, rfl, g, update_self ..⟩
  · rintro _ ⟨⟩ j pc' hj -
    exact (others j pc' hj).symm
  · rintro _ ⟨⟩
    rfl

theorem closeRelease (h : PathSound entry acquired calls) (call : calls g = some .closeRelease) :
    PathSound (dropped entry) acquired (update calls g none) := by
  have unused := h.sum_closing call rfl
  have unset : acquired = false := h.relies g _ call
  have total := @sum_weight _ _ _ calls g none 0 0 (by rw [call]; rfl) rfl
  have gone : dropped entry = none := by
    have counted := h.counted
    rw [unused, unset] at counted
    cases entry with
    | none => rfl
    | some e =>
      rcases counted with ⟨-, pos⟩ | ⟨count, -⟩
      · cases pos
      · rw [dropped, Option.bind_some, if_pos (by omega)]
  rw [gone, unset]
  refine h.replace ⟨rfl, ?_⟩ (by simp) (by simp) fun j pc hj _ =>
    CallPC.relies_of_closing (h.apart j pc g _ hj call) _
  rw [Nat.add_right_cancel total, unused]

omit [DecidableEq γ] in
theorem quiet (h : PathSound entry acquired calls) (none : ∀ g, calls g = none) :
    (acquired = true → ∃ f, entry = some ⟨f, 1⟩) ∧ (acquired = false → entry = .none) := by
  have unused : ∑ g, CallPC.weight (calls g) = 0 :=
    Finset.sum_eq_zero fun g _ => by rw [none g]; rfl
  have counted := h.counted
  rw [unused] at counted
  cases entry with
  | none => exact ⟨fun set => absurd (set.symm.trans counted.1) nofun, fun _ => rfl⟩
  | some e =>
    rcases counted with ⟨count, pos⟩ | ⟨-, -, -, g, closing⟩
    · refine ⟨fun set => ⟨e.value, ?_⟩, fun unset => ?_⟩
      · rw [set] at count
        rw [show e = ⟨e.value, e.count⟩ from rfl, count]
        rfl
      · rw [unset] at pos
        cases pos
    · rw [none g] at closing
      cases closing

end PathSound

namespace Reader

section Paths

variable {p q : GoString} {pc : CallPC}

theorem onPath_self (p : GoString) (pc : CallPC) : onPath p (some (p, pc)) = some pc := if_pos rfl

theorem onPath_of_ne (other : q ≠ p) (pc : CallPC) : onPath q (some (p, pc)) = none :=
  if_neg other.symm

theorem view_eq_some {calls : γ → Option (GoString × CallPC)} {g : γ} :
    view calls p g = some pc ↔ calls g = some (p, pc) := by
  unfold view onPath
  rw [Option.bind_eq_some_iff]
  constructor
  · rintro ⟨⟨q, pc'⟩, call, h⟩
    split_ifs at h with same
    cases h
    rw [call, ← same]
  · intro call
    exact ⟨_, call, if_pos rfl⟩

theorem view_update [DecidableEq γ] (calls : γ → Option (GoString × CallPC)) (g : γ)
    (x : Option (GoString × CallPC)) (p : GoString) :
    view (update calls g x) p = update (view calls p) g (onPath p x) :=
  comp_update (onPath p) calls g x

end Paths

variable [DecidableEq γ] [Fintype γ] {s s' : Reader γ} {g : γ} {p : GoString} {pc : CallPC}

def Sound (s : Reader γ) : Prop :=
  ∀ p, PathSound (s.cache.files p) (s.acquired p) (view s.calls p)

theorem Sound.local (h : s.Sound) {x : Option (GoString × CallPC)} {x' : Option CallPC}
    {entry : Option (Counted ℕ)} {acquired : Bool}
    (self : PathSound entry acquired (update (view s.calls p) g x'))
    (calls : s'.calls = update s.calls g x) (here : onPath p x = x')
    (files : s'.cache.files p = entry) (set : s'.acquired p = acquired)
    (others : ∀ q, q ≠ p → s'.cache.files q = s.cache.files q ∧ s'.acquired q = s.acquired q ∧
      onPath q (s.calls g) = none ∧ onPath q x = none) : s'.Sound := by
  intro q
  rw [calls, view_update]
  by_cases hq : q = p
  · rw [hq, files, set, here]
    exact self
  · obtain ⟨files, acquired, away, away'⟩ := others q hq
    rw [files, acquired, away', update_eq_self_iff.mpr away.symm]
    exact h q

omit [DecidableEq γ] in
theorem start_sound (baseDir : GoString) : (start baseDir : Reader γ).Sound := fun _ =>
  ⟨⟨rfl, Finset.sum_const_zero⟩, nofun, nofun⟩

theorem Sound.next (h : s.Sound) (call : s.calls g = some (p, pc)) : (s.next g p pc).Sound := by
  have here := h p
  have view := view_eq_some.mpr call
  have away : ∀ q, q ≠ p → onPath q (s.calls g) = none := fun q hq => by
    rw [call]
    exact onPath_of_ne hq pc
  cases pc with
  | loadOrStore f =>
    cases acquired : s.acquired p with
    | true =>
      simp only [Reader.next, acquired, if_true]
      rw [acquired] at here
      exact h.local (here.load view) rfl (onPath_self ..) rfl acquired
        fun q hq => ⟨rfl, rfl, away q hq, onPath_of_ne hq _⟩
    | false =>
      simp only [Reader.next, acquired, Bool.false_eq_true, if_false]
      rw [acquired] at here
      exact h.local (here.store view) rfl (onPath_self ..) rfl (update_self ..)
        fun q hq => ⟨rfl, update_of_ne hq .., away q hq, onPath_of_ne hq _⟩
  | release f =>
    exact h.local (here.release view) rfl (onPath_self ..) (update_self ..) rfl
      fun q hq => ⟨update_of_ne hq .., rfl, away q hq, onPath_of_ne hq _⟩
  | pread f =>
    exact h.local (here.finish view) rfl rfl rfl rfl fun q hq => ⟨rfl, rfl, away q hq, rfl⟩
  | delete =>
    exact h.local (here.delete view) rfl (onPath_self ..) rfl (update_self ..)
      fun q hq => ⟨rfl, update_of_ne hq .., away q hq, onPath_of_ne hq _⟩
  | closeRelease =>
    exact h.local (here.closeRelease view) rfl rfl (update_self ..) rfl
      fun q hq => ⟨update_of_ne hq .., rfl, away q hq, rfl⟩

theorem Sound.step (h : s.Sound) {a : ReaderAction γ} (hs : s.step a = some s') : s'.Sound := by
  cases a with
  | readAt g p ok =>
    simp only [Reader.step] at hs
    split_ifs at hs with free
    obtain ⟨idle, reading⟩ := free
    have here := h p
    have away : ∀ q, onPath q (s.calls g) = none := fun q => by rw [idle]; rfl
    have view : view s.calls p g = none := away p
    rcases s.cache.acquire_cases p ok with failed | ⟨e, entry, again⟩ | ⟨absent, fresh⟩
    · rw [failed] at hs
      cases hs
      exact h
    · rw [again] at hs
      cases hs
      rw [entry] at here
      refine h.local (here.retain view reading) rfl (onPath_self ..) ?_ rfl
        fun q hq => ⟨update_of_ne hq .., rfl, away q, onPath_of_ne hq _⟩
      simp [FileCache.retain, RefTable.retain, entry]
    · rw [fresh] at hs
      cases hs
      rw [absent] at here
      exact h.local (here.openFile view reading _) rfl (onPath_self ..) (update_self ..) rfl
        fun q hq => ⟨update_of_ne hq .., rfl, away q, onPath_of_ne hq _⟩
  | closeFile g p =>
    simp only [Reader.step] at hs
    split_ifs at hs with free
    obtain ⟨idle, closing⟩ := free
    cases hs
    have away : ∀ q, onPath q (s.calls g) = none := fun q => by rw [idle]; rfl
    exact h.local ((h p).closeFile (away p) closing) rfl (onPath_self ..) rfl rfl
      fun q hq => ⟨rfl, rfl, away q, onPath_of_ne hq _⟩
  | next g =>
    obtain ⟨⟨p, pc⟩, call, rfl⟩ := Option.map_eq_some_iff.mp hs
    exact h.next call

theorem reach_sound {baseDir : GoString} (h : Reach step (start baseDir) s) : s.Sound :=
  h.invariant (start_sound baseDir) fun _ _ _ _ hs next => hs.step next

/-- A pread is made on an open file, no path is open twice, and a path that nobody is at has an
entry exactly if it is in the set, with the reference of the set alone. -/
theorem reader_safe (baseDir : GoString) (s : Reader γ) (reached : Reach step (start baseDir) s) :
    (∀ g p f, s.calls g = some (p, .pread f) → s.cache.handles f = some p) ∧
    (∀ p f f', s.cache.handles f = some p → s.cache.handles f' = some p → f = f') ∧
    ∀ p, (∀ g pc, s.calls g ≠ some (p, pc)) →
      (s.acquired p = true → ∃ f, s.cache.files p = some ⟨f, 1⟩) ∧
      (s.acquired p = false → s.cache.files p = none) := by
  have sound := reach_sound reached
  refine ⟨fun g p f call => ?_, fun p f f' => s.cache.opened.unique, fun p quiet => ?_⟩
  · obtain ⟨-, entry⟩ := (sound p).relies g _ (view_eq_some.mpr call)
    exact (s.cache.opened f p).mpr entry
  · have none : ∀ g, view s.calls p g = none := fun g => by
      cases hv : view s.calls p g with
      | none => rfl
      | some pc => exact absurd (view_eq_some.mp hv) (quiet g pc)
    exact (sound p).quiet none

/-- Two goroutines read the file before either has put its path into the set. -/
def sampleReads : List (ReaderAction (Fin 2)) :=
  [.readAt 0 (goString "a") true, .readAt 1 (goString "a") true, .next 1, .next 0, .next 0]

theorem reader_safe_shared : ∃ s : Reader (Fin 2),
    s.calls 0 = some (goString "a", .pread 0) ∧ s.calls 1 = some (goString "a", .pread 0) ∧
    s.cache.handles 0 = some (goString "a") := by
  have run : ((exec step (start (goString "/mnt")) sampleReads).any fun s =>
      s.calls 0 = some (goString "a", .pread 0) ∧ s.calls 1 = some (goString "a", .pread 0)) =
      true := by
    decide +kernel
  obtain ⟨s, reached, hs⟩ := Reach.of_exec_any run
  obtain ⟨first, second⟩ := of_decide_eq_true hs
  exact ⟨s, first, second, (reader_safe _ s reached).1 0 _ 0 first⟩

end Reader

end CephVolsync.CephFs
