import Mathlib

/-! Reference-counted tables. An entry is made with one reference, taken again by `retain`
and given up by `release`, which removes it with the last one. `held` is the number of
references that the users of a key believe to have; `excess` is the number of releases that
nobody had a reference for. The balance of the three is what the operations keep. -/

namespace RefTable

open Function

structure Counted (V : Type*) where
  value : V
  count : ℤ
  deriving DecidableEq, Repr

variable {K V : Type*} [DecidableEq K]

def insert (t : K → Option (Counted V)) (k : K) (v : V) : K → Option (Counted V) :=
  update t k (some ⟨v, 1⟩)

def retain (t : K → Option (Counted V)) (k : K) : K → Option (Counted V) :=
  update t k ((t k).map fun r => { r with count := r.count + 1 })

def dropped (entry : Option (Counted V)) : Option (Counted V) :=
  entry.bind fun r => if r.count - 1 ≤ 0 then none else some { r with count := r.count - 1 }

def release (t : K → Option (Counted V)) (k : K) : K → Option (Counted V) :=
  update t k (dropped (t k))

def released (t : K → Option (Counted V)) (k : K) : Option V :=
  (t k).bind fun r => if r.count - 1 ≤ 0 then some r.value else none

def BalancedAt (entry : Option (Counted V)) (held excess : ℕ) : Prop :=
  match entry with
  | none => held ≤ excess
  | some r => 1 ≤ r.count ∧ r.count ≤ held ∧ (held : ℤ) ≤ r.count + excess

def Balanced (t : K → Option (Counted V)) (held excess : K → ℕ) : Prop :=
  ∀ k, BalancedAt (t k) (held k) (excess k)

theorem Balanced.at_update {t : K → Option (Counted V)} {held held' excess excess' : K → ℕ}
    (h : Balanced t held excess) {k : K} {entry : Option (Counted V)}
    (others : ∀ q, q ≠ k → held' q = held q ∧ excess' q = excess q)
    (self : BalancedAt entry (held' k) (excess' k)) :
    Balanced (update t k entry) held' excess' := by
  intro q
  by_cases hq : q = k
  · rw [hq, update_self]
    exact self
  · rw [update_of_ne hq, (others q hq).1, (others q hq).2]
    exact h q

variable {t : K → Option (Counted V)} {held held' excess excess' : K → ℕ} {k : K}

theorem Balanced.insert (h : Balanced t held excess) (absent : t k = none) (settled : excess k = 0)
    (gain : ∀ q, held' q = held q + if q = k then 1 else 0) (v : V) :
    Balanced (RefTable.insert t k v) held' excess := by
  refine h.at_update (fun q hq => ⟨by rw [gain, if_neg hq, Nat.add_zero], rfl⟩) ?_
  have before := h k
  rw [absent, BalancedAt] at before
  simp only [BalancedAt, gain, if_true]
  omega

theorem Balanced.retain (h : Balanced t held excess) {r : Counted V} (present : t k = some r)
    (gain : ∀ q, held' q = held q + if q = k then 1 else 0) :
    Balanced (RefTable.retain t k) held' excess := by
  refine h.at_update (fun q hq => ⟨by rw [gain, if_neg hq, Nat.add_zero], rfl⟩) ?_
  have before := h k
  rw [present, BalancedAt] at before
  simp only [present, Option.map_some, BalancedAt, gain, if_true]
  omega

omit [DecidableEq K] in
theorem BalancedAt.dropped {entry : Option (Counted V)} {n n' m m' : ℕ} (h : BalancedAt entry n m)
    (shift : n + m' = n' + m + 1) (few : n ≤ n' + 1) : BalancedAt (dropped entry) n' m' := by
  cases entry with
  | none =>
    simp only [BalancedAt, RefTable.dropped, Option.bind_none] at h ⊢
    omega
  | some r =>
    simp only [BalancedAt] at h
    simp only [RefTable.dropped, Option.bind_some]
    split_ifs with last
    · simp only [BalancedAt]
      omega
    · simp only [BalancedAt]
      omega

theorem Balanced.release (h : Balanced t held excess)
    (loss : ∀ q, held q = held' q + if q = k then 1 else 0) :
    Balanced (RefTable.release t k) held' excess := by
  refine h.at_update (fun q hq => ⟨by rw [loss, if_neg hq, Nat.add_zero], rfl⟩) ?_
  have one := loss k
  rw [if_pos rfl] at one
  exact (h k).dropped (by omega) (by omega)

theorem Balanced.overRelease (h : Balanced t held excess)
    (more : ∀ q, excess' q = excess q + if q = k then 1 else 0) :
    Balanced (RefTable.release t k) held excess' := by
  refine h.at_update (fun q hq => ⟨rfl, by rw [more, if_neg hq, Nat.add_zero]⟩) ?_
  have one := more k
  rw [if_pos rfl] at one
  exact (h k).dropped (by omega) (by omega)

theorem Balanced.forget (h : Balanced t held excess) (absent : t k = none)
    (loss : ∀ q, held q = held' q + if q = k then 1 else 0) : Balanced t held' excess := by
  rw [← update_eq_self k t]
  refine h.at_update (fun q hq => ⟨by rw [loss, if_neg hq, Nat.add_zero], rfl⟩) ?_
  have before := h k
  have one := loss k
  rw [absent, BalancedAt] at before
  rw [if_pos rfl] at one
  simp only [absent, BalancedAt]
  omega

omit [DecidableEq K] in
theorem Balanced.present (h : Balanced t held excess) (more : excess k < held k) :
    ∃ r, t k = some r := by
  cases hk : t k with
  | none =>
    have balance := h k
    rw [hk, BalancedAt] at balance
    omega
  | some r => exact ⟨r, rfl⟩

omit [DecidableEq K] in
theorem Balanced.absent (h : Balanced t held excess) (unused : held k = 0) : t k = none := by
  cases hk : t k with
  | none => rfl
  | some r =>
    have balance := h k
    rw [hk, BalancedAt, unused] at balance
    omega

omit [DecidableEq K] in
theorem dropped_value {entry : Option (Counted V)} {r : Counted V} (h : dropped entry = some r) :
    ∃ n, entry = some ⟨r.value, n⟩ := by
  obtain ⟨e, rfl, he⟩ := Option.bind_eq_some_iff.mp h
  split_ifs at he
  cases he
  exact ⟨e.count, rfl⟩

theorem release_cases (t : K → Option (Counted V)) (k : K) :
    (release t k = t ∧ released t k = none) ∨
    (∃ r, t k = some r ∧ release t k = update t k none ∧ released t k = some r.value) ∨
    ∃ r, t k = some r ∧ release t k = update t k (some { r with count := r.count - 1 }) ∧
      released t k = none := by
  unfold release released dropped
  cases entry : t k with
  | none => exact .inl ⟨by rw [Option.bind_none, ← entry, update_eq_self], rfl⟩
  | some r =>
    by_cases last : r.count - 1 ≤ 0
    · exact .inr (.inl ⟨r, rfl, by rw [Option.bind_some, if_pos last], if_pos last⟩)
    · exact .inr (.inr ⟨r, rfl, by rw [Option.bind_some, if_neg last], if_neg last⟩)

/-- What one user of the table does in a step, with the references it has before and after
it, and the releases that nobody had a reference for. -/
inductive Move (t : K → Option (Counted V)) (r excess : K → ℕ) :
    (K → Option (Counted V)) → (K → ℕ) → (K → ℕ) → Prop
  | stay {r' : K → ℕ} : (∀ q, r' q = r q) → Move t r excess t r' excess
  | insert {k : K} {r' : K → ℕ} (v : V) : t k = none → excess k = 0 →
      (∀ q, r' q = r q + if q = k then 1 else 0) → Move t r excess (insert t k v) r' excess
  | retain {k : K} {c : Counted V} {r' : K → ℕ} : t k = some c →
      (∀ q, r' q = r q + if q = k then 1 else 0) → Move t r excess (retain t k) r' excess
  | release {k : K} {r' : K → ℕ} : (∀ q, r q = r' q + if q = k then 1 else 0) →
      Move t r excess (release t k) r' excess
  | overRelease {k : K} {r' excess' : K → ℕ} : (∀ q, r' q = r q) →
      (∀ q, excess' q = excess q + if q = k then 1 else 0) →
      Move t r excess (release t k) r' excess'
  | forget {k : K} {r' : K → ℕ} : t k = none → (∀ q, r q = r' q + if q = k then 1 else 0) →
      Move t r excess t r' excess

theorem Balanced.move {t' : K → Option (Counted V)} {r r' : K → ℕ} (h : Balanced t held excess)
    (move : Move t r excess t' r' excess') (total : ∀ q, held' q + r q = held q + r' q) :
    Balanced t' held' excess' := by
  cases move with
  | stay same =>
    have eq : held' = held := funext fun q => by
      have := total q
      have := same q
      omega
    rw [eq]
    exact h
  | insert v absent settled gain =>
    refine h.insert absent settled (fun q => ?_) v
    have := total q
    have := gain q
    omega
  | retain present gain =>
    refine h.retain present fun q => ?_
    have := total q
    have := gain q
    omega
  | release loss =>
    refine h.release fun q => ?_
    have := total q
    have := loss q
    omega
  | overRelease same more =>
    have eq : held' = held := funext fun q => by
      have := total q
      have := same q
      omega
    rw [eq]
    exact h.overRelease more
  | forget absent loss =>
    refine h.forget absent fun q => ?_
    have := total q
    have := loss q
    omega

theorem Move.value {t' : K → Option (Counted V)} {r r' : K → ℕ}
    (move : Move t r excess t' r' excess') {c c' : Counted V} (before : t k = some c)
    (after : t' k = some c') : c'.value = c.value := by
  have same : t k = some c' → c'.value = c.value := fun eq => by
    rw [before] at eq
    cases eq
    rfl
  have released : ∀ k₀, RefTable.release t k₀ k = some c' → c'.value = c.value := by
    intro k₀ h
    rw [RefTable.release] at h
    by_cases hk : k = k₀
    · rw [← hk, update_self, before] at h
      obtain ⟨n, eq⟩ := dropped_value h
      cases eq
      rfl
    · rw [update_of_ne hk] at h
      exact same h
  cases move with
  | stay | forget => exact same after
  | @insert k₀ r' v absent =>
    rw [RefTable.insert] at after
    by_cases hk : k = k₀
    · rw [← hk, before] at absent
      cases absent
    · rw [update_of_ne hk] at after
      exact same after
  | @retain k₀ e r' present =>
    rw [RefTable.retain] at after
    by_cases hk : k = k₀
    · rw [← hk, update_self, before] at after
      cases after
      rfl
    · rw [update_of_ne hk] at after
      exact same after
  | @release k₀ => exact released k₀ after
  | @overRelease k₀ => exact released k₀ after

section Index

variable {index : V → Option K}

def Indexed (t : K → Option (Counted V)) (index : V → Option K) : Prop :=
  ∀ v k, index v = some k ↔ ∃ n, t k = some ⟨v, n⟩

omit [DecidableEq K] in
theorem Indexed.unique (h : Indexed t index) {v w : V} (hv : index v = some k)
    (hw : index w = some k) : v = w := by
  obtain ⟨n, entry⟩ := (h v k).mp hv
  obtain ⟨m, entry'⟩ := (h w k).mp hw
  rw [entry] at entry'
  cases entry'
  rfl

theorem Indexed.recount (h : Indexed t index) {r : Counted V} (present : t k = some r) (n : ℤ) :
    Indexed (update t k (some { r with count := n })) index := by
  intro v q
  rw [h v q]
  by_cases hq : q = k
  · rw [hq, update_self, present]
    simp only [Option.some.injEq]
    constructor
    · rintro ⟨m, rfl⟩
      exact ⟨n, rfl⟩
    · rintro ⟨m, eq⟩
      cases eq
      exact ⟨r.count, rfl⟩
  · rw [update_of_ne hq]

theorem Indexed.retain (h : Indexed t index) (k : K) : Indexed (RefTable.retain t k) index := by
  rw [RefTable.retain]
  cases entry : t k with
  | none =>
    rw [Option.map_none, ← entry, update_eq_self]
    exact h
  | some r => exact h.recount entry _

variable [DecidableEq V]

theorem Indexed.insert (h : Indexed t index) (absent : t k = none) {v : V}
    (unused : index v = none) :
    Indexed (RefTable.insert t k v) (update index v (some k)) := by
  intro w q
  have old := h w q
  rw [RefTable.insert]
  by_cases hw : w = v <;> by_cases hq : q = k
  · simp [hw, hq]
  · rw [hw, unused] at old
    rw [hw, update_self, update_of_ne hq, ← old]
    simp [Ne.symm hq]
  · rw [hq, absent] at old
    rw [update_of_ne hw, hq, update_self, old]
    simp [Ne.symm hw]
  · rw [update_of_ne hw, update_of_ne hq, old]

theorem Indexed.remove (h : Indexed t index) {r : Counted V} (present : t k = some r) :
    Indexed (update t k none) (update index r.value none) := by
  intro w q
  have old := h w q
  have key : index r.value = some k := (h _ _).mpr ⟨r.count, present⟩
  by_cases hw : w = r.value <;> by_cases hq : q = k
  · simp [hw, hq]
  · rw [hw, key] at old
    rw [hw, update_self, update_of_ne hq, ← old]
    simp [Ne.symm hq]
  · rw [hq, present] at old
    rw [update_of_ne hw, hq, update_self, old]
    simp only [Option.some.injEq, reduceCtorEq, exists_false, iff_false, not_exists]
    rintro n rfl
    exact hw rfl
  · rw [update_of_ne hw, update_of_ne hq, old]

def unindex (index : V → Option K) : Option V → V → Option K
  | none => index
  | some v => update index v none

theorem Indexed.release (h : Indexed t index) (k : K) :
    Indexed (RefTable.release t k) (unindex index (released t k)) := by
  rcases release_cases t k with ⟨same, none⟩ | ⟨r, present, gone, value⟩ | ⟨r, present, less, none⟩
  · rw [same, none]
    exact h
  · rw [gone, value]
    exact h.remove present
  · rw [less, none]
    exact h.recount present _

end Index

end RefTable
