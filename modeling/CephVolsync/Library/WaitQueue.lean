import Mathlib

/-! Queues of blocked callers, each behind a channel of its own. A waker takes callers
from the front as long as the resource accepts their request, and closes their channels;
a caller leaves by observing its closed channel or by giving up. -/

namespace WaitQueue

open Function

/-- A blocked caller: what it asks for and the channel it sleeps on. -/
structure Waiter (κ γ : Type*) where
  key : κ
  ch : γ
  deriving DecidableEq, Repr

variable {κ γ α : Type*}

/-- Grant from the front while `fits` accepts; the result is the resource, the callers
still asleep and the channels closed on the way. -/
def wake (fits : α → κ → Option α) :
    α → List (Waiter κ γ) → α × List (Waiter κ γ) × List γ
  | a, [] => (a, [], [])
  | a, w :: rest =>
    match fits a w.key with
    | none => (a, w :: rest, [])
    | some a' =>
      let r := wake fits a' rest
      (r.1, r.2.1, w.ch :: r.2.2)

theorem wake_split (fits : α → κ → Option α) (a : α) (ws : List (Waiter κ γ)) :
    ∃ front, ws = front ++ (wake fits a ws).2.1 ∧ (wake fits a ws).2.2 = front.map (·.ch) ∧
      ∀ w ∈ front, ∃ b, fits b w.key ≠ none := by
  induction ws generalizing a with
  | nil => exact ⟨[], rfl, rfl, by simp⟩
  | cons w rest ih =>
    rw [wake]
    cases h : fits a w.key with
    | none => exact ⟨[], rfl, rfl, by simp⟩
    | some a' =>
      obtain ⟨front, hs, hc, hf⟩ := ih a'
      refine ⟨w :: front, by simpa using hs, by simp [hc], ?_⟩
      intro v hv
      rcases List.mem_cons.mp hv with rfl | hv
      · exact ⟨a, by simp [h]⟩
      · exact hf v hv

theorem wake_head (fits : α → κ → Option α) (a : α) (ws : List (Waiter κ γ)) {w : Waiter κ γ}
    {rest : List (Waiter κ γ)} (h : (wake fits a ws).2.1 = w :: rest) :
    fits (wake fits a ws).1 w.key = none := by
  induction ws generalizing a with
  | nil => simp [wake] at h
  | cons v ws ih =>
    rw [wake] at h ⊢
    cases hf : fits a v.key with
    | none =>
      simp only [hf, List.cons.injEq] at h ⊢
      exact h.1 ▸ hf
    | some a' =>
      simp only [hf] at h ⊢
      exact ih a' h

theorem wake_total [AddCommGroup α] (fits : α → α → Option α) (a : α)
    (pay : ∀ b k b', fits b k = some b' → b' = b + k) (ws : List (Waiter α γ)) :
    (wake fits a ws).1 + ((wake fits a ws).2.1.map (·.key)).sum = a + (ws.map (·.key)).sum := by
  induction ws generalizing a with
  | nil => rfl
  | cons w rest ih =>
    rw [wake]
    cases h : fits a w.key with
    | none => rfl
    | some a' =>
      simp only [List.map_cons, List.sum_cons]
      rw [ih, pay _ _ _ h, add_assoc]

theorem wake_count (fits : ℤ → κ → Option ℤ) (a : ℤ)
    (one : ∀ b k b', fits b k = some b' → b' = b + 1) (ws : List (Waiter κ γ)) :
    (wake fits a ws).1 = a + (wake fits a ws).2.2.length := by
  induction ws generalizing a with
  | nil => simp [wake]
  | cons w rest ih =>
    rw [wake]
    cases h : fits a w.key with
    | none => simp
    | some a' =>
      simp only [List.length_cons, Nat.cast_add, Nat.cast_one]
      rw [ih, one _ _ _ h]
      ring

theorem wake_invariant (fits : α → κ → Option α) {P : α → Prop}
    (keep : ∀ a k a', P a → fits a k = some a' → P a') {a : α} (start : P a)
    (ws : List (Waiter κ γ)) : P (wake fits a ws).1 := by
  induction ws generalizing a with
  | nil => exact start
  | cons w rest ih =>
    rw [wake]
    cases h : fits a w.key with
    | none => exact start
    | some a' => exact ih (keep a w.key a' start h)

theorem wake_map {β ι : Type*} {fits : α → κ → Option α} {fits' : β → ι → Option β} (f : α → β)
    (g : κ → ι) {P : α → Prop} {Q : κ → Prop}
    (same : ∀ a k, P a → Q k → fits' (f a) (g k) = (fits a k).map f)
    (keep : ∀ a k a', P a → Q k → fits a k = some a' → P a') {a : α} (start : P a)
    {ws : List (Waiter κ γ)} (keys : ∀ w ∈ ws, Q w.key) :
    wake fits' (f a) (ws.map fun w => ⟨g w.key, w.ch⟩) =
      (f (wake fits a ws).1, (wake fits a ws).2.1.map fun w => ⟨g w.key, w.ch⟩,
        (wake fits a ws).2.2) := by
  induction ws generalizing a with
  | nil => rfl
  | cons w rest ih =>
    have hw := keys w List.mem_cons_self
    rw [List.map_cons, wake, wake, same a w.key start hw]
    cases h : fits a w.key with
    | none => rfl
    | some a' =>
      simp only [Option.map_some]
      rw [ih (keep a w.key a' start hw h) fun v hv => keys v (List.mem_cons_of_mem _ hv)]

/-- The queue and the closed channels serve the callers that `want` something: every
channel occurs once, behind the caller it belongs to, and no caller is forgotten. -/
structure Serves (want : γ → Option κ) (waiting : List (Waiter κ γ)) (closed : List γ) : Prop where
  nodup : (waiting.map (·.ch) ++ closed).Nodup
  asleep : ∀ w ∈ waiting, want w.ch = some w.key
  woken : ∀ c ∈ closed, want c ≠ none
  present : ∀ c k, want c = some k → ⟨k, c⟩ ∈ waiting ∨ c ∈ closed

namespace Serves

variable {want : γ → Option κ} {waiting : List (Waiter κ γ)} {closed : List γ}

theorem empty : Serves (fun _ : γ => (none : Option κ)) [] [] :=
  ⟨by simp, by simp, by simp, by simp⟩

theorem idle {c : γ} (h : Serves want waiting closed) (hc : want c = none) :
    c ∉ waiting.map (·.ch) ∧ c ∉ closed := by
  refine ⟨fun hm => ?_, fun hm => h.woken c hm hc⟩
  obtain ⟨w, hw, rfl⟩ := List.mem_map.mp hm
  simp [h.asleep w hw] at hc

theorem enqueue [DecidableEq γ] (h : Serves want waiting closed) {c : γ} (hc : want c = none)
    (k : κ) (pre post : List (Waiter κ γ)) (hw : waiting = pre ++ post) :
    Serves (update want c (some k)) (pre ++ ⟨k, c⟩ :: post) closed := by
  obtain ⟨fresh, fresh'⟩ := h.idle hc
  subst hw
  refine ⟨?_, ?_, ?_, ?_⟩
  · have perm : ((pre ++ ⟨k, c⟩ :: post).map (·.ch) ++ closed).Perm
        (c :: ((pre ++ post).map (·.ch) ++ closed)) := by
      simp only [List.map_append, List.map_cons, List.append_assoc, List.cons_append]
      exact List.perm_middle
    refine (perm.nodup_iff).mpr (List.nodup_cons.mpr ⟨?_, h.nodup⟩)
    simp only [List.mem_append, not_or]
    exact ⟨by simpa using fresh, fresh'⟩
  · intro w hw
    have hw' : w = ⟨k, c⟩ ∨ w ∈ pre ++ post := by
      simp only [List.mem_append, List.mem_cons] at hw ⊢
      tauto
    rcases hw' with rfl | hw'
    · simp
    · have hne : w.ch ≠ c := fun e => fresh (e ▸ List.mem_map_of_mem hw')
      rw [update_of_ne hne, h.asleep w hw']
  · intro d hd
    have hne : d ≠ c := fun e => fresh' (e ▸ hd)
    rw [update_of_ne hne]
    exact h.woken d hd
  · intro d k' hd
    by_cases hdc : d = c
    · subst hdc
      rw [update_self, Option.some.injEq] at hd
      subst hd
      exact .inl (by simp)
    · rw [update_of_ne hdc] at hd
      rcases h.present d k' hd with hm | hm
      · left
        simp only [List.mem_append, List.mem_cons] at hm ⊢
        tauto
      · exact .inr hm

theorem wake (h : Serves want waiting closed) (fits : α → κ → Option α) (a : α) :
    Serves want (WaitQueue.wake fits a waiting).2.1
      (closed ++ (WaitQueue.wake fits a waiting).2.2) := by
  obtain ⟨front, hs, hc, -⟩ := wake_split fits a waiting
  generalize (WaitQueue.wake fits a waiting).2.1 = rest at hs ⊢
  rw [hc]
  subst hs
  refine ⟨?_, fun w hw => h.asleep w (by simp [hw]), ?_, ?_⟩
  · refine h.nodup.perm ?_
    rw [List.map_append, List.append_assoc]
    refine List.perm_append_comm.trans ?_
    rw [List.append_assoc]
  · intro c hc
    rcases List.mem_append.mp hc with hc | hc
    · exact h.woken c hc
    · obtain ⟨w, hw, rfl⟩ := List.mem_map.mp hc
      simp [h.asleep w (by simp [hw])]
  · intro c k hk
    rcases h.present c k hk with hm | hm
    · rcases List.mem_append.mp hm with hm | hm
      · exact .inr (List.mem_append_right _ (List.mem_map.mpr ⟨_, hm, rfl⟩))
      · exact .inl hm
    · exact .inr (List.mem_append_left _ hm)

theorem leave [DecidableEq γ] (h : Serves want waiting closed) {c : γ} (hc : c ∈ closed) :
    Serves (update want c none) waiting (closed.erase c) := by
  have hcl : closed.Nodup := (List.nodup_append.mp h.nodup).2.1
  have hout : ∀ w ∈ waiting, w.ch ≠ c := fun w hw e =>
    (List.nodup_append.mp h.nodup).2.2 w.ch (List.mem_map_of_mem hw) c hc e
  refine ⟨h.nodup.sublist (List.Sublist.append_left List.erase_sublist _), ?_, ?_, ?_⟩
  · intro w hw
    rw [update_of_ne (hout w hw)]
    exact h.asleep w hw
  · intro d hd
    have hdc : d ≠ c := fun e => (List.Nodup.not_mem_erase hcl) (e ▸ hd)
    rw [update_of_ne hdc]
    exact h.woken d (List.mem_of_mem_erase hd)
  · intro d k hd
    by_cases hdc : d = c
    · subst hdc; simp at hd
    · rw [update_of_ne hdc] at hd
      rcases h.present d k hd with hm | hm
      · exact .inl hm
      · exact .inr ((List.mem_erase_of_ne hdc).mpr hm)

theorem giveUp [DecidableEq γ] (h : Serves want waiting closed) {c : γ} (hc : c ∉ closed) :
    Serves (update want c none) (waiting.filter (fun w => w.ch ≠ c)) closed := by
  refine ⟨h.nodup.sublist (List.Sublist.append_right
    (List.Sublist.map _ List.filter_sublist) _), ?_, ?_, ?_⟩
  · intro w hw
    obtain ⟨hw, hne⟩ := List.mem_filter.mp hw
    rw [update_of_ne (by simpa using hne)]
    exact h.asleep w hw
  · intro d hd
    have hdc : d ≠ c := fun e => hc (e ▸ hd)
    rw [update_of_ne hdc]
    exact h.woken d hd
  · intro d k hd
    by_cases hdc : d = c
    · subst hdc; simp at hd
    · rw [update_of_ne hdc] at hd
      rcases h.present d k hd with hm | hm
      · exact .inl (List.mem_filter.mpr ⟨hm, by simpa using hdc⟩)
      · exact .inr hm

theorem giveUp_total [AddCommMonoid κ] [DecidableEq γ] (h : Serves want waiting closed) {c : γ}
    (hc : c ∉ closed) {k : κ} (hk : want c = some k) :
    k + ((waiting.filter (fun w => w.ch ≠ c)).map (·.key)).sum = (waiting.map (·.key)).sum := by
  have mem : ⟨k, c⟩ ∈ waiting := (h.present c k hk).resolve_right hc
  have nodup : (waiting.map (·.ch)).Nodup := (List.nodup_append.mp h.nodup).1
  clear h
  induction waiting with
  | nil => simp at mem
  | cons w rest ih =>
    obtain ⟨fresh, nodup⟩ := List.nodup_cons.mp nodup
    by_cases hw : w.ch = c
    · have others : ∀ v ∈ rest, v.ch ≠ c := fun v hv e =>
        fresh (List.mem_map.mpr ⟨v, hv, e.trans hw.symm⟩)
      have self : ⟨k, c⟩ = w :=
        (List.mem_cons.mp mem).resolve_right fun hm => others _ hm rfl
      rw [List.filter_cons_of_neg (by simpa using hw),
        List.filter_eq_self.mpr fun v hv => decide_eq_true (others v hv), ← self]
      rfl
    · have mem' : ⟨k, c⟩ ∈ rest := (List.mem_cons.mp mem).resolve_left fun e => hw (e ▸ rfl)
      rw [List.filter_cons_of_pos (by simpa using hw), List.map_cons, List.map_cons, List.sum_cons,
        List.sum_cons, ← ih mem' nodup, add_left_comm]

theorem sum_asleep [AddCommMonoid κ] [Fintype γ] [DecidableEq γ] (h : Serves want waiting closed) :
    ∑ c, (if c ∈ closed then 0 else (want c).getD 0) = (waiting.map (·.key)).sum := by
  obtain ⟨nodup, -, apart⟩ := List.nodup_append.mp h.nodup
  have outside : ∀ c ∈ Finset.univ, c ∉ (waiting.map (·.ch)).toFinset →
      (if c ∈ closed then 0 else (want c).getD 0) = 0 := by
    intro c _ hc
    by_cases granted : c ∈ closed
    · rw [if_pos granted]
    · rw [if_neg granted]
      cases hw : want c with
      | none => rfl
      | some k =>
        have mem := (h.present c k hw).resolve_right granted
        exact absurd (by simpa using ⟨_, mem, rfl⟩) hc
  have asleep : waiting.map (fun w => if w.ch ∈ closed then 0 else (want w.ch).getD 0) =
      waiting.map (·.key) := by
    refine List.map_congr_left fun w hw => ?_
    have open_ : w.ch ∉ closed := fun hc => apart _ (List.mem_map_of_mem hw) _ hc rfl
    rw [if_neg open_, h.asleep w hw]
    rfl
  rw [← Finset.sum_subset (Finset.subset_univ _) outside, List.sum_toFinset _ nodup, List.map_map]
  exact congrArg List.sum asleep

end Serves

end WaitQueue
