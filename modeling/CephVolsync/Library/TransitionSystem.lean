import Mathlib

/-! Guarded transition systems. `step s a` is `some s'` when action `a` is enabled in
`s` and `none` otherwise, so one definition replays a concrete schedule and carries the
induction over all schedules. Nothing here mentions a particular program. -/

namespace TransitionSystem

variable {σ τ α β : Type*}

/-- Replay a schedule; `none` as soon as an action on the way is disabled. -/
def exec (step : σ → α → Option σ) : σ → List α → Option σ
  | s, [] => some s
  | s, a :: rest => (step s a).bind fun s' => exec step s' rest

def repeats (counted : List (ℕ × α)) : List α := counted.flatMap fun p => List.replicate p.1 p.2

/-- The states that some schedule leads to from `s₀`. -/
inductive Reach (step : σ → α → Option σ) (s₀ : σ) : σ → Prop
  | refl : Reach step s₀ s₀
  | tail {s s' : σ} (a : α) : Reach step s₀ s → step s a = some s' → Reach step s₀ s'

/-- The system that takes only the actions `allow` admits in the current state. -/
def restrict (allow : σ → α → Bool) (step : σ → α → Option σ) (s : σ) (a : α) : Option σ :=
  if allow s a then step s a else none

/-- The system together with a history to which each step appends what it shows. -/
def record (shows : σ → α → List β) (step : σ → α → Option σ) (p : σ × List β) (a : α) :
    Option (σ × List β) :=
  (step p.1 a).map fun s' => (s', p.2 ++ shows p.1 a)

def Stuck (step : σ → α → Option σ) (s : σ) : Prop := ∀ a, step s a = none

theorem exec_cons (step : σ → α → Option σ) {s s' : σ} {a : α} {rest : List α}
    (h : step s a = some s') : exec step s (a :: rest) = exec step s' rest := by
  simp [exec, h]

theorem exec_append (step : σ → α → Option σ) (s : σ) (first second : List α) :
    exec step s (first ++ second) = (exec step s first).bind fun s' => exec step s' second := by
  induction first generalizing s with
  | nil => rfl
  | cons a rest ih =>
    cases h : step s a with
    | none => simp [exec, h]
    | some s' => simp [exec, h, ih]

theorem exec_induction (step : σ → α → Option σ) {s₀ : σ} {P : List α → σ → Prop} (start : P [] s₀)
    (keep : ∀ schedule s a s', exec step s₀ schedule = some s → P schedule s → step s a = some s' →
      P (schedule ++ [a]) s')
    {schedule : List α} {s : σ} (h : exec step s₀ schedule = some s) : P schedule s := by
  induction schedule using List.reverseRecOn generalizing s with
  | nil => cases h; exact start
  | append_singleton rest a ih =>
    rw [exec_append] at h
    obtain ⟨s₁, h₁, h₂⟩ := Option.bind_eq_some_iff.mp h
    have last : step s₁ a = some s := by
      cases hs : step s₁ a with
      | none => simp [exec, hs] at h₂
      | some s₂ => simpa [exec, hs] using h₂
    exact keep rest s₁ a s h₁ (ih h₁) last

theorem restrict_eq_some {allow : σ → α → Bool} {step : σ → α → Option σ} {s s' : σ} {a : α} :
    restrict allow step s a = some s' ↔ allow s a = true ∧ step s a = some s' := by
  unfold restrict
  split <;> simp_all

theorem record_eq_some {shows : σ → α → List β} {step : σ → α → Option σ} {p p' : σ × List β}
    {a : α} : record shows step p a = some p' ↔
      step p.1 a = some p'.1 ∧ p'.2 = p.2 ++ shows p.1 a := by
  rw [record, Option.map_eq_some_iff]
  constructor
  · rintro ⟨s', next, rfl⟩
    exact ⟨next, rfl⟩
  · rintro ⟨next, history⟩
    exact ⟨p'.1, next, Prod.ext rfl history.symm⟩

namespace Reach

variable {step : σ → α → Option σ} {s₀ s s' : σ}

theorem single {a : α} (h : step s₀ a = some s) : Reach step s₀ s := .tail a .refl h

theorem trans (first : Reach step s₀ s) (second : Reach step s s') : Reach step s₀ s' := by
  induction second with
  | refl => exact first
  | tail a _ h ih => exact .tail a ih h

theorem head {a : α} (h : step s₀ a = some s) (rest : Reach step s s') : Reach step s₀ s' :=
  (single h).trans rest

theorem invariant {P : σ → Prop} (start : P s₀)
    (keep : ∀ s a s', Reach step s₀ s → P s → step s a = some s' → P s')
    (h : Reach step s₀ s) : P s := by
  induction h with
  | refl => exact start
  | tail a reached next ih => exact keep _ a _ reached ih next

theorem simulate {step' : τ → β → Option τ} (f : σ → τ)
    (mirror : ∀ s a s', step s a = some s' → Reach step' (f s) (f s'))
    (h : Reach step s₀ s) : Reach step' (f s₀) (f s) := by
  induction h with
  | refl => exact .refl
  | tail a _ next ih => exact ih.trans (mirror _ a _ next)

theorem of_restrict {allow : σ → α → Bool} (h : Reach (restrict allow step) s₀ s) :
    Reach step s₀ s :=
  h.simulate id fun _ _ _ next => single (restrict_eq_some.mp next).2

theorem weaken {allow allow' : σ → α → Bool} (more : ∀ s a, allow s a = true → allow' s a = true)
    (h : Reach (restrict allow step) s₀ s) : Reach (restrict allow' step) s₀ s :=
  h.simulate id fun s a _ next =>
    have ⟨allowed, hs⟩ := restrict_eq_some.mp next
    single (restrict_eq_some.mpr ⟨more s a allowed, hs⟩)

theorem of_record {shows : σ → α → List β} {p : σ × List β}
    (h : Reach (record shows step) (s₀, []) p) : Reach step s₀ p.1 :=
  h.simulate Prod.fst fun _ _ _ next => single (record_eq_some.mp next).1

theorem of_exec {schedule : List α} (h : exec step s₀ schedule = some s) : Reach step s₀ s := by
  induction schedule generalizing s₀ with
  | nil => cases h; exact .refl
  | cons a rest ih =>
    cases hs : step s₀ a with
    | none => simp [exec, hs] at h
    | some s₁ => exact head hs (ih (by simpa [exec, hs] using h))

theorem of_exec_any {p : σ → Bool} {schedule : List α}
    (h : (exec step s₀ schedule).any p = true) : ∃ s, Reach step s₀ s ∧ p s = true := by
  cases he : exec step s₀ schedule with
  | none => simp [he] at h
  | some s => exact ⟨s, of_exec he, by simpa [he] using h⟩

end Reach

theorem exists_stuck {step : σ → α → Option σ} (D : σ → Prop) (measure : σ → ℕ)
    (closed : ∀ s a s', D s → step s a = some s' → D s')
    (lower : ∀ s a s', D s → step s a = some s' → measure s' < measure s)
    {s : σ} (hs : D s) : ∃ s', Reach step s s' ∧ D s' ∧ Stuck step s' := by
  induction hm : measure s using Nat.strong_induction_on generalizing s with
  | h m ih =>
    by_cases stuck : Stuck step s
    · exact ⟨s, .refl, hs, stuck⟩
    · simp only [Stuck, not_forall] at stuck
      obtain ⟨a, ha⟩ := stuck
      obtain ⟨s₁, h₁⟩ := Option.ne_none_iff_exists'.mp ha
      have small := lower s a s₁ hs h₁
      obtain ⟨s', reached, hD, hstuck⟩ := ih _ (hm ▸ small) (closed s a s₁ hs h₁) rfl
      exact ⟨s', .head h₁ reached, hD, hstuck⟩

end TransitionSystem
