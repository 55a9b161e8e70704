import Mathlib

/-! A ring of `limit` bits that records a set of natural numbers over the window
`[base, base + limit)`. Number `i` is kept in cell `i % limit`; inside one window no two
numbers share a cell. -/

namespace SlidingWindow

open Function

/-- The ring `bits` agrees with `R` on the window that starts at `base`. -/
def Tracks (limit base : ℕ) (bits : ℕ → Bool) (R : Set ℕ) : Prop :=
  ∀ i, base ≤ i → i < base + limit → (bits (i % limit) = true ↔ i ∈ R)

theorem cell_inj {limit base i j : ℕ} (hi : base ≤ i) (hi' : i < base + limit)
    (hj : base ≤ j) (hj' : j < base + limit) (h : i % limit = j % limit) : i = j := by
  rcases Nat.le_total i j with hij | hij
  · have hd : limit ∣ j - i := (Nat.modEq_iff_dvd' hij).mp h
    rcases Nat.eq_zero_or_pos (j - i) with hz | hz
    · omega
    · have := Nat.le_of_dvd hz hd; omega
  · have hd : limit ∣ i - j := (Nat.modEq_iff_dvd' hij).mp h.symm
    rcases Nat.eq_zero_or_pos (i - j) with hz | hz
    · omega
    · have := Nat.le_of_dvd hz hd; omega

theorem exists_cell {limit : ℕ} (base : ℕ) {r : ℕ} (hr : r < limit) :
    ∃ i, base ≤ i ∧ i < base + limit ∧ i % limit = r := by
  have hb : base % limit < limit := Nat.mod_lt _ (by omega)
  by_cases hle : base % limit ≤ r
  · refine ⟨base + (r - base % limit), by omega, by omega, ?_⟩
    rw [Nat.add_mod, Nat.mod_eq_of_lt (by omega : r - base % limit < limit),
      Nat.add_sub_cancel' hle, Nat.mod_eq_of_lt hr]
  · refine ⟨base + (limit + r - base % limit), by omega, by omega, ?_⟩
    rw [Nat.add_mod, Nat.mod_eq_of_lt (by omega : limit + r - base % limit < limit),
      Nat.add_sub_cancel' (by omega), Nat.add_mod_left, Nat.mod_eq_of_lt hr]

theorem tracks_insert {limit base i : ℕ} {bits : ℕ → Bool} {R : Set ℕ}
    (h : Tracks limit base bits R) (hi : base ≤ i) (hi' : i < base + limit) :
    Tracks limit base (update bits (i % limit) true) (insert i R) := by
  intro j hj hj'
  by_cases hc : j % limit = i % limit
  · have : j = i := cell_inj hj hj' hi hi' hc
    subst this
    simp
  · have : j ≠ i := fun e => hc (by rw [e])
    rw [update_of_ne hc, h j hj hj', Set.mem_insert_iff]
    simp [this]

/-- Clear set cells from `base` on and move `base` past them; at most `fuel` of them. -/
def advance (limit : ℕ) : ℕ → (ℕ → Bool) → ℕ → (ℕ → Bool) × ℕ
  | 0, bits, base => (bits, base)
  | fuel + 1, bits, base =>
    if bits (base % limit) then advance limit fuel (update bits (base % limit) false) (base + 1)
    else (bits, base)

theorem tracks_clear {limit base : ℕ} {bits : ℕ → Bool} {R : Set ℕ}
    (h : Tracks limit base bits R) (hR : base + limit ∉ R) :
    Tracks limit (base + 1) (update bits (base % limit) false) R := by
  intro j hj hj'
  by_cases hc : j % limit = base % limit
  · have hj0 : j = base + limit := by
      refine @cell_inj limit (base + 1) _ _ hj hj' (by omega) (by omega) ?_
      rw [hc, Nat.add_mod_right]
    subst hj0
    rw [hc, update_self]
    simpa using hR
  · rw [update_of_ne hc]
    refine h j (by omega) ?_
    have : j ≠ base + limit := fun e => hc (by rw [e, Nat.add_mod_right])
    omega

theorem advance_spec {limit : ℕ} (fuel : ℕ) {base : ℕ} {bits : ℕ → Bool}
    {R : Set ℕ} (h : Tracks limit base bits R) (hR : ∀ i, base + fuel ≤ i → i ∉ R)
    (hf : fuel ≤ limit) :
    base ≤ (advance limit fuel bits base).2 ∧
    (∀ i, base ≤ i → i < (advance limit fuel bits base).2 → i ∈ R) ∧
    (advance limit fuel bits base).2 ∉ R ∧
    Tracks limit (advance limit fuel bits base).2 (advance limit fuel bits base).1 R := by
  induction fuel generalizing base bits with
  | zero => exact ⟨le_rfl, fun i hi hi' => absurd hi' (by simpa [advance] using hi),
      hR _ le_rfl, h⟩
  | succ fuel ih =>
    rw [advance]
    by_cases hb : bits (base % limit) = true
    · rw [if_pos hb]
      have mem : base ∈ R := (h base le_rfl (by omega)).mp hb
      have clear := tracks_clear h (hR _ (by omega))
      obtain ⟨hle, hall, hnot, htr⟩ := ih clear (fun i hi => hR i (by omega)) (by omega)
      refine ⟨by omega, fun i hi hi' => ?_, hnot, htr⟩
      by_cases hib : i = base
      · exact hib ▸ mem
      · exact hall i (by omega) hi'
    · rw [if_neg hb]
      refine ⟨le_rfl, fun i hi hi' => absurd hi' (by simpa using hi), ?_, h⟩
      exact fun mem => hb ((h base le_rfl (by omega)).mpr mem)

def marked (limit : ℕ) (bits : ℕ → Bool) : Finset ℕ := (Finset.range limit).filter (bits · = true)

theorem marked_clear {limit base : ℕ} (hl : 0 < limit) {bits : ℕ → Bool}
    (h : bits (base % limit) = true) :
    (marked limit (update bits (base % limit) false)).card < (marked limit bits).card := by
  refine Finset.card_lt_card (Finset.ssubset_iff_of_subset ?_ |>.mpr ⟨base % limit, ?_, ?_⟩)
  · intro i hi
    simp only [marked, Finset.mem_filter] at hi ⊢
    by_cases hc : i = base % limit
    · simp [hc] at hi
    · exact ⟨hi.1, by simpa [update_of_ne hc] using hi.2⟩
  · simp [marked, h, Nat.mod_lt _ hl]
  · simp [marked]

theorem advance_stops {limit : ℕ} (hl : 0 < limit) (fuel : ℕ) (bits : ℕ → Bool) (base : ℕ)
    (h : (marked limit bits).card ≤ fuel) :
    (advance limit fuel bits base).1 ((advance limit fuel bits base).2 % limit) = false := by
  -- the loop over set cells ends on every ring: each turn clears one of them
  induction fuel generalizing bits base with
  | zero =>
    have none : marked limit bits = ∅ := Finset.card_eq_zero.mp (Nat.le_zero.mp h)
    by_contra hb
    have cell : base % limit ∈ marked limit bits := by
      simpa [marked, Nat.mod_lt _ hl, advance] using hb
    simp [none] at cell
  | succ fuel ih =>
    rw [advance]
    by_cases hb : bits (base % limit) = true
    · rw [if_pos hb]
      have fewer := marked_clear hl hb
      exact ih _ _ (by omega)
    · rw [if_neg hb]
      simpa using hb

theorem marked_card_le (limit : ℕ) (bits : ℕ → Bool) : (marked limit bits).card ≤ limit :=
  (Finset.card_filter_le _ _).trans_eq (Finset.card_range limit)

end SlidingWindow
