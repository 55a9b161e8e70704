import Mathlib

/-! Sums and universal facts over a finite family of components of which one is
replaced. A step of one worker is `Function.update`; these rules turn a fact about that
worker into the fact about the whole family. -/

namespace IndexedFamily

open Function

variable {ι α M : Type*} [DecidableEq ι]

theorem sum_update_add [Fintype ι] [AddCommMonoid M] (weight : α → M) (f : ι → α) (i : ι) (x : α) :
    ∑ j, weight (update f i x j) + weight (f i) = ∑ j, weight (f j) + weight x := by
  rw [← Finset.add_sum_erase _ (fun j => weight (update f i x j)) (Finset.mem_univ i),
    ← Finset.add_sum_erase _ (fun j => weight (f j)) (Finset.mem_univ i)]
  have rest : ∑ j ∈ Finset.univ.erase i, weight (update f i x j) =
      ∑ j ∈ Finset.univ.erase i, weight (f j) :=
    Finset.sum_congr rfl fun j hj => by
      rw [update_of_ne (Finset.ne_of_mem_erase hj)]
  rw [rest, update_self]
  abel

theorem sum_update_exchange [Fintype ι] [AddCancelCommMonoid M] (weight : α → M) (f : ι → α)
    (i : ι) (x : α) {pool pool' : M} (h : weight x + pool' = weight (f i) + pool) :
    ∑ j, weight (update f i x j) + pool' = ∑ j, weight (f j) + pool := by
  have total := sum_update_add weight f i x
  refine add_right_cancel (b := weight (f i)) ?_
  calc
    ∑ j, weight (update f i x j) + pool' + weight (f i)
        = (∑ j, weight (update f i x j) + weight (f i)) + pool' := by abel
    _ = ∑ j, weight (f j) + (weight x + pool') := by rw [total]; abel
    _ = ∑ j, weight (f j) + pool + weight (f i) := by rw [h]; abel

theorem forall_update {P : ι → α → Prop} {f : ι → α} {i : ι} {x : α}
    (self : P i x) (rest : ∀ j, j ≠ i → P j (f j)) (j : ι) : P j (update f i x j) := by
  by_cases h : j = i
  · subst h; simpa using self
  · simpa [update_of_ne h] using rest j h

omit [DecidableEq ι] in
theorem le_sum [Fintype ι] (weight : α → ℕ) (f : ι → α) (i : ι) :
    weight (f i) ≤ ∑ j, weight (f j) :=
  Finset.single_le_sum (f := fun j => weight (f j)) (fun _ _ => Nat.zero_le _) (Finset.mem_univ i)

theorem exists_update {P : α → Prop} {f : ι → α} {i : ι} {x : α} {gained : Prop}
    (h : P x ↔ P (f i) ∨ gained) :
    (∃ j, P (update f i x j)) ↔ (∃ j, P (f j)) ∨ gained := by
  rw [exists_update_iff f fun _ => P, h]
  constructor
  · rintro ((old | new) | ⟨j, -, old⟩)
    · exact .inl ⟨i, old⟩
    · exact .inr new
    · exact .inl ⟨j, old⟩
  · rintro (⟨j, old⟩ | new)
    · by_cases same : j = i
      · exact .inl (.inl (same ▸ old))
      · exact .inr ⟨j, same, old⟩
    · exact .inl (.inr new)

end IndexedFamily
