import Mathlib

/-! Half-open ranges of a linear address space, and cutting a range into pieces of bounded
length. -/

namespace Extents

structure Extent where
  offset : ℕ
  len : ℕ
  deriving DecidableEq, Repr

namespace Extent

def stop (e : Extent) : ℕ := e.offset + e.len

def Contains (e : Extent) (x : ℕ) : Prop := e.offset ≤ x ∧ x < e.stop

instance (e : Extent) (x : ℕ) : Decidable (e.Contains x) := inferInstanceAs (Decidable (_ ∧ _))

end Extent

def Covered (es : List Extent) (x : ℕ) : Prop := ∃ e ∈ es, e.Contains x

instance (es : List Extent) (x : ℕ) : Decidable (Covered es x) :=
  inferInstanceAs (Decidable (∃ e ∈ es, e.Contains x))

theorem covered_cons {e : Extent} {es : List Extent} {x : ℕ} :
    Covered (e :: es) x ↔ e.Contains x ∨ Covered es x := by
  simp [Covered]

/-- Length of the first piece: all of it unless it is longer than a positive `size`. -/
def pieceLen (size len : ℕ) : ℕ := if size > 0 ∧ len > size then size else len

theorem pieceLen_pos (size : ℕ) {len : ℕ} (h : 0 < len) : 0 < pieceLen size len := by
  unfold pieceLen
  split <;> omega

theorem pieceLen_le (size len : ℕ) : pieceLen size len ≤ len := by
  unfold pieceLen
  split <;> omega

theorem pieceLen_le_size {size : ℕ} (len : ℕ) (h : 0 < size) : pieceLen size len ≤ size := by
  unfold pieceLen
  split <;> omega

def pieces (size offset len : ℕ) : List Extent :=
  if _h : len = 0 then []
  else
    ⟨offset, pieceLen size len⟩ ::
      pieces size (offset + pieceLen size len) (len - pieceLen size len)
termination_by len
decreasing_by
  have := pieceLen_pos size (Nat.pos_of_ne_zero ‹_›)
  omega

theorem pieces_zero (size offset : ℕ) : pieces size offset 0 = [] := by
  rw [pieces]
  simp

theorem pieces_pos {size offset len : ℕ} (h : 0 < len) :
    pieces size offset len = ⟨offset, pieceLen size len⟩ ::
      pieces size (offset + pieceLen size len) (len - pieceLen size len) := by
  rw [pieces, dif_neg (by omega)]

theorem pieces_bounds {size offset len : ℕ} {p : Extent} (hp : p ∈ pieces size offset len) :
    offset ≤ p.offset ∧ p.stop ≤ offset + len ∧ 0 < p.len ∧ (0 < size → p.len ≤ size) := by
  induction len using Nat.strong_induction_on generalizing offset with
  | h len ih =>
    rcases Nat.eq_zero_or_pos len with rfl | hlen
    · simp [pieces_zero] at hp
    · have pos := pieceLen_pos size hlen
      have le := pieceLen_le size len
      rw [pieces_pos hlen] at hp
      rcases List.mem_cons.mp hp with rfl | hp
      · exact ⟨le_rfl, by simp only [Extent.stop]; omega, pos, fun hs => pieceLen_le_size len hs⟩
      · obtain ⟨h1, h2, h3, h4⟩ := ih _ (by omega) hp
        exact ⟨by omega, by omega, h3, h4⟩

theorem pieces_cover (size : ℕ) {offset len x : ℕ} (h : offset ≤ x) (h' : x < offset + len) :
    Covered (pieces size offset len) x := by
  induction len using Nat.strong_induction_on generalizing offset with
  | h len ih =>
    have hlen : 0 < len := by omega
    have pos := pieceLen_pos size hlen
    have le := pieceLen_le size len
    rw [pieces_pos hlen, covered_cons]
    by_cases hx : x < offset + pieceLen size len
    · exact .inl ⟨h, hx⟩
    · exact .inr (ih _ (by omega) (by omega) (by omega))

/-- The extents lie behind `pos`, each one behind the one before it. -/
def Ascends : ℕ → List Extent → Prop
  | _, [] => True
  | pos, e :: rest => pos ≤ e.offset ∧ Ascends e.stop rest

/-- The extents make up the addresses from `lo` to `hi`, one after the other. -/
def Tiles : ℕ → ℕ → List Extent → Prop
  | lo, hi, [] => lo = hi
  | lo, hi, e :: rest => e.offset = lo ∧ Tiles e.stop hi rest

theorem Ascends.mono {pos pos' : ℕ} {es : List Extent} (h : Ascends pos es) (hle : pos' ≤ pos) :
    Ascends pos' es := by
  cases es with
  | nil => trivial
  | cons e rest => exact ⟨hle.trans h.1, h.2⟩

theorem Ascends.le_offset {pos : ℕ} {es : List Extent} (h : Ascends pos es) {e : Extent}
    (he : e ∈ es) : pos ≤ e.offset := by
  induction es generalizing pos with
  | nil => cases he
  | cons f rest ih =>
    rcases List.mem_cons.mp he with rfl | he
    · exact h.1
    · exact ih (h.2.mono (h.1.trans (Nat.le_add_right _ _))) he

theorem Ascends.pairwise {pos : ℕ} {es : List Extent} (h : Ascends pos es) :
    es.Pairwise fun e f => e.stop ≤ f.offset := by
  induction es generalizing pos with
  | nil => exact List.Pairwise.nil
  | cons e rest ih => exact List.pairwise_cons.mpr ⟨fun f hf => h.2.le_offset hf, ih h.2⟩

theorem Tiles.append {lo mid hi : ℕ} {first second : List Extent} (h : Tiles lo mid first)
    (h' : Tiles mid hi second) : Tiles lo hi (first ++ second) := by
  induction first generalizing lo with
  | nil =>
    cases h
    exact h'
  | cons e rest ih => exact ⟨h.1, ih h.2⟩

theorem Tiles.append_ascends {lo mid : ℕ} {first second : List Extent} (h : Tiles lo mid first)
    (h' : Ascends mid second) : Ascends lo (first ++ second) := by
  induction first generalizing lo with
  | nil =>
    cases h
    exact h'
  | cons e rest ih => exact ⟨h.1.ge, ih h.2⟩

theorem Tiles.le {lo hi : ℕ} {es : List Extent} (h : Tiles lo hi es) : lo ≤ hi := by
  induction es generalizing lo with
  | nil => exact Nat.le_of_eq h
  | cons e rest ih => exact h.1 ▸ (Nat.le_add_right _ _).trans (ih h.2)

theorem Tiles.covered_iff {lo hi : ℕ} {es : List Extent} (h : Tiles lo hi es) (x : ℕ) :
    Covered es x ↔ lo ≤ x ∧ x < hi := by
  induction es generalizing lo with
  | nil =>
    cases h
    simp [Covered]
  | cons e rest ih =>
    obtain ⟨rfl, h⟩ := h
    have bound := h.le
    have stop : e.offset ≤ e.stop := Nat.le_add_right _ _
    have rest := ih h
    rw [covered_cons, rest, Extent.Contains]
    omega

theorem pieces_tile (size offset len : ℕ) :
    Tiles offset (offset + len) (pieces size offset len) := by
  induction len using Nat.strong_induction_on generalizing offset with
  | h len ih =>
    rcases Nat.eq_zero_or_pos len with rfl | hlen
    · rw [pieces_zero]
      rfl
    · have pos := pieceLen_pos size hlen
      have le := pieceLen_le size len
      have rest := ih (len - pieceLen size len) (by omega) (offset + pieceLen size len)
      have whole : offset + pieceLen size len + (len - pieceLen size len) = offset + len := by omega
      rw [whole] at rest
      rw [pieces_pos hlen]
      exact ⟨rfl, rest⟩

end Extents
