import CephVolsync.CephFs.BlockIterator

/-! `splitLargeBlocks` against the split it is meant to compute. The function ranges over the
same array that it writes its result to. Up to the first block that is too long every
block overwrites itself; from then on each turn of the loop reads an element of the
result. -/

namespace CephVolsync.CephFs

open Extents

/-- The blocks cut one after the other, each as it was on entry. -/
def plainSplit (maxLen : ℕ) (blocks : List Extent) : List Extent :=
  blocks.flatMap (splitBlock maxLen)

/-- A block that has a longer than permitted one somewhere before it is the element of the
plain split that stands at its own index. -/
def Slice.Undisturbed (blocks : Slice) (maxLen : ℕ) : Prop :=
  ∀ i < blocks.elems.length, (∃ b ∈ blocks.elems.take i, maxLen < b.len) →
    blocks.elems[i]? = (plainSplit maxLen blocks.elems)[i]?

section Pieces

variable {maxLen : ℕ}

theorem splitBlock_small {b : Extent} (h : b.len ≤ maxLen) : splitBlock maxLen b = [b] := if_pos h

theorem splitBlock_len_le (hm : 0 < maxLen) {b p : Extent} (hp : p ∈ splitBlock maxLen b) :
    p.len ≤ maxLen := by
  unfold splitBlock at hp
  split at hp
  · rw [List.mem_singleton.mp hp]
    assumption
  · exact (pieces_bounds hp).2.2.2 hm

theorem splitBlock_length_pos (maxLen : ℕ) (b : Extent) : 1 ≤ (splitBlock maxLen b).length :=
  List.length_pos_iff.mpr (splitBlock_ne_nil maxLen b)

theorem splitBlock_length_large (hm : 0 < maxLen) {b : Extent} (h : maxLen < b.len) :
    2 ≤ (splitBlock maxLen b).length := by
  have cut : pieceLen maxLen b.len = maxLen := if_pos ⟨hm, h⟩
  rw [splitBlock, if_neg (by omega), pieces_pos (by omega), cut, pieces_pos (by omega)]
  simp only [List.length_cons]
  omega

theorem covered_splitBlock (maxLen : ℕ) {b : Extent} {x : ℕ} :
    Covered (splitBlock maxLen b) x ↔ b.Contains x := by
  unfold splitBlock
  split
  · simp [Covered]
  · constructor
    · rintro ⟨p, hp, inside⟩
      obtain ⟨low, high, -⟩ := pieces_bounds hp
      exact ⟨low.trans inside.1, inside.2.trans_le high⟩
    · exact fun inside => pieces_cover maxLen inside.1 inside.2

theorem covered_plainSplit {blocks : List Extent} {x : ℕ} :
    Covered (plainSplit maxLen blocks) x ↔ Covered blocks x := by
  induction blocks with
  | nil => rfl
  | cons b rest ih =>
    rw [covered_cons, ← ih, ← covered_splitBlock maxLen]
    simp [plainSplit, Covered, or_and_right, exists_or]

theorem plainSplit_append (first second : List Extent) :
    plainSplit maxLen (first ++ second) = plainSplit maxLen first ++ plainSplit maxLen second :=
  List.flatMap_append

theorem plainSplit_small {blocks : List Extent} (h : ∀ b ∈ blocks, b.len ≤ maxLen) :
    plainSplit maxLen blocks = blocks := by
  induction blocks with
  | nil => rfl
  | cons b rest ih =>
    rw [plainSplit, List.flatMap_cons, splitBlock_small (h b List.mem_cons_self)]
    exact congrArg (b :: ·) (ih fun c hc => h c (List.mem_cons_of_mem _ hc))

theorem length_le_plainSplit (maxLen : ℕ) (blocks : List Extent) :
    blocks.length ≤ (plainSplit maxLen blocks).length := by
  induction blocks with
  | nil => exact le_rfl
  | cons b rest ih =>
    have one := splitBlock_length_pos maxLen b
    simp only [plainSplit, List.flatMap_cons, List.length_append, List.length_cons] at ih ⊢
    omega

theorem length_lt_plainSplit (hm : 0 < maxLen) {blocks : List Extent}
    (h : ∃ b ∈ blocks, maxLen < b.len) : blocks.length < (plainSplit maxLen blocks).length := by
  obtain ⟨b, hb, large⟩ := h
  obtain ⟨first, second, rfl⟩ := List.append_of_mem hb
  have before := length_le_plainSplit maxLen first
  have behind := length_le_plainSplit maxLen second
  have two := splitBlock_length_large hm large
  rw [plainSplit_append, plainSplit, plainSplit, List.flatMap_cons]
  simp only [plainSplit, List.length_append, List.length_cons] at before behind ⊢
  omega

end Pieces

/-- The array holds the result as far as it goes, and the input behind it. -/
structure Splitting.Overlaid (elems : List Extent) (s : Splitting) : Prop where
  length : s.cells.length = elems.length
  cell : ∀ t < elems.length, s.cells[t]? = if t < s.out.length then s.out[t]? else elems[t]?

theorem Splitting.Overlaid.append {elems : List Extent} {cap : ℕ} {s : Splitting}
    (h : s.Overlaid elems) (hcap : elems.length ≤ cap) (b : Extent) :
    (s.append cap b).Overlaid elems := by
  have length := h.length
  refine ⟨?_, fun t ht => ?_⟩
  · simp only [Splitting.append]
    split
    · rw [List.length_set, length]
    · exact length
  · have cell := h.cell t ht
    simp only [Splitting.append, List.length_append, List.length_singleton]
    rcases Nat.lt_trichotomy t s.out.length with lt | rfl | gt
    · rw [if_pos lt] at cell
      rw [if_pos (by omega : t < s.out.length + 1), List.getElem?_append_left lt, ← cell]
      split
      · rw [List.getElem?_set_ne (by omega)]
      · rfl
    · rw [if_pos (by omega : s.out.length < cap), if_pos (by omega),
        List.getElem?_set_self (by omega), List.getElem?_concat_length]
    · rw [if_neg (by omega)] at cell
      rw [if_neg (by omega : ¬ t < s.out.length + 1), ← cell]
      split
      · rw [List.getElem?_set_ne (by omega)]
      · rfl

theorem Splitting.Overlaid.foldl {elems : List Extent} {cap : ℕ} {s : Splitting}
    (h : s.Overlaid elems) (hcap : elems.length ≤ cap) (bs : List Extent) :
    (bs.foldl (Splitting.append cap) s).Overlaid elems := by
  induction bs generalizing s with
  | nil => exact h
  | cons b rest ih => exact ih (h.append hcap b)

namespace Slice

variable {blocks : Slice} {maxLen : ℕ}

def after (blocks : Slice) (maxLen i : ℕ) : Splitting :=
  (List.range i).foldl (Splitting.turn blocks.cap maxLen) ⟨blocks.elems, []⟩

theorem after_succ (i : ℕ) :
    blocks.after maxLen (i + 1) = (blocks.after maxLen i).turn blocks.cap maxLen i := by
  rw [after, List.range_succ, List.foldl_append]
  rfl

theorem after_overlaid (blocks : Slice) (maxLen i : ℕ) :
    (blocks.after maxLen i).Overlaid blocks.elems := by
  induction i with
  | zero => exact ⟨rfl, fun t _ => (if_neg (Nat.not_lt_zero t)).symm⟩
  | succ i ih =>
    rw [after_succ, Splitting.turn]
    split
    · exact ih.foldl blocks.length_le _
    · exact ih

theorem after_out_succ (blocks : Slice) (maxLen : ℕ) {i : ℕ} (hi : i < blocks.elems.length) :
    ∃ b, (if i < (blocks.after maxLen i).out.length then (blocks.after maxLen i).out[i]?
        else blocks.elems[i]?) = some b ∧
      (blocks.after maxLen (i + 1)).out = (blocks.after maxLen i).out ++ splitBlock maxLen b := by
  -- one turn cuts the block that it reads: an element of the result if the result has reached
  -- that far, the block of the input otherwise
  have overlaid := blocks.after_overlaid maxLen i
  have cell := overlaid.cell i hi
  have inside : i < (blocks.after maxLen i).cells.length := overlaid.length ▸ hi
  refine ⟨(blocks.after maxLen i).cells[i], ?_, ?_⟩
  · rw [← cell, List.getElem?_eq_getElem inside]
  · rw [after_succ, Splitting.turn, List.getElem?_eq_getElem inside]
    exact Splitting.foldl_append_out _ _ _

theorem after_len_le (hm : 0 < maxLen) {i : ℕ} (hi : i ≤ blocks.elems.length) :
    ∀ b ∈ (blocks.after maxLen i).out, b.len ≤ maxLen := by
  induction i with
  | zero => simp [after]
  | succ i ih =>
    obtain ⟨b, -, out⟩ := blocks.after_out_succ maxLen hi
    rw [out]
    intro p hp
    rcases List.mem_append.mp hp with hp | hp
    · exact ih (by omega) p hp
    · exact splitBlock_len_le hm hp

theorem after_out_copy (hm : 0 < maxLen) {i : ℕ} (hi : i < blocks.elems.length)
    (past : i < (blocks.after maxLen i).out.length) :
    (blocks.after maxLen (i + 1)).out =
      (blocks.after maxLen i).out ++ [(blocks.after maxLen i).out[i]] := by
  obtain ⟨b, read, out⟩ := blocks.after_out_succ maxLen hi
  rw [if_pos past, List.getElem?_eq_getElem past] at read
  rw [out, ← Option.some.inj read,
    splitBlock_small (blocks.after_len_le hm hi.le _ (List.getElem_mem past))]

theorem after_out_own {i : ℕ} (hi : i < blocks.elems.length)
    (own : (blocks.after maxLen i).out.length ≤ i) :
    (blocks.after maxLen (i + 1)).out =
      (blocks.after maxLen i).out ++ splitBlock maxLen blocks.elems[i] := by
  obtain ⟨b, read, out⟩ := blocks.after_out_succ maxLen hi
  rw [if_neg (by omega), List.getElem?_eq_getElem hi] at read
  rw [out, ← Option.some.inj read]

theorem plainSplit_take_succ {i : ℕ} (hi : i < blocks.elems.length) :
    plainSplit maxLen (blocks.elems.take (i + 1)) =
      plainSplit maxLen (blocks.elems.take i) ++ splitBlock maxLen blocks.elems[i] := by
  rw [List.take_succ_eq_append_getElem hi, plainSplit_append]
  simp [plainSplit]

theorem after_length_le (hm : 0 < maxLen) {i k : ℕ} (hik : i ≤ k) (hk : k ≤ blocks.elems.length) :
    (blocks.after maxLen k).out.length + (plainSplit maxLen (blocks.elems.take i)).length ≤
      (blocks.after maxLen i).out.length + (plainSplit maxLen (blocks.elems.take k)).length := by
  induction k, hik using Nat.le_induction with
  | base => exact le_rfl
  | succ k hik ih =>
    have before := ih (by omega)
    have one := splitBlock_length_pos maxLen blocks.elems[k]
    rw [plainSplit_take_succ hk, List.length_append]
    by_cases past : k < (blocks.after maxLen k).out.length
    · rw [after_out_copy hm hk past, List.length_append, List.length_singleton]
      omega
    · rw [after_out_own hk (by omega), List.length_append]
      omega

theorem after_out_mono {i k : ℕ} (hik : i ≤ k) :
    (blocks.after maxLen i).out <+: (blocks.after maxLen k).out := by
  induction k, hik using Nat.le_induction with
  | base => exact List.prefix_rfl
  | succ k _ ih =>
    rw [after_succ]
    exact ih.trans (Splitting.turn_out_prefix _ _ _ _)

theorem after_out_eq (hm : 0 < maxLen)
    (h : (blocks.after maxLen blocks.elems.length).out = plainSplit maxLen blocks.elems) {i : ℕ}
    (hi : i ≤ blocks.elems.length) :
    (blocks.after maxLen i).out = plainSplit maxLen (blocks.elems.take i) := by
  have rest := blocks.after_length_le hm hi le_rfl
  have start := blocks.after_length_le hm (Nat.zero_le i) hi
  rw [List.take_length, h] at rest
  simp only [after, List.range_zero, List.foldl_nil, List.take_zero, plainSplit, List.flatMap_nil,
    List.length_nil, Nat.zero_add, Nat.add_zero] at start
  have mine : (blocks.after maxLen i).out <+: plainSplit maxLen blocks.elems :=
    h ▸ blocks.after_out_mono hi
  have plain : plainSplit maxLen (blocks.elems.take i) <+: plainSplit maxLen blocks.elems := by
    conv_rhs => rw [← List.take_append_drop i blocks.elems, plainSplit_append]
    exact List.prefix_append _ _
  refine (List.prefix_of_prefix_length_le mine plain ?_).eq_of_length ?_
  · exact start
  · exact le_antisymm start (by omega)

theorem undisturbed_of_eq (hm : 0 < maxLen)
    (h : (blocks.after maxLen blocks.elems.length).out = plainSplit maxLen blocks.elems) :
    blocks.Undisturbed maxLen := by
  -- a block behind one that was cut is read in the place of another one
  intro i hi large
  have mine := after_out_eq hm h hi.le
  have next := after_out_eq hm h (Nat.succ_le_of_lt hi)
  have past : i < (blocks.after maxLen i).out.length := by
    have longer := length_lt_plainSplit hm large
    rw [List.length_take_of_le hi.le] at longer
    rwa [mine]
  rw [after_out_copy hm hi past, plainSplit_take_succ hi, ← mine] at next
  have piece := List.append_cancel_left next
  have small : blocks.elems[i].len ≤ maxLen := by
    by_contra large
    have two := splitBlock_length_large hm (not_le.mp large)
    rw [← piece, List.length_singleton] at two
    omega
  rw [splitBlock_small small] at piece
  have final : (plainSplit maxLen blocks.elems)[i]? = (blocks.after maxLen i).out[i]? := by
    obtain ⟨tail, ht⟩ : (blocks.after maxLen i).out <+: plainSplit maxLen blocks.elems :=
      h ▸ blocks.after_out_mono hi.le
    rw [← ht, List.getElem?_append_left past]
  rw [final, List.getElem?_eq_getElem hi, List.getElem?_eq_getElem past]
  exact congrArg some (List.singleton_inj.mp piece).symm

theorem eq_of_undisturbed (hm : 0 < maxLen) (h : blocks.Undisturbed maxLen) {i : ℕ}
    (hi : i ≤ blocks.elems.length) :
    (blocks.after maxLen i).out = plainSplit maxLen (blocks.elems.take i) := by
  induction i with
  | zero => rfl
  | succ i ih =>
    have mine := ih (by omega)
    rw [plainSplit_take_succ hi, ← mine]
    by_cases past : i < (blocks.after maxLen i).out.length
    · have large : ∃ b ∈ blocks.elems.take i, maxLen < b.len := by
        by_contra none
        have small : ∀ b ∈ blocks.elems.take i, b.len ≤ maxLen := fun b hb =>
          not_lt.mp fun large => none ⟨b, hb, large⟩
        rw [mine, plainSplit_small small, List.length_take_of_le (by omega)] at past
        omega
      have same := h i hi large
      have split : plainSplit maxLen blocks.elems =
          (blocks.after maxLen i).out ++ plainSplit maxLen (blocks.elems.drop i) := by
        rw [mine, ← plainSplit_append, List.take_append_drop]
      rw [split, List.getElem?_append_left past, List.getElem?_eq_getElem hi,
        List.getElem?_eq_getElem past] at same
      have copied := Option.some.inj same
      have small := blocks.after_len_le hm (by omega : i ≤ blocks.elems.length) _
        (List.getElem_mem past)
      rw [after_out_copy hm hi past, copied, splitBlock_small small]
    · exact after_out_own hi (by omega)

end Slice

/-- `splitLargeBlocks` returns the plain split, with the bytes of the input, exactly if no
block that follows a longer than permitted one is lost; in any case no block it returns is
too long. -/
theorem splitLargeBlocks_plain (blocks : Slice) (maxLen : ℕ) (hm : 0 < maxLen) :
    (splitLargeBlocks blocks maxLen = plainSplit maxLen blocks.elems ↔ blocks.Undisturbed maxLen) ∧
    (blocks.Undisturbed maxLen →
      ∀ x, Covered (splitLargeBlocks blocks maxLen) x ↔ Covered blocks.elems x) ∧
    ∀ b ∈ splitLargeBlocks blocks maxLen, b.len ≤ maxLen := by
  have equal : splitLargeBlocks blocks maxLen = plainSplit maxLen blocks.elems ↔
      blocks.Undisturbed maxLen := by
    unfold splitLargeBlocks
    split
    · refine ⟨Slice.undisturbed_of_eq hm, fun undisturbed => ?_⟩
      have all := Slice.eq_of_undisturbed hm undisturbed le_rfl
      rw [List.take_length] at all
      exact all
    · rename_i none
      have small : ∀ b ∈ blocks.elems, b.len ≤ maxLen := by simpa using none
      refine ⟨fun _ i _ large => ?_, fun _ => (plainSplit_small small).symm⟩
      rw [plainSplit_small small]
  refine ⟨equal, fun undisturbed x => ?_, ?_⟩
  · rw [equal.mpr undisturbed]
    exact covered_plainSplit
  · unfold splitLargeBlocks
    split
    · exact Slice.after_len_le hm le_rfl
    · rename_i none
      simpa using none

theorem splitLargeBlocks_plain_longLast :
    Slice.Undisturbed ⟨[⟨0, 1⟩, ⟨4, 5⟩], 3, by decide⟩ 2 ∧
    splitLargeBlocks ⟨[⟨0, 1⟩, ⟨4, 5⟩], 3, by decide⟩ 2 = plainSplit 2 [⟨0, 1⟩, ⟨4, 5⟩] := by
  have undisturbed : Slice.Undisturbed ⟨[⟨0, 1⟩, ⟨4, 5⟩], 3, by decide⟩ 2 := by
    rintro i hi ⟨b, hb, large⟩
    have early : i ≤ 1 := Nat.le_of_lt_succ hi
    interval_cases i
    · cases hb
    · rw [List.mem_singleton.mp hb] at large
      exact absurd large (by decide)
  exact ⟨undisturbed, (splitLargeBlocks_plain _ 2 (by decide)).1.mpr undisturbed⟩

/-- An extent of twice the permitted length in front of another one. -/
def longFirst : Slice :=
  ⟨[⟨0, 2 * maxBlockLen⟩, ⟨4 * maxBlockLen, 4096⟩], 2, le_rfl⟩

/-- The second extent is overwritten by the second half of the first one before it is read:
its bytes are lost and the half is returned twice. -/
theorem splitLargeBlocks_loses_block :
    splitLargeBlocks longFirst maxBlockLen =
      [⟨0, maxBlockLen⟩, ⟨maxBlockLen, maxBlockLen⟩, ⟨maxBlockLen, maxBlockLen⟩] ∧
    splitLargeBlocks longFirst maxBlockLen ≠ plainSplit maxBlockLen longFirst.elems ∧
    Covered longFirst.elems (4 * maxBlockLen) ∧
    ¬ Covered (splitLargeBlocks longFirst maxBlockLen) (4 * maxBlockLen) := by
  have cut : splitBlock maxBlockLen ⟨0, 2 * maxBlockLen⟩ =
      [⟨0, maxBlockLen⟩, ⟨maxBlockLen, maxBlockLen⟩] := by
    rw [splitBlock, if_neg (by decide), pieces_pos (by decide), pieces_pos (by decide)]
    exact congrArg _ (congrArg _ (pieces_zero _ _))
  have result : splitLargeBlocks longFirst maxBlockLen =
      [⟨0, maxBlockLen⟩, ⟨maxBlockLen, maxBlockLen⟩, ⟨maxBlockLen, maxBlockLen⟩] := by
    have large : (longFirst.elems.any fun b => b.len > maxBlockLen) = true := by decide
    have first : longFirst.after maxBlockLen 1 = ⟨[⟨0, maxBlockLen⟩, ⟨maxBlockLen, maxBlockLen⟩],
        [⟨0, maxBlockLen⟩, ⟨maxBlockLen, maxBlockLen⟩]⟩ := by
      rw [Slice.after_succ]
      simp [Slice.after, Splitting.turn, longFirst, cut, Splitting.append]
    have second : (longFirst.after maxBlockLen 2).out =
        [⟨0, maxBlockLen⟩, ⟨maxBlockLen, maxBlockLen⟩, ⟨maxBlockLen, maxBlockLen⟩] := by
      rw [Slice.after_succ, first]
      simp [Splitting.turn, splitBlock, Splitting.append]
    rw [splitLargeBlocks, if_pos large]
    exact second
  have lost : ¬ Covered (splitLargeBlocks longFirst maxBlockLen) (4 * maxBlockLen) := by
    rw [result]
    decide
  have covered : Covered longFirst.elems (4 * maxBlockLen) := by decide
  refine ⟨result, fun same => lost ?_, covered, lost⟩
  rw [same]
  exact covered_plainSplit.mpr covered

end CephVolsync.CephFs
