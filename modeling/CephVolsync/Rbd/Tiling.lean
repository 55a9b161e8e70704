import CephVolsync.Rbd.Adapter

/-! The blocks of `rbdIterAdapter`: called until it reports the end, `Next` returns the plan of
the diff. The plan ascends, and in full-diff mode it tiles the volume. -/

namespace CephVolsync.Rbd

open Extents Pipeline

variable {full : Bool} {total size : ℕ} {extents : List Extent}

theorem segments_ascend (full : Bool) (total pos : ℕ) (extents : List Extent) :
    Ascends pos ((segments full total pos extents).map (·.range)) := by
  induction extents generalizing pos with
  | nil =>
    rw [segments]
    split
    · exact ⟨le_rfl, trivial⟩
    · trivial
  | cons e rest ih =>
    rw [segments]
    split_ifs with gap behind
    · refine ⟨le_rfl, ?_, ih e.stop⟩
      simp only [Extent.stop]
      omega
    · exact ih pos
    · refine ⟨le_max_right _ _, ?_⟩
      have stop : max e.offset pos + (e.stop - max e.offset pos) = e.stop := by
        simp only [Extent.stop] at behind ⊢
        omega
      rw [Extent.stop, stop]
      exact ih e.stop

theorem segments_tile {pos : ℕ} (h : Diff total extents) (hpos : pos ≤ total) :
    Tiles pos total ((segments true total pos extents).map (·.range)) := by
  induction extents generalizing pos with
  | nil =>
    rw [segments]
    split_ifs with left
    · exact ⟨rfl, Nat.add_sub_of_le hpos⟩
    · exact hpos.antisymm (Nat.le_of_not_lt fun lt => left ⟨rfl, lt⟩)
  | cons e rest ih =>
    have inside := h.inside e List.mem_cons_self
    rw [segments]
    split_ifs with gap behind
    · refine ⟨rfl, ?_, ih h.tail inside⟩
      simp only [Extent.stop]
      omega
    · exact ih h.tail hpos
    · have start : max e.offset pos = pos := max_eq_right (Nat.le_of_not_lt fun lt => gap ⟨rfl, lt⟩)
      have stop : pos + (e.stop - pos) = e.stop := by omega
      simp only [start, List.map_cons]
      refine ⟨rfl, ?_⟩
      rw [Extent.stop, stop]
      exact ih h.tail inside

theorem cut_ranges (size : ℕ) (segs : List Segment) :
    (cut size segs).map (·.range) =
      (segs.map (·.range)).flatMap fun e => pieces size e.offset e.len := by
  simp [cut, List.map_flatMap, List.flatMap_map, Function.comp_def]

theorem flatMap_pieces_ascend {pos : ℕ} {es : List Extent} (h : Ascends pos es) :
    Ascends pos (es.flatMap fun e => pieces size e.offset e.len) := by
  induction es generalizing pos with
  | nil => trivial
  | cons e rest ih =>
    rw [List.flatMap_cons]
    exact ((pieces_tile size e.offset e.len).append_ascends (ih h.2)).mono h.1

theorem flatMap_pieces_tile {lo hi : ℕ} {es : List Extent} (h : Tiles lo hi es) :
    Tiles lo hi (es.flatMap fun e => pieces size e.offset e.len) := by
  induction es generalizing lo with
  | nil => exact h
  | cons e rest ih =>
    obtain ⟨rfl, h⟩ := h
    rw [List.flatMap_cons]
    exact (pieces_tile size e.offset e.len).append (ih h)

theorem plan_ascends (full : Bool) (total size : ℕ) (extents : List Extent) :
    Ascends 0 ((plan full total size extents).map (·.range)) := by
  rw [plan, cut_ranges]
  exact flatMap_pieces_ascend (segments_ascend full total 0 extents)

theorem plan_tiles (h : Diff total extents) :
    Tiles 0 total ((plan true total size extents).map (·.range)) := by
  rw [plan, cut_ranges]
  exact flatMap_pieces_tile (segments_tile h (Nat.zero_le _))

namespace RbdIterAdapter

/-- At most `calls` calls of `Next`, up to the first one that reports the end. -/
def collectAll : ℕ → RbdIterAdapter → List ChangeBlock × Bool
  | 0, _ => ([], false)
  | calls + 1, a =>
    match a.next with
    | (none, _) => ([], true)
    | (some b, a') => (b :: (collectAll calls a').1, (collectAll calls a').2)

structure Returns (a : RbdIterAdapter) (blocks : List ChangeBlock) : Prop where
  collected : ∀ calls, a.collectAll calls = (blocks.take calls, decide (blocks.length < calls))
  plan : blocks.map segmentOf = cut a.chunkSize a.remaining
  reqIDs : blocks.map (·.reqID) = List.range' a.reqID blocks.length
  header : ∀ b ∈ blocks, b.filePath = devicePath ∧ b.totalSize = a.totalSize

theorem Emits.returns {a a' : RbdIterAdapter} {b : ChangeBlock} (h : Emits a a' b)
    (hnext : a.next = (some b, a')) {blocks : List ChangeBlock} (rest : a'.Returns blocks) :
    a.Returns (b :: blocks) := by
  refine ⟨fun calls => ?_, ?_, ?_, ?_⟩
  · cases calls with
    | zero => rfl
    | succ calls =>
      have tail := rest.collected calls
      simp only [collectAll, hnext, tail, List.take_succ_cons, List.length_cons,
        Nat.add_lt_add_iff_right]
  · rw [List.map_cons, rest.plan, h.plan]
    rfl
  · rw [List.map_cons, rest.reqIDs, h.reqID, h.header.2.2, List.length_cons, List.range'_succ]
  · intro c hc
    rcases List.mem_cons.mp hc with rfl | hc
    · exact ⟨h.header.1, h.header.2.1⟩
    · rw [← h.same.1]
      exact rest.header c hc

theorem Loaded.returns {a : RbdIterAdapter} (h : a.Loaded) : ∃ blocks, a.Returns blocks := by
  generalize hplan : cut a.chunkSize a.remaining = segs
  induction segs generalizing a with
  | nil =>
    rcases a.next_cases h with ⟨b, a', -, emits⟩ | ⟨a', hnext, -, -, -, -⟩
    · rw [emits.plan] at hplan
      cases hplan
    · refine ⟨[], fun calls => ?_, hplan.symm, rfl, by simp⟩
      cases calls with
      | zero => rfl
      | succ calls => simp only [collectAll, hnext, List.take_nil, List.length_nil,
          Nat.zero_lt_succ, decide_true]
  | cons s segs ih =>
    rcases a.next_cases h with ⟨b, a', hnext, emits⟩ | ⟨a', -, -, -, none, -⟩
    · rw [emits.plan] at hplan
      obtain ⟨blocks, rest⟩ := ih emits.loaded (List.cons.inj hplan).2
      exact ⟨b :: blocks, emits.returns hnext rest⟩
    · rw [none] at hplan
      cases hplan

theorem new_loaded (iterErr : Bool) (h : Diff total extents) :
    (new ⟨extents, iterErr⟩ total size full).Loaded :=
  ⟨by simp [new], by simp [new], by simp [new], h.nonempty⟩

theorem new_plan (iterErr : Bool) (full : Bool) (total size : ℕ) (extents : List Extent) :
    cut size (new ⟨extents, iterErr⟩ total size full).remaining = plan full total size extents := by
  simp [new, remaining, endPos, plan]

/-- `rbdIterAdapter` tiles the volume. -/
theorem adapter_tiles_volume (full iterErr : Bool) (total size : ℕ) (extents : List Extent)
    (hd : Diff total extents) (hsize : 0 < size) :
    ∃ blocks : List ChangeBlock,
      (∀ calls, (new ⟨extents, iterErr⟩ total size full).collectAll calls =
        (blocks.take calls, decide (blocks.length < calls))) ∧
      blocks.map (·.reqID) = List.range blocks.length ∧
      (∀ b ∈ blocks, b.filePath = devicePath ∧ b.totalSize = total ∧ 0 < b.len ∧ b.len ≤ size) ∧
      blocks.Pairwise (fun b c => b.offset + b.len ≤ c.offset ∧ b.offset < c.offset) ∧
      (full = true →
        Tiles 0 total (blocks.map fun b => (segmentOf b).range) ∧
        (∀ x, (∃ b ∈ blocks, (segmentOf b).range.Contains x) ↔ x < total) ∧
        ∀ x < total, (∃ b ∈ blocks, b.isZero = true ∧ (segmentOf b).range.Contains x) ↔
          ¬Covered extents x) ∧
      (full = false →
        (∀ b ∈ blocks, b.isZero = false) ∧
        ∀ x, (∃ b ∈ blocks, (segmentOf b).range.Contains x) ↔ Covered extents x) := by
  obtain ⟨blocks, returns⟩ := (new_loaded iterErr hd : (new _ total size full).Loaded).returns
  have planned : blocks.map segmentOf = plan full total size extents :=
    returns.plan.trans (new_plan iterErr full total size extents)
  have fits : ∀ b ∈ blocks, (segmentOf b).Fits full total 0 extents ∧ b.len ≤ size := fun b hb =>
    plan_fits hd hsize (planned ▸ List.mem_map_of_mem hb)
  have covers : ∀ x, Covered extents x ∨ (full = true ∧ x < total) →
      ∃ b ∈ blocks, (segmentOf b).range.Contains x := by
    intro x hx
    obtain ⟨t, ht, hcon⟩ := @plan_covers full total size extents hd x hx
    rw [← planned] at ht
    obtain ⟨b, hb, rfl⟩ := List.mem_map.mp ht
    exact ⟨b, hb, hcon⟩
  have ascends : Ascends 0 (blocks.map fun b => (segmentOf b).range) := by
    have := plan_ascends full total size extents
    rwa [← planned, List.map_map] at this
  refine ⟨blocks, returns.collected, ?_, fun b hb => ?_, ?_, ?_, ?_⟩
  · rw [List.range_eq_range']
    exact returns.reqIDs
  · exact ⟨(returns.header b hb).1, (returns.header b hb).2, (fits b hb).1.nonempty, (fits b hb).2⟩
  · refine (List.pairwise_map.mp ascends.pairwise).imp_of_mem fun hb _ hle => ⟨hle, ?_⟩
    exact (Nat.lt_add_of_pos_right (fits _ hb).1.nonempty).trans_le hle
  · rintro rfl
    have tiles : Tiles 0 total (blocks.map fun b => (segmentOf b).range) := by
      have := @plan_tiles total size extents hd
      rwa [← planned, List.map_map] at this
    refine ⟨tiles, fun x => ?_, fun x hx => ⟨?_, fun uncovered => ?_⟩⟩
    · have covered := tiles.covered_iff x
      simpa [Covered] using covered
    · rintro ⟨b, hb, zero, hcon⟩
      exact ((fits b hb).1.zero zero).2 x hcon
    · obtain ⟨b, hb, hcon⟩ := covers x (.inr ⟨rfl, hx⟩)
      refine ⟨b, hb, ?_, hcon⟩
      by_contra data
      exact uncovered ((fits b hb).1.data (Bool.eq_false_of_not_eq_true data) x hcon)
  · rintro rfl
    have data : ∀ b ∈ blocks, b.isZero = false := by
      intro b hb
      by_contra zero
      exact Bool.false_ne_true ((fits b hb).1.zero (Bool.eq_true_of_not_eq_false zero)).1
    refine ⟨data, fun x => ⟨?_, fun covered => covers x (.inl covered)⟩⟩
    rintro ⟨b, hb, hcon⟩
    exact (fits b hb).1.data (data b hb) x hcon

/-- The second extent lies in the first one and the third one overlaps it. -/
def nestedExtents : List Extent := [⟨2, 4⟩, ⟨3, 1⟩, ⟨4, 6⟩]

theorem adapter_tiles_volume_nested : ∃ blocks : List ChangeBlock,
    blocks.map segmentOf = [⟨⟨0, 2⟩, true⟩, ⟨⟨2, 4⟩, false⟩, ⟨⟨6, 4⟩, false⟩, ⟨⟨10, 4⟩, true⟩,
      ⟨⟨14, 4⟩, true⟩, ⟨⟨18, 2⟩, true⟩] ∧
    blocks.map (·.reqID) = List.range 6 ∧ Tiles 0 20 (blocks.map fun b => (segmentOf b).range) := by
  obtain ⟨blocks, collected, reqIDs, -, -, full, -⟩ := adapter_tiles_volume true false 20 4
    nestedExtents ⟨by decide, by decide, by decide⟩ (by decide)
  have ended : ((new ⟨nestedExtents, false⟩ 20 4 true).collectAll 7).2 = true := by decide
  have six : ((new ⟨nestedExtents, false⟩ 20 4 true).collectAll 7).1.map segmentOf =
      [⟨⟨0, 2⟩, true⟩, ⟨⟨2, 4⟩, false⟩, ⟨⟨6, 4⟩, false⟩, ⟨⟨10, 4⟩, true⟩, ⟨⟨14, 4⟩, true⟩,
        ⟨⟨18, 2⟩, true⟩] := by decide
  rw [collected 7] at ended six
  have short : blocks.length ≤ 7 := (of_decide_eq_true ended).le
  rw [List.take_of_length_le short] at six
  have length : blocks.length = 6 := by
    have := congrArg List.length six
    rwa [List.length_map] at this
  exact ⟨blocks, six, length ▸ reqIDs, (full rfl).1⟩

end RbdIterAdapter

end CephVolsync.Rbd
