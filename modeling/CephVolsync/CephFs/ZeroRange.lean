import CephVolsync.Library.FileBytes
import CephVolsync.Rbd.Replication

/-! `zeroRange` of the CephFS destination (`internal/worker/cephfs/zero.go`) on the bytes of a
regular file. `fallocate` is whether the kernel punches the hole; if it does not,
`common.WriteZeros` writes the range in pieces of `zeroBufSize` bytes. -/

namespace CephVolsync.CephFs

open FileBytes Rbd

def writeZeros (file : List UInt8) (offset length : ℕ) : List UInt8 :=
  if _h : length = 0 then file
  else
    let n := min zeroBufSize length
    writeZeros (write file offset (List.replicate n 0)) (offset + n) (length - n)
termination_by length
decreasing_by simp only [zeroBufSize]; omega

def zeroRange (fallocate : Bool) (file : List UInt8) (offset length : ℕ) : List UInt8 :=
  if fallocate then punch file offset length else writeZeros file offset length

theorem writeZeros_eq (file : List UInt8) (offset length : ℕ) :
    writeZeros file offset length = write file offset (List.replicate length 0) := by
  induction length using Nat.strong_induction_on generalizing file offset with
  | h length ih =>
    rw [writeZeros]
    split_ifs with none
    · rw [none, List.replicate_zero, write_nil]
    · have pos : 0 < min zeroBufSize length := by
        simp only [zeroBufSize]
        omega
      have le : min zeroBufSize length ≤ length := min_le_right _ _
      generalize min zeroBufSize length = n at pos le
      have split : List.replicate length (0 : UInt8) =
          List.replicate n 0 ++ List.replicate (length - n) 0 := by
        rw [List.replicate_append_replicate, Nat.add_sub_cancel' le]
      have piece := write_append file (List.replicate n 0) (List.replicate (length - n) 0) offset
      rw [List.length_replicate] at piece
      rw [ih (length - n) (by omega), split, piece]

/-- The two ways of zeroing leave the same file if and only if the range is empty or ends
inside the file. -/
theorem zeroRange_same_iff (file : List UInt8) (offset length : ℕ) :
    zeroRange true file offset length = zeroRange false file offset length ↔
      length = 0 ∨ offset + length ≤ file.length := by
  rw [zeroRange, if_pos rfl, zeroRange, if_neg Bool.false_ne_true, writeZeros_eq,
    punch_eq_write_iff]

/-- A block that reaches behind the end of the file makes it longer in one of the ways. -/
theorem zeroRange_extends : zeroRange true [1, 2] 1 3 = [1, 0] ∧
    zeroRange false [1, 2] 1 3 = [1, 0, 0, 0] := by
  rw [zeroRange, zeroRange, if_neg Bool.false_ne_true, writeZeros_eq]
  decide

end CephVolsync.CephFs
