import Mathlib.Data.List.Basic
import Mathlib.Tactic.Ring
import Mathlib.Data.Nat.Basic
import Mathlib.Order.Lattice

/-! The bytes of a regular file. A write behind the end leaves a hole, which reads as zeros; a
hole that is punched without changing the size ends where the file ends. -/

namespace FileBytes

variable {α : Type*} [Zero α]

/-- A write of nothing does not extend the file. -/
def write (file : List α) (offset : ℕ) (data : List α) : List α :=
  if data = [] then file
  else (file ++ List.replicate (offset - file.length) 0).take offset ++ data ++
    file.drop (offset + data.length)

def punch (file : List α) (offset length : ℕ) : List α :=
  file.mapIdx fun i b => if offset ≤ i ∧ i < offset + length then 0 else b

variable {file data first second : List α} {offset length i : ℕ}

theorem write_nil : write file offset [] = file := if_pos rfl

theorem length_write (ne : data ≠ []) :
    (write file offset data).length = max file.length (offset + data.length) := by
  rw [write, if_neg ne]
  simp only [List.length_append, List.length_take, List.length_replicate, List.length_drop]
  omega

theorem getElem?_write (ne : data ≠ []) : (write file offset data)[i]? =
    if i < offset then (if i < file.length then file[i]? else some 0)
    else if i < offset + data.length then data[i - offset]? else file[i]? := by
  have front : ((file ++ List.replicate (offset - file.length) 0).take offset).length = offset := by
    simp only [List.length_take, List.length_append, List.length_replicate]
    omega
  rw [write, if_neg ne]
  split_ifs with before inside within
  · rw [List.append_assoc, List.getElem?_append_left (by omega), List.getElem?_take_of_lt before,
      List.getElem?_append_left inside]
  · rw [List.append_assoc, List.getElem?_append_left (by omega), List.getElem?_take_of_lt before,
      List.getElem?_append_right (by omega), List.getElem?_replicate, if_pos (by omega)]
  · rw [List.append_assoc, List.getElem?_append_right (by omega), front,
      List.getElem?_append_left (by omega)]
  · rw [List.getElem?_append_right (by rw [List.length_append]; omega), List.length_append, front,
      List.getElem?_drop]
    congr 1
    omega

theorem write_append (file first second : List α) (offset : ℕ) :
    write (write file offset first) (offset + first.length) second =
      write file offset (first ++ second) := by
  by_cases hf : first = []
  · rw [hf, write_nil, List.length_nil, Nat.add_zero, List.nil_append]
  by_cases hs : second = []
  · rw [hs, write_nil, List.append_nil]
  have ne : first ++ second ≠ [] := fun empty => hf (List.append_eq_nil_iff.mp empty).1
  have pos := List.length_pos_of_ne_nil hf
  refine List.ext_getElem? fun i => ?_
  rw [getElem?_write hs, length_write hf, getElem?_write hf, getElem?_write ne, List.length_append]
  by_cases before : i < offset
  · rw [if_pos (by omega), if_pos (by omega), if_pos before, if_pos before]
  rw [if_neg before, if_neg before]
  by_cases inside : i < offset + first.length
  · rw [if_pos inside, if_pos (by omega), if_pos inside, if_pos (by omega),
      List.getElem?_append_left (by omega)]
  rw [if_neg inside, if_neg inside, List.getElem?_append_right (by omega)]
  by_cases within : i < offset + first.length + second.length
  · rw [if_pos within, if_pos (by omega)]
    congr 1
    omega
  · rw [if_neg within, if_neg (by omega)]

theorem length_punch : (punch file offset length).length = file.length := List.length_mapIdx

theorem getElem?_punch : (punch file offset length)[i]? =
    if offset ≤ i ∧ i < offset + length ∧ i < file.length then some 0 else file[i]? := by
  rw [punch, List.getElem?_mapIdx]
  by_cases inside : i < file.length
  · rw [List.getElem?_eq_getElem inside, Option.map_some]
    by_cases hole : offset ≤ i ∧ i < offset + length
    · rw [if_pos hole, if_pos ⟨hole.1, hole.2, inside⟩]
    · rw [if_neg hole, if_neg fun h => hole ⟨h.1, h.2.1⟩]
  · rw [List.getElem?_eq_none (by omega), Option.map_none, if_neg fun h => inside h.2.2]

theorem punch_eq_write_iff :
    punch file offset length = write file offset (List.replicate length 0) ↔
    length = 0 ∨ offset + length ≤ file.length := by
  by_cases none : length = 0
  · refine iff_of_true ?_ (.inl none)
    rw [none, List.replicate_zero, write_nil]
    refine List.ext_getElem? fun i => ?_
    rw [getElem?_punch, if_neg (by omega)]
  have ne : List.replicate length (0 : α) ≠ [] := by
    rw [Ne, List.replicate_eq_nil_iff]
    exact none
  constructor
  · intro same
    have size := congrArg List.length same
    rw [length_punch, length_write ne, List.length_replicate] at size
    omega
  · intro h
    have fit := h.resolve_left none
    refine List.ext_getElem? fun i => ?_
    rw [getElem?_write ne, List.length_replicate, getElem?_punch]
    by_cases before : i < offset
    · rw [if_pos before, if_neg (by omega), if_pos (by omega)]
    by_cases inside : i < offset + length
    · rw [if_neg before, if_pos inside, if_pos (by omega), List.getElem?_replicate,
        if_pos (by omega)]
    · rw [if_neg before, if_neg inside, if_neg (by omega)]

end FileBytes
