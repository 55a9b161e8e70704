import CephVolsync.Basic
import CephVolsync.Library.Hex

/-! CSI identifiers (`internal/ceph/volid/volid.go`). `DecomposeCSIID` computes with `uint16`
lengths and indices, fills its receiver field by field, and stops with an error or, where a
slice is out of bounds, with a panic. -/

namespace CephVolsync.Ceph

open Hex

structure CSIIdentifier where
  locationID : Int64
  encodingVersion : UInt16
  clusterID : GoString
  objectUUID : GoString
  deriving DecidableEq, Repr

def defaultEncodingVersion : UInt16 := 1

def maxVolIDLen : ℕ := 128

def knownFieldSize : ℕ := 64

def uuidSize : ℕ := 36

/-- The text of an error of this package, or an error of `hex.DecodeString`. -/
inductive VolidErr where
  | text (message : GoString)
  | hex (err : Hex.Err)
  deriving DecidableEq, Repr

def lengthOverflow : VolidErr := .text (goString "CSI ID encoding length overflow")

def invalidUUID : VolidErr := .text (goString "CSI ID invalid object uuid")

def stringUnderflow : VolidErr :=
  .text (goString "failed to decode CSI identifier, string underflow")

def sizeMismatch : VolidErr :=
  .text (goString "failed to decode CSI identifier, string size mismatch")

namespace CSIIdentifier

/-- The version that is written: it is not set by default anywhere else. -/
def writtenVersion (ci : CSIIdentifier) : UInt16 :=
  if ci.encodingVersion = 0 then defaultEncodingVersion else ci.encodingVersion

def composeCSIID (ci : CSIIdentifier) : Except VolidErr GoString :=
  if knownFieldSize + ci.clusterID.length > maxVolIDLen then .error lengthOverflow
  else if ci.objectUUID.length ≠ uuidSize then .error invalidUUID
  else
    let versionEncodedHex := encode (bigEndian 2 ci.writtenVersion.toNat)
    let clusterIDLength := encode (bigEndian 2 (UInt16.ofNat ci.clusterID.length).toNat)
    let poolIDEncodedHex := encode (bigEndian 8 ci.locationID.toUInt64.toNat)
    .ok ((goString "-").intercalate
      [versionEncodedHex, clusterIDLength, ci.clusterID, poolIDEncodedHex, ci.objectUUID])

end CSIIdentifier

/-- A computation on a receiver. It panics, or it leaves a receiver and returns a value or an
error. -/
abbrev Decode := ExceptT VolidErr (StateT CSIIdentifier Option)

namespace Decode

def panics {α : Type} : Decode α := ExceptT.lift (StateT.lift none)

def returnIf (cond : Prop) [Decidable cond] (err : VolidErr) : Decode Unit :=
  if cond then throw err else pure ()

def slice (s : GoString) (lo hi : UInt16) : Decode GoString :=
  if lo.toNat ≤ hi.toNat ∧ hi.toNat ≤ s.length then pure ((s.take hi.toNat).drop lo.toNat)
  else panics

def decodeString (s : GoString) : Decode GoString :=
  match decode s with
  | .ok bytes => pure bytes
  | .error err => throw (.hex err)

def bigEndianUint16 (b : GoString) : Decode UInt16 :=
  if 2 ≤ b.length then pure (UInt16.ofNat (number (b.take 2))) else panics

def bigEndianUint64 (b : GoString) : Decode UInt64 :=
  if 8 ≤ b.length then pure (UInt64.ofNat (number (b.take 8))) else panics

end Decode

section

open Decode

/-- The part of `DecomposeCSIID` behind the test of the cluster id's length. -/
def decomposeFields (composedCSIID : GoString) (bytesToProcess clusterIDLength : UInt16) :
    Decode Unit := do
  let clusterID ← slice composedCSIID 10 (10 + clusterIDLength)
  modify fun ci => { ci with clusterID := clusterID }
  let bytesToProcess := bytesToProcess - (clusterIDLength + 1)
  let nextFieldStartIdx := 10 + clusterIDLength + 1
  returnIf (bytesToProcess < 17) stringUnderflow
  let buf64 ← decodeString (← slice composedCSIID nextFieldStartIdx (nextFieldStartIdx + 16))
  let locationID ← bigEndianUint64 buf64
  modify fun ci => { ci with locationID := locationID.toInt64 }
  let bytesToProcess := bytesToProcess - 17
  let nextFieldStartIdx := nextFieldStartIdx + 17
  returnIf (bytesToProcess ≠ UInt16.ofNat uuidSize) sizeMismatch
  let objectUUID ← slice composedCSIID nextFieldStartIdx (nextFieldStartIdx + UInt16.ofNat uuidSize)
  modify fun ci => { ci with objectUUID := objectUUID }

def decomposeCSIID (composedCSIID : GoString) : Decode Unit := do
  let bytesToProcess := UInt16.ofNat composedCSIID.length
  returnIf (bytesToProcess < UInt16.ofNat knownFieldSize) stringUnderflow
  let buf16 ← decodeString (← slice composedCSIID 0 4)
  let encodingVersion ← bigEndianUint16 buf16
  modify fun ci => { ci with encodingVersion := encodingVersion }
  let bytesToProcess := bytesToProcess - 5
  let buf16 ← decodeString (← slice composedCSIID 5 9)
  let clusterIDLength ← bigEndianUint16 buf16
  let bytesToProcess := bytesToProcess - 5
  returnIf (bytesToProcess < clusterIDLength + 1) stringUnderflow
  decomposeFields composedCSIID bytesToProcess clusterIDLength

end

namespace Decode

variable {α β : Type}

def exec (x : Decode α) (ci : CSIIdentifier) : Option (Except VolidErr α × CSIIdentifier) :=
  x.run.run ci

variable {x : Decode α} {f : α → Decode β} {ci ci' : CSIIdentifier} {a : α} {e : VolidErr}

theorem exec_bind (x : Decode α) (f : α → Decode β) (ci : CSIIdentifier) :
    exec (x >>= f) ci = (exec x ci).bind fun r =>
      match r.1 with
      | .ok a => exec (f a) r.2
      | .error e => some (.error e, r.2) := by
  simp only [exec, ExceptT.run_bind, StateT.run_bind]
  cases x.run.run ci with
  | none => rfl
  | some r =>
    obtain ⟨_ | _, _⟩ := r
    · rfl
    · rfl

theorem exec_bind_ok (h : exec x ci = some (.ok a, ci')) : exec (x >>= f) ci = exec (f a) ci' := by
  rw [exec_bind, h]
  rfl

theorem exec_bind_error (h : exec x ci = some (.error e, ci')) :
    exec (x >>= f) ci = some (.error e, ci') := by
  rw [exec_bind, h]
  rfl

theorem exec_bind_panics (h : exec x ci = none) : exec (x >>= f) ci = none := by
  rw [exec_bind, h]
  rfl

theorem exec_modify (g : CSIIdentifier → CSIIdentifier) (ci : CSIIdentifier) :
    exec (modify g) ci = some (.ok (), g ci) :=
  rfl

theorem exec_returnIf {cond : Prop} [Decidable cond] (h : cond) (err : VolidErr)
    (ci : CSIIdentifier) : exec (returnIf cond err) ci = some (.error err, ci) := by
  rw [returnIf, if_pos h]
  rfl

theorem exec_returnIf_not {cond : Prop} [Decidable cond] (h : ¬cond) (err : VolidErr)
    (ci : CSIIdentifier) : exec (returnIf cond err) ci = some (.ok (), ci) := by
  rw [returnIf, if_neg h]
  rfl

theorem exec_slice {s : GoString} {lo hi : UInt16} {m k : ℕ} (hlo : lo.toNat = m)
    (hhi : hi.toNat = k) (order : m ≤ k) (bound : k ≤ s.length) (ci : CSIIdentifier) :
    exec (slice s lo hi) ci = some (.ok ((s.take k).drop m), ci) := by
  rw [slice, hlo, hhi, if_pos ⟨order, bound⟩]
  rfl

theorem exec_slice_panics {s : GoString} {lo hi : UInt16} (order : ¬lo.toNat ≤ hi.toNat)
    (ci : CSIIdentifier) : exec (slice s lo hi) ci = none := by
  rw [slice, if_neg fun h => order h.1]
  rfl

theorem exec_decodeString {s bytes : GoString} (h : decode s = .ok bytes) (ci : CSIIdentifier) :
    exec (decodeString s) ci = some (.ok bytes, ci) := by
  rw [decodeString, h]
  rfl

theorem exec_decodeString_error {s : GoString} {err : Hex.Err} (h : decode s = .error err)
    (ci : CSIIdentifier) : exec (decodeString s) ci = some (.error (.hex err), ci) := by
  rw [decodeString, h]
  rfl

theorem decodeString_ne_none (s : GoString) (ci : CSIIdentifier) :
    exec (decodeString s) ci ≠ none := by
  cases h : decode s with
  | error err =>
    rw [exec_decodeString_error h]
    exact Option.some_ne_none _
  | ok bytes =>
    rw [exec_decodeString h]
    exact Option.some_ne_none _

theorem decodeString_ok {s bytes : GoString}
    (h : exec (decodeString s) ci = some (.ok bytes, ci')) : decode s = .ok bytes := by
  cases hd : decode s with
  | error err =>
    rw [exec_decodeString_error hd] at h
    cases h
  | ok more =>
    rw [exec_decodeString hd] at h
    cases h
    rfl

theorem exec_uint16 {b : GoString} (h : b.length = 2) (ci : CSIIdentifier) :
    exec (bigEndianUint16 b) ci = some (.ok (UInt16.ofNat (number b)), ci) := by
  rw [bigEndianUint16, if_pos h.ge, List.take_of_length_le h.le]
  rfl

theorem exec_uint64 {b : GoString} (h : b.length = 8) (ci : CSIIdentifier) :
    exec (bigEndianUint64 b) ci = some (.ok (UInt64.ofNat (number b)), ci) := by
  rw [bigEndianUint64, if_pos h.ge, List.take_of_length_le h.le]
  rfl

theorem exec_bind_ne_none (h : exec x ci ≠ none)
    (next : ∀ a ci', exec x ci = some (.ok a, ci') → exec (f a) ci' ≠ none) :
    exec (x >>= f) ci ≠ none := by
  cases hx : exec x ci with
  | none => exact absurd hx h
  | some r =>
    obtain ⟨_ | a, ci'⟩ := r
    · rw [exec_bind_error hx]
      exact Option.some_ne_none _
    · rw [exec_bind_ok hx]
      exact next a ci' hx

theorem length_slice {s : GoString} {lo hi : ℕ} (bound : hi ≤ s.length) :
    ((s.take hi).drop lo).length = hi - lo := by
  rw [List.length_drop, List.length_take, min_eq_left bound]

theorem index_add {a b : UInt16} {m k : ℕ} (ha : a.toNat = m) (hb : b.toNat = k)
    (h : m + k < 65536) : (a + b).toNat = m + k := by
  rw [UInt16.toNat_add, ha, hb]
  exact Nat.mod_eq_of_lt h

theorem index_sub {a b : UInt16} {m k : ℕ} (ha : a.toNat = m) (hb : b.toNat = k) (h : k ≤ m) :
    (a - b).toNat = m - k := by
  rw [UInt16.toNat_sub_of_le _ _ (by rw [UInt16.le_iff_toNat_le, ha, hb]; exact h), ha, hb]

structure Places (bytesToProcess clusterIDLength : UInt16) (r c : ℕ) : Prop where
  left : (bytesToProcess - (clusterIDLength + 1)).toNat = r - (c + 1)
  clusterEnd : (10 + clusterIDLength).toNat = 10 + c
  poolStart : (10 + clusterIDLength + 1).toNat = 11 + c

theorem places {n cl : UInt16} {r c : ℕ} (hn : n.toNat = r) (hc : cl.toNat = c)
    (fit : c + 1 ≤ r) (small : r + 10 < 65536) : Places n cl r c := by
  have ten : (10 : UInt16).toNat = 10 := rfl
  have one : (1 : UInt16).toNat = 1 := rfl
  have clusterEnd := index_add ten hc (by omega)
  refine ⟨index_sub hn (index_add hc one (by omega)) (by omega), clusterEnd, ?_⟩
  rw [index_add clusterEnd one (by omega)]
  omega

theorem decomposeFields_ne_none {s : GoString} {n cl : UInt16} (ci : CSIIdentifier)
    (hn : n.toNat + 10 ≤ s.length) (small : n.toNat + 10 < 65536) (fit : cl.toNat + 1 ≤ n.toNat) :
    exec (decomposeFields s n cl) ci ≠ none := by
  obtain ⟨left, clusterEnd, poolStart⟩ := places (rfl : n.toNat = _) rfl fit small
  have ten : (10 : UInt16).toNat = 10 := rfl
  have sixteen : (16 : UInt16).toNat = 16 := rfl
  have seventeen : (17 : UInt16).toNat = 17 := rfl
  have size : (UInt16.ofNat uuidSize).toNat = 36 := rfl
  rw [decomposeFields, exec_bind_ok (exec_slice ten clusterEnd (by omega) (by omega) _),
    exec_bind_ok (exec_modify _ _)]
  by_cases short : n - (cl + 1) < 17
  · rw [exec_bind_error (exec_returnIf short _ _)]
    exact Option.some_ne_none _
  rw [exec_bind_ok (exec_returnIf_not short _ _)]
  rw [UInt16.lt_iff_toNat_lt, left, seventeen] at short
  have poolEnd := index_add poolStart sixteen (by omega)
  rw [exec_bind_ok (exec_slice poolStart poolEnd (by omega) (by omega) _)]
  refine exec_bind_ne_none (decodeString_ne_none _ _) fun bytes ci' hd => ?_
  have eight := length_decode (decodeString_ok hd)
  rw [length_slice (by omega)] at eight
  rw [exec_bind_ok (exec_uint64 (by omega) _), exec_bind_ok (exec_modify _ _)]
  by_cases mismatch : n - (cl + 1) - 17 ≠ UInt16.ofNat uuidSize
  · rw [exec_bind_error (exec_returnIf mismatch _ _)]
    exact Option.some_ne_none _
  rw [exec_bind_ok (exec_returnIf_not mismatch _ _)]
  have rest := index_sub left seventeen (by omega)
  rw [not_not.mp mismatch, size] at rest
  have uuidStart := index_add poolStart seventeen (by omega)
  have uuidEnd := index_add uuidStart size (by omega)
  rw [exec_bind_ok (exec_slice uuidStart uuidEnd (by omega) (by omega) _), exec_modify]
  exact Option.some_ne_none _

end Decode

open Decode

theorem eq_of_number {bytes : GoString} (two : bytes.length = 2) (h : number bytes = 65535) :
    bytes = [255, 255] := by
  obtain ⟨a, b, rfl⟩ := List.length_eq_two.mp two
  have ha := a.toNat_lt
  have hb := b.toNat_lt
  simp only [number, List.foldl_cons, List.foldl_nil] at h
  rw [← UInt8.ofNat_toNat (x := a), ← UInt8.ofNat_toNat (x := b), show a.toNat = 255 by omega,
    show b.toNat = 255 by omega]
  rfl

theorem number_lt {bytes : GoString} (two : bytes.length = 2) : number bytes < 65536 := by
  obtain ⟨a, b, rfl⟩ := List.length_eq_two.mp two
  have ha := a.toNat_lt
  have hb := b.toNat_lt
  simp only [number, List.foldl_cons, List.foldl_nil]
  omega

/-- `DecomposeCSIID` panics if and only if the length of the cluster id is the largest one: then
`clusterIDLength + 1` is zero and the slice `[10:9]` is out of bounds. -/
theorem decompose_panics_iff (composedCSIID : GoString) (ci : CSIIdentifier) :
    exec (decomposeCSIID composedCSIID) ci = none ↔ 64 ≤ composedCSIID.length % 65536 ∧
      (∃ version, decode (composedCSIID.take 4) = .ok version) ∧
      decode ((composedCSIID.take 9).drop 5) = .ok [255, 255] := by
  generalize composedCSIID = s
  have length : (UInt16.ofNat s.length).toNat = s.length % 65536 := UInt16.toNat_ofNat'
  have known : (UInt16.ofNat knownFieldSize).toNat = 64 := rfl
  have zero : (0 : UInt16).toNat = 0 := rfl
  have five : (5 : UInt16).toNat = 5 := rfl
  have nine : (9 : UInt16).toNat = 9 := rfl
  have four : (4 : UInt16).toNat = 4 := rfl
  rw [decomposeCSIID]
  by_cases short : UInt16.ofNat s.length < UInt16.ofNat knownFieldSize
  · rw [exec_bind_error (exec_returnIf short _ _)]
    rw [UInt16.lt_iff_toNat_lt, length, known] at short
    exact iff_of_false (Option.some_ne_none _) fun h => by omega
  rw [exec_bind_ok (exec_returnIf_not short _ _)]
  rw [UInt16.lt_iff_toNat_lt, length, known] at short
  have enough : 64 ≤ s.length := (Nat.not_lt.mp short).trans (Nat.mod_le _ _)
  rw [exec_bind_ok (exec_slice zero four (by omega) (by omega) _), List.drop_zero]
  cases hv : decode (s.take 4) with
  | error err =>
    rw [exec_bind_error (exec_decodeString_error hv ci)]
    exact iff_of_false (Option.some_ne_none _) fun ⟨_, ⟨_, h⟩, _⟩ => by cases h
  | ok version =>
    have two := length_decode hv
    rw [List.length_take, min_eq_left (by omega)] at two
    rw [exec_bind_ok (exec_decodeString hv ci), exec_bind_ok (exec_uint16 (by omega) _),
      exec_bind_ok (exec_modify _ _), exec_bind_ok (exec_slice five nine (by omega) (by omega) _)]
    cases hl : decode ((s.take 9).drop 5) with
    | error err =>
      rw [exec_bind_error (exec_decodeString_error hl _)]
      exact iff_of_false (Option.some_ne_none _) fun ⟨_, _, h⟩ => by cases h
    | ok bytes =>
      have two' := length_decode hl
      rw [length_slice (by omega)] at two'
      have small := @number_lt bytes (by omega)
      have cluster : (UInt16.ofNat (number bytes)).toNat = number bytes :=
        UInt16.toNat_ofNat_of_lt' small
      have left : (UInt16.ofNat s.length - 5 - 5).toNat = s.length % 65536 - 5 - 5 :=
        index_sub (index_sub length five (by omega)) five (by omega)
      rw [exec_bind_ok (exec_decodeString hl _), exec_bind_ok (exec_uint16 (by omega) _)]
      -- the length plus one is zero in `uint16` for the largest length only
      by_cases largest : bytes = [255, 255]
      · subst largest
        have fits : ¬UInt16.ofNat s.length - 5 - 5 < UInt16.ofNat (number [255, 255]) + 1 := by
          rw [UInt16.lt_iff_toNat_lt]
          exact Nat.not_lt_zero _
        rw [exec_bind_ok (exec_returnIf_not fits _ _), decomposeFields,
          exec_bind_panics (exec_slice_panics (by decide) _)]
        exact iff_of_true rfl ⟨Nat.not_lt.mp short, ⟨version, rfl⟩, rfl⟩
      · refine iff_of_false ?_ fun ⟨_, _, h⟩ => largest (Except.ok.inj h)
        have below : number bytes ≠ 65535 := fun h => largest (eq_of_number (by omega) h)
        have one : (1 : UInt16).toNat = 1 := rfl
        have next := index_add cluster one (by omega)
        by_cases missing : UInt16.ofNat s.length - 5 - 5 < UInt16.ofNat (number bytes) + 1
        · rw [exec_bind_error (exec_returnIf missing _ _)]
          exact Option.some_ne_none _
        rw [exec_bind_ok (exec_returnIf_not missing _ _)]
        rw [UInt16.lt_iff_toNat_lt, left, next] at missing
        have le : s.length % 65536 ≤ s.length := Nat.mod_le _ _
        exact decomposeFields_ne_none _ (by omega) (by omega) (by omega)

def longestCluster : GoString := goString "0001-ffff-" ++ List.replicate 54 0

theorem decompose_panics : longestCluster.length = 64 ∧
    exec (decomposeCSIID longestCluster) ⟨0, 0, [], []⟩ = none := by
  decide +kernel

theorem slice_middle (pre mid post : GoString) {m k : ℕ} (hm : pre.length = m)
    (hk : m + mid.length = k) : ((pre ++ (mid ++ post)).take k).drop m = mid := by
  rw [← List.append_assoc, ← hk, ← hm, ← List.length_append, List.take_left, List.drop_left]

theorem exec_decomposeFields {s bytes : GoString} {n cl : UInt16} {c : ℕ} (hn : n.toNat = c + 54)
    (hc : cl.toNat = c) (length : s.length = 64 + c) (small : c ≤ 64)
    (pool : decode ((s.take (11 + c + 16)).drop (11 + c)) = .ok bytes) (eight : bytes.length = 8)
    (ci : CSIIdentifier) : exec (decomposeFields s n cl) ci = some (.ok (), { ci with
      clusterID := (s.take (10 + c)).drop 10
      locationID := (UInt64.ofNat (number bytes)).toInt64
      objectUUID := (s.take (64 + c)).drop (28 + c) }) := by
  obtain ⟨left, clusterEnd, poolStart⟩ := places hn hc (by omega) (by omega)
  have ten : (10 : UInt16).toNat = 10 := rfl
  have sixteen : (16 : UInt16).toNat = 16 := rfl
  have seventeen : (17 : UInt16).toNat = 17 := rfl
  have size : (UInt16.ofNat uuidSize).toNat = 36 := rfl
  have enough : ¬n - (cl + 1) < 17 := by
    rw [UInt16.lt_iff_toNat_lt, left, seventeen]
    omega
  have exact : ¬n - (cl + 1) - 17 ≠ UInt16.ofNat uuidSize := by
    rw [not_not, ← UInt16.toNat_inj, index_sub left seventeen (by omega), size]
    omega
  have poolEnd := index_add poolStart sixteen (by omega)
  have uuidStart := index_add poolStart seventeen (by omega)
  have uuidEnd := index_add uuidStart size (by omega)
  have start : 11 + c + 17 = 28 + c := by omega
  have stop : 11 + c + 17 + 36 = 64 + c := by omega
  rw [decomposeFields, exec_bind_ok (exec_slice ten clusterEnd (by omega) (by omega) _),
    exec_bind_ok (exec_modify _ _), exec_bind_ok (exec_returnIf_not enough _ _),
    exec_bind_ok (exec_slice poolStart poolEnd (by omega) (by omega) _),
    exec_bind_ok (exec_decodeString pool _), exec_bind_ok (exec_uint64 eight _),
    exec_bind_ok (exec_modify _ _), exec_bind_ok (exec_returnIf_not exact _ _),
    exec_bind_ok (exec_slice uuidStart uuidEnd (by omega) (by omega) _), exec_modify, stop, start]

theorem number_uint16 (v : UInt16) : UInt16.ofNat (number (bigEndian 2 v.toNat)) = v := by
  rw [number_bigEndian, show 256 ^ 2 = 2 ^ 16 by norm_num, Nat.mod_eq_of_lt v.toNat_lt,
    UInt16.ofNat_toNat]

theorem number_uint64 (v : UInt64) : UInt64.ofNat (number (bigEndian 8 v.toNat)) = v := by
  rw [number_bigEndian, show 256 ^ 8 = 2 ^ 64 by norm_num, Nat.mod_eq_of_lt v.toNat_lt,
    UInt64.ofNat_toNat]

namespace CSIIdentifier

variable {ci : CSIIdentifier} {s : GoString}

theorem compose_cases (h : ci.composeCSIID = .ok s) : ci.clusterID.length ≤ 64 ∧
    ci.objectUUID.length = 36 ∧
    s = encode (bigEndian 2 ci.writtenVersion.toNat) ++ (goString "-" ++
      (encode (bigEndian 2 (UInt16.ofNat ci.clusterID.length).toNat) ++ (goString "-" ++
      (ci.clusterID ++ (goString "-" ++
      (encode (bigEndian 8 ci.locationID.toUInt64.toNat) ++
        (goString "-" ++ ci.objectUUID))))))) := by
  unfold composeCSIID at h
  split at h
  · cases h
  · rename_i long
    split at h
    · cases h
    · rename_i uuid
      simp only [knownFieldSize, maxVolIDLen] at long
      refine ⟨by omega, not_not.mp uuid, ?_⟩
      rw [← Except.ok.inj h]
      simp [List.intercalate, List.intersperse]

theorem fields_eq {version lengths pool : GoString} (hv : version.length = 4)
    (hl : lengths.length = 4)
    (hp : pool.length = 16) (hu : ci.objectUUID.length = 36)
    (h : s = version ++ (goString "-" ++
    (lengths ++ (goString "-" ++ (ci.clusterID ++ (goString "-" ++
      (pool ++ (goString "-" ++ ci.objectUUID)))))))) :
    s.length = 64 + ci.clusterID.length ∧ (s.take 4).drop 0 = version ∧
      (s.take 9).drop 5 = lengths ∧
    (s.take (10 + ci.clusterID.length)).drop 10 = ci.clusterID ∧
    (s.take (11 + ci.clusterID.length + 16)).drop (11 + ci.clusterID.length) = pool ∧
    (s.take (64 + ci.clusterID.length)).drop (28 + ci.clusterID.length) = ci.objectUUID := by
  have dash : (goString "-").length = 1 := by decide +kernel
  have total : s.length = 64 + ci.clusterID.length := by
    rw [h]
    simp only [List.length_append, hv, hl, hp, hu, dash]
    omega
  refine ⟨total, ?_, ?_, ?_, ?_, ?_⟩
  · rw [h]
    exact slice_middle [] _ _ rfl (by omega)
  · rw [h, ← List.append_assoc]
    exact slice_middle _ _ _ (by rw [List.length_append]; omega) (by omega)
  · rw [h, ← List.append_assoc, ← List.append_assoc, ← List.append_assoc]
    exact slice_middle _ _ _ (by simp only [List.length_append]; omega) (by omega)
  · rw [h, ← List.append_assoc, ← List.append_assoc, ← List.append_assoc, ← List.append_assoc,
      ← List.append_assoc]
    exact slice_middle _ _ _ (by simp only [List.length_append]; omega) (by omega)
  · rw [List.take_of_length_le total.le, h]
    simp only [← List.append_assoc]
    exact List.drop_left' (by simp only [List.length_append]; omega)

end CSIIdentifier

/-- Decoding gives back what was composed, whatever the receiver held before. -/
theorem compose_decompose (ci prior : CSIIdentifier) (composedCSIID : GoString)
    (h : ci.composeCSIID = .ok composedCSIID) :
    exec (decomposeCSIID composedCSIID) prior = some (.ok (), { ci with
      encodingVersion := if ci.encodingVersion = 0 then 1 else ci.encodingVersion }) ∧
    composedCSIID.length ≤ 128 := by
  generalize composedCSIID = s at h ⊢
  obtain ⟨long, uuid, text⟩ := ci.compose_cases h
  obtain ⟨total, version, lengths, cluster, pool, object⟩ := CSIIdentifier.fields_eq
    (by rw [length_encode, length_bigEndian]) (by rw [length_encode, length_bigEndian])
    (by rw [length_encode, length_bigEndian]) uuid text
  refine ⟨?_, by omega⟩
  have zero : (0 : UInt16).toNat = 0 := rfl
  have one : (1 : UInt16).toNat = 1 := rfl
  have four : (4 : UInt16).toNat = 4 := rfl
  have five : (5 : UInt16).toNat = 5 := rfl
  have nine : (9 : UInt16).toNat = 9 := rfl
  have known : (UInt16.ofNat knownFieldSize).toNat = 64 := rfl
  have clusterLength : (UInt16.ofNat ci.clusterID.length).toNat = ci.clusterID.length :=
    UInt16.toNat_ofNat_of_lt' (by simp only [UInt16.size]; omega)
  have length : (UInt16.ofNat s.length).toNat = s.length :=
    UInt16.toNat_ofNat_of_lt' (by simp only [UInt16.size]; omega)
  have left : (UInt16.ofNat s.length - 5 - 5).toNat = ci.clusterID.length + 54 := by
    rw [index_sub (index_sub length five (by omega)) five (by omega)]
    omega
  have enough : ¬UInt16.ofNat s.length < UInt16.ofNat knownFieldSize := by
    rw [UInt16.lt_iff_toNat_lt, length, known]
    omega
  have fits : ¬UInt16.ofNat s.length - 5 - 5 < UInt16.ofNat ci.clusterID.length + 1 := by
    rw [UInt16.lt_iff_toNat_lt, left, index_add clusterLength one (by omega)]
    omega
  rw [decomposeCSIID, exec_bind_ok (exec_returnIf_not enough _ _),
    exec_bind_ok (exec_slice zero four (by omega) (by omega) _), version,
    exec_bind_ok (exec_decodeString (decode_encode _) _),
    exec_bind_ok (exec_uint16 (length_bigEndian _ _) _), number_uint16,
    exec_bind_ok (exec_modify _ _),
    exec_bind_ok (exec_slice five nine (by omega) (by omega) _), lengths,
    exec_bind_ok (exec_decodeString (decode_encode _) _),
    exec_bind_ok (exec_uint16 (length_bigEndian _ _) _), number_uint16,
    exec_bind_ok (exec_returnIf_not fits _ _), exec_decomposeFields left clusterLength total long
      (by rw [pool, decode_encode]) (length_bigEndian _ _), cluster, object, number_uint64,
    Int64.toInt64_toUInt64]
  rfl

theorem compose_decompose_sample : ∃ s, CSIIdentifier.composeCSIID
      ⟨-1, 0, goString "a-b", List.replicate 36 45⟩ = .ok s ∧
    exec (decomposeCSIID s) ⟨7, 7, goString "old", []⟩ =
      some (.ok (), ⟨-1, 1, goString "a-b", List.replicate 36 45⟩) ∧ s.length ≤ 128 := by
  have composed : CSIIdentifier.composeCSIID ⟨-1, 0, goString "a-b", List.replicate 36 45⟩ =
      .ok (goString "0001-0003-a-b-ffffffffffffffff-" ++ List.replicate 36 45) := by
    decide +kernel
  exact ⟨_, composed, compose_decompose _ _ _ composed⟩

end CephVolsync.Ceph
