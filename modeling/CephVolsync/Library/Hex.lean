import Mathlib.Data.List.Basic
import Mathlib.Tactic.Ring

/-! The texts of the Go packages `encoding/hex` and `encoding/binary`: two lower-case digits a
byte, read back in either case, and unsigned numbers with their most significant byte
first. -/

namespace Hex

def digit (n : ℕ) : UInt8 := if n < 10 then UInt8.ofNat (48 + n) else UInt8.ofNat (87 + n)

def value (c : UInt8) : Option ℕ :=
  if 48 ≤ c.toNat ∧ c.toNat ≤ 57 then some (c.toNat - 48)
  else if 97 ≤ c.toNat ∧ c.toNat ≤ 102 then some (c.toNat - 87)
  else if 65 ≤ c.toNat ∧ c.toNat ≤ 70 then some (c.toNat - 55)
  else none

def encode : List UInt8 → List UInt8
  | [] => []
  | b :: rest => digit (b.toNat / 16) :: digit (b.toNat % 16) :: encode rest

inductive Err where
  | invalidByte (c : UInt8)
  | length
  deriving DecidableEq, Repr

/-- A digit without a partner is an error even if it is one. -/
def decode : List UInt8 → Except Err (List UInt8)
  | [] => .ok []
  | [p] =>
    match value p with
    | none => .error (.invalidByte p)
    | some _ => .error .length
  | p :: q :: rest =>
    match value p, value q with
    | none, _ => .error (.invalidByte p)
    | some _, none => .error (.invalidByte q)
    | some a, some b => (decode rest).map (UInt8.ofNat (16 * a + b) :: ·)

theorem value_digit {n : ℕ} (h : n < 16) : value (digit n) = some n := by
  have all : ∀ n < 16, value (digit n) = some n := by decide
  exact all n h

theorem decode_encode (bytes : List UInt8) : decode (encode bytes) = .ok bytes := by
  induction bytes with
  | nil => rfl
  | cons b rest ih =>
    have small := b.toNat_lt
    have halves : 16 * (b.toNat / 16) + b.toNat % 16 = b.toNat := Nat.div_add_mod _ _
    rw [encode, decode, value_digit (by omega), value_digit (by omega), ih]
    simp only [halves, UInt8.ofNat_toNat]
    rfl

theorem length_encode (bytes : List UInt8) : (encode bytes).length = 2 * bytes.length := by
  induction bytes with
  | nil => rfl
  | cons b rest ih =>
    rw [encode, List.length_cons, List.length_cons, List.length_cons, ih]
    ring

theorem length_decode {text bytes : List UInt8} (h : decode text = .ok bytes) :
    2 * bytes.length = text.length := by
  induction text using decode.induct generalizing bytes with
  | case1 =>
    cases h
    rfl
  | case2 p hp => simp [decode, hp] at h
  | case3 p n hp => simp [decode, hp] at h
  | case4 p q rest hp => simp [decode, hp] at h
  | case5 p q rest a hq hp => simp [decode, hp, hq] at h
  | case6 p q rest a b hq hp ih =>
    simp only [decode, hp, hq] at h
    cases tail : decode rest with
    | error e =>
      rw [tail] at h
      cases h
    | ok more =>
      rw [tail] at h
      cases h
      rw [List.length_cons, List.length_cons, List.length_cons, ← ih tail]
      ring

def bigEndian : ℕ → ℕ → List UInt8
  | 0, _ => []
  | width + 1, n => bigEndian width (n / 256) ++ [UInt8.ofNat n]

def number (bytes : List UInt8) : ℕ := bytes.foldl (fun n b => 256 * n + b.toNat) 0

theorem length_bigEndian (width n : ℕ) : (bigEndian width n).length = width := by
  induction width generalizing n with
  | zero => rfl
  | succ width ih => rw [bigEndian, List.length_append, ih, List.length_singleton]

theorem number_bigEndian (width n : ℕ) : number (bigEndian width n) = n % 256 ^ width := by
  induction width generalizing n with
  | zero => rw [pow_zero, Nat.mod_one, bigEndian, number, List.foldl_nil]
  | succ width ih =>
    have low : (UInt8.ofNat n).toNat = n % 256 := by simp
    rw [bigEndian, number, List.foldl_append, ← number, ih, List.foldl_cons, List.foldl_nil, low,
      pow_succ', Nat.mod_mul]
    ring

end Hex
