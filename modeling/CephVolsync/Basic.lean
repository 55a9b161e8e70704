import Mathlib

/-! Values of the Go program: byte strings, the conversion of a signed 64-bit value to an
unsigned one, and buffered channels. A channel is the queue of its buffered values and
the flag that `close` sets; its capacity is known to the code that sends on it. -/

namespace CephVolsync

abbrev GoString := List UInt8

-- shortcuts for tests of membership, and for the numbers of the goroutines in concrete runs
instance lawfulBEqGoString : LawfulBEq GoString := inferInstance

instance lawfulBEqFin (n : ℕ) : LawfulBEq (Fin n) := inferInstance

instance neZeroOne : NeZero 1 := ⟨by decide⟩

instance neZeroTwo : NeZero 2 := ⟨by decide⟩

instance neZeroThree : NeZero 3 := ⟨by decide⟩

instance neZeroFour : NeZero 4 := ⟨by decide⟩

instance neZeroEight : NeZero 8 := ⟨by decide⟩

instance neZeroSixteen : NeZero 16 := ⟨by decide⟩

def uint64 (x : ℤ) : ℕ := (x % 2 ^ 64).toNat

/-- The bytes of a string constant of the source. -/
def goString (s : String) : GoString := s.toUTF8.toList

structure Chan (α : Type) where
  buf : List α
  closed : Bool
  deriving DecidableEq, Repr

namespace Chan

variable {α : Type}

def new : Chan α := ⟨[], false⟩

def send (c : Chan α) (x : α) : Chan α := { c with buf := c.buf ++ [x] }

def close (c : Chan α) : Chan α := { c with closed := true }

end Chan

end CephVolsync
