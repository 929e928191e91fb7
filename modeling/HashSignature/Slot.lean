/-
# HashSignature.Slot — 32-byte places for the parts of a key

Every part of a key is kept in a place for the largest supported digest; behind the bytes of a
shorter one the place holds zeros.
-/
import HashSignature.Outcome

namespace HashSignature

set_option autoImplicit false

/-- A place of 32 bytes. -/
structure Slot where
  bytes : Bytes
  length_bytes : bytes.length = 32

namespace Slot

@[ext] theorem ext {a b : Slot} (same : a.bytes = b.bytes) : a = b := by
  cases a; cases b; simp_all

instance : DecidableEq Slot := fun _ _ => decidable_of_decidable_of_iff Slot.ext_iff.symm

def width : Nat := 32

theorem length_zeros_width : (Bytes.zeros 32).length = 32 := Bytes.length_zeros 32

def zero : Slot := ⟨Bytes.zeros 32, length_zeros_width⟩

/-- A place with the given bytes at its front. -/
def fill (bytes : Bytes) (fits : bytes.length ≤ width) : Slot :=
  ⟨Bytes.padTo 32 bytes, by simp only [Bytes.length_padTo, width] at *; omega⟩

def front (slot : Slot) (n : Nat) : Bytes := slot.bytes.take n

/-- A place with exactly `n` bytes at its front. -/
def place (n : Nat) (bytes : Bytes) : Outcome Slot :=
  if fits : bytes.length = n ∧ n ≤ width then .ok (fill bytes (by omega)) else Outcome.broken

/-- Puts a part of a key into its place; it has to have `n` bytes. -/
def ofPart (what : String) (n : Nat) (bytes : Bytes) : Outcome Slot :=
  if bytes.length = n then place n bytes
  else Outcome.refuse (.invalidLength what n bytes.length)

end Slot

end HashSignature
