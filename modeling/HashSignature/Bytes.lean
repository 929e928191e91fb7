/-
# HashSignature.Bytes — byte strings, big-endian numbers and fixed-size blocks

Keys, addresses, digests and signatures are all strings of bytes, cut at fixed places and filled
with big-endian numbers. This file holds that vocabulary.

* `ofNat w n` — the `w`-byte form of `n`, most significant byte first; `toNat` reads it back.
* `overwrite` — a string with some of its bytes replaced; its length never changes.
* `blocks` — consecutive blocks of one size.
* `padTo` — a string filled up with zero bytes.
-/

namespace HashSignature

set_option autoImplicit false

/-- Powers of numbers are the core library's, also where an algebra library brings its own. -/
@[default_instance 20000]
instance (priority := high) corePow : Pow Nat Nat := instPowNat

/-- A byte string, first byte first. -/
abbrev Bytes := List UInt8

namespace Bytes

def zeros (count : Nat) : Bytes := List.replicate count 0

/-- The `w`-byte big-endian form of `n`; higher parts of `n` are left out. -/
def ofNat : Nat → Nat → Bytes
  | 0, _ => []
  | w + 1, n => UInt8.ofNat (n >>> (8 * w)) :: ofNat w n

/-- A byte string read as a big-endian number. -/
def toNat : Bytes → Nat
  | [] => 0
  | b :: rest => b.toNat * 256 ^ rest.length + toNat rest

/-- Replaces the bytes of a string from a position on; what would fall behind its end is dropped. -/
def overwrite : Nat → Bytes → Bytes → Bytes
  | _, _, [] => []
  | skip + 1, new, b :: rest => b :: overwrite skip new rest
  | 0, [], b :: rest => b :: rest
  | 0, v :: new, _ :: rest => v :: overwrite 0 new rest

def slice (start width : Nat) (bytes : Bytes) : Bytes := (bytes.drop start).take width

/-- `count` consecutive blocks of `size` bytes each, from the front. -/
def blocks (size : Nat) : Nat → Bytes → List Bytes
  | 0, _ => []
  | count + 1, bytes => bytes.take size :: blocks size count (bytes.drop size)

/-- The string filled up with zero bytes to `width` bytes. -/
def padTo (width : Nat) (bytes : Bytes) : Bytes := bytes ++ zeros (width - bytes.length)

@[simp] theorem length_zeros (count : Nat) : (zeros count).length = count := by simp [zeros]

@[simp] theorem length_ofNat (w n : Nat) : (ofNat w n).length = w := by
  induction w with
  | zero => rfl
  | succ w ih => simp [ofNat, ih]

/-- Overwriting keeps the length, wherever it starts and whatever it writes. -/
@[simp] theorem length_overwrite (start : Nat) (new bytes : Bytes) :
    (overwrite start new bytes).length = bytes.length := by
  fun_induction overwrite start new bytes <;> simp_all

@[simp] theorem length_blocks (size count : Nat) (bytes : Bytes) :
    (blocks size count bytes).length = count := by
  induction count generalizing bytes with
  | zero => rfl
  | succ count ih => simp [blocks, ih]

theorem length_padTo (width : Nat) (bytes : Bytes) :
    (padTo width bytes).length = max width bytes.length := by
  simp [padTo]; omega

/-- Blocks that a string fills up exactly have their full size. -/
theorem length_of_mem_blocks {size count : Nat} {bytes block : Bytes}
    (hfull : count * size ≤ bytes.length) (hmem : block ∈ blocks size count bytes) :
    block.length = size := by
  induction count generalizing bytes with
  | zero => simp [blocks] at hmem
  | succ count ih =>
    rw [Nat.succ_mul] at hfull
    rcases List.mem_cons.1 hmem with rfl | hrest
    · simp; omega
    · exact ih (by simp; omega) hrest

end Bytes

end HashSignature
