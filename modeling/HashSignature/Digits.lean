/-
# HashSignature.Digits — bit strings cut into digits, and the checksum of a one-time signature

A byte string is read as a stream of bits, most significant first, that goes on with zeros for ever,
and cut into digits of `b` bits each. A reader keeps the bits of the bytes it has taken but not yet
used in a 64-bit word. One-time signatures use digits of four bits and add a checksum: the sum of
what each digit lacks to 15, itself written in such digits.
-/
import HashSignature.Outcome
import HashSignature.Params

namespace HashSignature

set_option autoImplicit false

/-- A reader in the middle of a bit stream: the bytes not yet taken, and the `bits` lowest bits of
`held`, taken but not yet used. -/
structure BitReader where
  rest : Bytes
  bits : Nat
  held : UInt64

namespace BitReader

def start (bytes : Bytes) : BitReader := ⟨bytes, 0, 0⟩

/-- Takes one more byte, or a zero byte behind the end of the string. -/
def takeByte (reader : BitReader) : BitReader :=
  ⟨reader.rest.tail, reader.bits + 8, reader.held <<< 8 ||| (reader.rest.headD 0).toUInt64⟩

/-- Takes bytes until at least `b` bits are held. -/
def fill (b : Nat) (reader : BitReader) : BitReader :=
  if reader.bits < b then fill b reader.takeByte else reader
termination_by b - reader.bits
decreasing_by simp [takeByte]; omega

def low (bits : Nat) (word : UInt64) : UInt64 := word &&& ((1 <<< UInt64.ofNat bits) - 1)

/-- Uses the highest `b` of the held bits, of which there have to be enough. -/
def use (b : Nat) (reader : BitReader) : UInt32 × BitReader :=
  let left := reader.bits - b
  ((low b (reader.held >>> UInt64.ofNat left)).toUInt32, ⟨reader.rest, left, low left reader.held⟩)

/-- The next `count` digits of `b` bits. -/
def digits (b : Nat) : Nat → BitReader → List UInt32
  | 0, _ => []
  | count + 1, reader =>
    let (digit, next) := (reader.fill b).use b
    digit :: digits b count next

end BitReader

/-- Bytes that hold a digit. -/
def digitWidth : Nat := 4

/-- The first `count` digits of `b` bits of a byte string, which goes on with zeros. -/
def base2b (bytes : Bytes) (b count : Nat) : Outcome (List UInt32) := do
  Outcome.buffer (count * digitWidth)
  let _ ← Outcome.shl64 1 b
  return (BitReader.start bytes).digits b count

namespace Winternitz

open Outcome

def digitBits : Nat := 4

/-- The largest digit, which is also the number of steps of a whole chain. -/
def maxDigit : UInt32 := 15

/-- The sum of what each digit lacks to the largest one. -/
def checksum (digits : List UInt32) : Outcome UInt32 :=
  digits.foldlM (fun sum digit => do add32 sum (← sub32 maxDigit digit)) 0

/-- The `count` digits that a one-time key signs: those of the message, then those of their
checksum, which stands in the high twelve bits of two bytes. -/
def digits (count : Nat) (message : Bytes) : Outcome (List UInt32) := do
  let count1 ← less count Params.checksumDigits
  ensure (count ≤ Params.maxChains)
  let front ← base2b message digitBits count1
  let sum ← checksum front
  let field := Bytes.ofNat 2 (sum <<< 4).toNat
  let back ← base2b field digitBits Params.checksumDigits
  return front ++ back

end Winternitz

end HashSignature
