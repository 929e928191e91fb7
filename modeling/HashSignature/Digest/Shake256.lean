/-
# HashSignature.Digest.Shake256 — the SHAKE256 extendable output function

A sponge of 25 words of 64 bits, of which 17 (136 bytes) take input and give output. The message is
padded and absorbed block by block; output is squeezed in blocks of the same size, with one
permutation between two blocks. So a longer output only continues a shorter one.
-/
import HashSignature.Bytes

namespace HashSignature.Shake256

set_option autoImplicit false

/-- Bytes that enter or leave the sponge between two permutations. -/
def rate : Nat := 136

/-- The words of the sponge; `axy` is the lane in column `x` and row `y`. -/
structure State where
  (a00 a10 a20 a30 a40 : UInt64)
  (a01 a11 a21 a31 a41 : UInt64)
  (a02 a12 a22 a32 a42 : UInt64)
  (a03 a13 a23 a33 a43 : UInt64)
  (a04 a14 a24 a34 a44 : UInt64)

def initial : State :=
  ⟨0, 0, 0, 0, 0, 0, 0, 0, 0, 0, 0, 0, 0, 0, 0, 0, 0, 0, 0, 0, 0, 0, 0, 0, 0⟩

/-- One constant for each of the 24 rounds. -/
def roundConstants : List UInt64 :=
  [0x0000000000000001, 0x0000000000008082, 0x800000000000808a, 0x8000000080008000,
   0x000000000000808b, 0x0000000080000001, 0x8000000080008081, 0x8000000000008009,
   0x000000000000008a, 0x0000000000000088, 0x0000000080008009, 0x000000008000000a,
   0x000000008000808b, 0x800000000000008b, 0x8000000000008089, 0x8000000000008003,
   0x8000000000008002, 0x8000000000000080, 0x000000000000800a, 0x800000008000000a,
   0x8000000080008081, 0x8000000000008080, 0x0000000080000001, 0x8000000080008008]

def rotate (x count : UInt64) : UInt64 := (x <<< count) ||| (x >>> (64 - count))

/-- The rounds for the given constants: each mixes the parities `c` of the columns into all lanes,
rotates and moves the lanes, and combines each with its two right neighbours in the row. -/
def permuteFor (constants : List UInt64)
    (a00 a10 a20 a30 a40 : UInt64)
    (a01 a11 a21 a31 a41 : UInt64)
    (a02 a12 a22 a32 a42 : UInt64)
    (a03 a13 a23 a33 a43 : UInt64)
    (a04 a14 a24 a34 a44 : UInt64) : State :=
  match constants with
  | [] =>
    ⟨a00, a10, a20, a30, a40,
      a01, a11, a21, a31, a41,
      a02, a12, a22, a32, a42,
      a03, a13, a23, a33, a43,
      a04, a14, a24, a34, a44⟩
  | k :: rest =>
    let c0 := a00 ^^^ a01 ^^^ a02 ^^^ a03 ^^^ a04
    let c1 := a10 ^^^ a11 ^^^ a12 ^^^ a13 ^^^ a14
    let c2 := a20 ^^^ a21 ^^^ a22 ^^^ a23 ^^^ a24
    let c3 := a30 ^^^ a31 ^^^ a32 ^^^ a33 ^^^ a34
    let c4 := a40 ^^^ a41 ^^^ a42 ^^^ a43 ^^^ a44
    let d0 := c4 ^^^ rotate c1 1
    let d1 := c0 ^^^ rotate c2 1
    let d2 := c1 ^^^ rotate c3 1
    let d3 := c2 ^^^ rotate c4 1
    let d4 := c3 ^^^ rotate c0 1
    let b00 := a00 ^^^ d0
    let b10 := rotate (a11 ^^^ d1) 44
    let b20 := rotate (a22 ^^^ d2) 43
    let b30 := rotate (a33 ^^^ d3) 21
    let b40 := rotate (a44 ^^^ d4) 14
    let b01 := rotate (a30 ^^^ d3) 28
    let b11 := rotate (a41 ^^^ d4) 20
    let b21 := rotate (a02 ^^^ d0) 3
    let b31 := rotate (a13 ^^^ d1) 45
    let b41 := rotate (a24 ^^^ d2) 61
    let b02 := rotate (a10 ^^^ d1) 1
    let b12 := rotate (a21 ^^^ d2) 6
    let b22 := rotate (a32 ^^^ d3) 25
    let b32 := rotate (a43 ^^^ d4) 8
    let b42 := rotate (a04 ^^^ d0) 18
    let b03 := rotate (a40 ^^^ d4) 27
    let b13 := rotate (a01 ^^^ d0) 36
    let b23 := rotate (a12 ^^^ d1) 10
    let b33 := rotate (a23 ^^^ d2) 15
    let b43 := rotate (a34 ^^^ d3) 56
    let b04 := rotate (a20 ^^^ d2) 62
    let b14 := rotate (a31 ^^^ d3) 55
    let b24 := rotate (a42 ^^^ d4) 39
    let b34 := rotate (a03 ^^^ d0) 41
    let b44 := rotate (a14 ^^^ d1) 2
    permuteFor rest
      (b00 ^^^ (~~~b10 &&& b20) ^^^ k) (b10 ^^^ (~~~b20 &&& b30)) (b20 ^^^ (~~~b30 &&& b40))
      (b30 ^^^ (~~~b40 &&& b00)) (b40 ^^^ (~~~b00 &&& b10)) (b01 ^^^ (~~~b11 &&& b21))
      (b11 ^^^ (~~~b21 &&& b31)) (b21 ^^^ (~~~b31 &&& b41)) (b31 ^^^ (~~~b41 &&& b01))
      (b41 ^^^ (~~~b01 &&& b11)) (b02 ^^^ (~~~b12 &&& b22)) (b12 ^^^ (~~~b22 &&& b32))
      (b22 ^^^ (~~~b32 &&& b42)) (b32 ^^^ (~~~b42 &&& b02)) (b42 ^^^ (~~~b02 &&& b12))
      (b03 ^^^ (~~~b13 &&& b23)) (b13 ^^^ (~~~b23 &&& b33)) (b23 ^^^ (~~~b33 &&& b43))
      (b33 ^^^ (~~~b43 &&& b03)) (b43 ^^^ (~~~b03 &&& b13)) (b04 ^^^ (~~~b14 &&& b24))
      (b14 ^^^ (~~~b24 &&& b34)) (b24 ^^^ (~~~b34 &&& b44)) (b34 ^^^ (~~~b44 &&& b04))
      (b44 ^^^ (~~~b04 &&& b14))

/-- The permutation between two blocks. -/
def State.permute (s : State) : State :=
  permuteFor roundConstants
    s.a00 s.a10 s.a20 s.a30 s.a40 s.a01 s.a11 s.a21 s.a31 s.a41 s.a02 s.a12 s.a22 s.a32 s.a42
    s.a03 s.a13 s.a23 s.a33 s.a43 s.a04 s.a14 s.a24 s.a34 s.a44

/-- The word in the eight bytes at the front of a block, least significant byte first. -/
def word (block : Bytes) : UInt64 := (block.take 8).foldr (fun b w => w <<< 8 ||| b.toUInt64) 0

def absorb (s : State) (block : Bytes) : State :=
  let w (i : Nat) := word (block.drop (8 * i))
  State.permute
    ⟨s.a00 ^^^ w 0, s.a10 ^^^ w 1, s.a20 ^^^ w 2, s.a30 ^^^ w 3, s.a40 ^^^ w 4,
     s.a01 ^^^ w 5, s.a11 ^^^ w 6, s.a21 ^^^ w 7, s.a31 ^^^ w 8, s.a41 ^^^ w 9,
     s.a02 ^^^ w 10, s.a12 ^^^ w 11, s.a22 ^^^ w 12, s.a32 ^^^ w 13, s.a42 ^^^ w 14,
     s.a03 ^^^ w 15, s.a13 ^^^ w 16, s.a23, s.a33, s.a43,
     s.a04, s.a14, s.a24, s.a34, s.a44⟩

/-- The message with its padding, a multiple of the rate: the bits `1111`, a one bit, zeros, and a
one bit at the very end. -/
def padded (message : Bytes) : Bytes :=
  let gap := rate - message.length % rate
  if gap = 1 then message ++ [0x9f] else message ++ [0x1f] ++ Bytes.zeros (gap - 2) ++ [0x80]

/-- The eight bytes of a word, least significant first. -/
def wordBytes (w : UInt64) : Bytes :=
  [w.toUInt8, (w >>> 8).toUInt8, (w >>> 16).toUInt8, (w >>> 24).toUInt8,
   (w >>> 32).toUInt8, (w >>> 40).toUInt8, (w >>> 48).toUInt8, (w >>> 56).toUInt8]

/-- The bytes that the sponge gives before the next permutation. -/
def State.block (s : State) : Bytes :=
  [s.a00, s.a10, s.a20, s.a30, s.a40, s.a01, s.a11, s.a21, s.a31, s.a41,
   s.a02, s.a12, s.a22, s.a32, s.a42, s.a03, s.a13].flatMap wordBytes

@[simp] theorem State.length_block (s : State) : s.block.length = rate := by
  simp [State.block, wordBytes, rate]

/-- The next `length` bytes of output. -/
def squeeze (s : State) (length : Nat) : Bytes :=
  if length ≤ rate then s.block.take length else s.block ++ squeeze s.permute (length - rate)
termination_by length
decreasing_by simp only [rate] at *; omega

/-- The first `length` bytes of output for a message. -/
def hash (message : Bytes) (length : Nat) : Bytes :=
  let text := padded message
  squeeze ((Bytes.blocks rate (text.length / rate) text).foldl absorb initial) length

theorem length_squeeze (s : State) (length : Nat) : (squeeze s length).length = length := by
  fun_induction squeeze s length with
  | case1 s length h => simp; omega
  | case2 s length h ih => simp [ih]; omega

@[simp] theorem length_hash (message : Bytes) (length : Nat) :
    (hash message length).length = length := length_squeeze _ _

end HashSignature.Shake256
