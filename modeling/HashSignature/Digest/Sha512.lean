/-
# HashSignature.Digest.Sha512 — the SHA-512 digest

A message is padded with a one bit, zeros and its length in bits, cut into blocks of 128 bytes and
absorbed block by block into a state of eight 64-bit words. The last state is the digest, 64
bytes.
-/
import HashSignature.Digest.Basic

namespace HashSignature.Sha512

set_option autoImplicit false

structure State where
  a : UInt64
  b : UInt64
  c : UInt64
  d : UInt64
  e : UInt64
  f : UInt64
  g : UInt64
  h : UInt64

def initial : State :=
  ⟨0x6a09e667f3bcc908, 0xbb67ae8584caa73b, 0x3c6ef372fe94f82b, 0xa54ff53a5f1d36f1,
   0x510e527fade682d1, 0x9b05688c2b3e6c1f, 0x1f83d9abfb41bd6b, 0x5be0cd19137e2179⟩

/-- One constant for each of the 80 rounds. -/
def roundConstants : List UInt64 :=
  [0x428a2f98d728ae22, 0x7137449123ef65cd, 0xb5c0fbcfec4d3b2f, 0xe9b5dba58189dbbc,
   0x3956c25bf348b538, 0x59f111f1b605d019, 0x923f82a4af194f9b, 0xab1c5ed5da6d8118,
   0xd807aa98a3030242, 0x12835b0145706fbe, 0x243185be4ee4b28c, 0x550c7dc3d5ffb4e2,
   0x72be5d74f27b896f, 0x80deb1fe3b1696b1, 0x9bdc06a725c71235, 0xc19bf174cf692694,
   0xe49b69c19ef14ad2, 0xefbe4786384f25e3, 0x0fc19dc68b8cd5b5, 0x240ca1cc77ac9c65,
   0x2de92c6f592b0275, 0x4a7484aa6ea6e483, 0x5cb0a9dcbd41fbd4, 0x76f988da831153b5,
   0x983e5152ee66dfab, 0xa831c66d2db43210, 0xb00327c898fb213f, 0xbf597fc7beef0ee4,
   0xc6e00bf33da88fc2, 0xd5a79147930aa725, 0x06ca6351e003826f, 0x142929670a0e6e70,
   0x27b70a8546d22ffc, 0x2e1b21385c26c926, 0x4d2c6dfc5ac42aed, 0x53380d139d95b3df,
   0x650a73548baf63de, 0x766a0abb3c77b2a8, 0x81c2c92e47edaee6, 0x92722c851482353b,
   0xa2bfe8a14cf10364, 0xa81a664bbc423001, 0xc24b8b70d0f89791, 0xc76c51a30654be30,
   0xd192e819d6ef5218, 0xd69906245565a910, 0xf40e35855771202a, 0x106aa07032bbd1b8,
   0x19a4c116b8d2d0c8, 0x1e376c085141ab53, 0x2748774cdf8eeb99, 0x34b0bcb5e19b48a8,
   0x391c0cb3c5c95a63, 0x4ed8aa4ae3418acb, 0x5b9cca4f7763e373, 0x682e6ff3d6b2b8a3,
   0x748f82ee5defb2fc, 0x78a5636f43172f60, 0x84c87814a1f0ab72, 0x8cc702081a6439ec,
   0x90befffa23631e28, 0xa4506cebde82bde9, 0xbef9a3f7b2c67915, 0xc67178f2e372532b,
   0xca273eceea26619c, 0xd186b8c721c0c207, 0xeada7dd6cde0eb1e, 0xf57d4f7fee6ed178,
   0x06f067aa72176fba, 0x0a637dc5a2c898a6, 0x113f9804bef90dae, 0x1b710b35131c471b,
   0x28db77f523047d84, 0x32caab7b40c72493, 0x3c9ebe0a15c9bebc, 0x431d67c49c100d4c,
   0x4cc5d4becb3e42b6, 0x597f299cfc657e2a, 0x5fcb6fab3ad6faec, 0x6c44198c4a475817]

def rotate (x count : UInt64) : UInt64 := (x >>> count) ||| (x <<< (64 - count))

/-- The rounds for the given constants on a working state `a … h`. The words `w0 … w15` are the
next sixteen of the message schedule; each round uses the first and appends one. -/
def rounds (constants : List UInt64) (a b c d e f g h : UInt64)
    (w0 w1 w2 w3 w4 w5 w6 w7 w8 w9 w10 w11 w12 w13 w14 w15 : UInt64) : State :=
  match constants with
  | [] => ⟨a, b, c, d, e, f, g, h⟩
  | k :: rest =>
    let t1 := h + (rotate e 14 ^^^ rotate e 18 ^^^ rotate e 41) +
      ((e &&& f) ^^^ (~~~e &&& g)) + k + w0
    let t2 := (rotate a 28 ^^^ rotate a 34 ^^^ rotate a 39) +
      ((a &&& b) ^^^ (a &&& c) ^^^ (b &&& c))
    let w16 := (rotate w14 19 ^^^ rotate w14 61 ^^^ (w14 >>> 6)) + w9 +
      (rotate w1 1 ^^^ rotate w1 8 ^^^ (w1 >>> 7)) + w0
    rounds rest (t1 + t2) a b c (d + t1) e f g
      w1 w2 w3 w4 w5 w6 w7 w8 w9 w10 w11 w12 w13 w14 w15 w16

/-- The word in the 8 bytes at the front of a block. -/
def word (block : Bytes) : UInt64 := (block.take 8).foldl (fun w b => w <<< 8 ||| b.toUInt64) 0

def absorb (s : State) (block : Bytes) : State :=
  let w (i : Nat) := word (block.drop (8 * i))
  let t := rounds roundConstants s.a s.b s.c s.d s.e s.f s.g s.h
    (w 0) (w 1) (w 2) (w 3) (w 4) (w 5) (w 6) (w 7)
    (w 8) (w 9) (w 10) (w 11) (w 12) (w 13) (w 14) (w 15)
  ⟨s.a + t.a, s.b + t.b, s.c + t.c, s.d + t.d, s.e + t.e, s.f + t.f, s.g + t.g, s.h + t.h⟩

def State.bytes (s : State) : Bytes :=
  [s.a, s.b, s.c, s.d, s.e, s.f, s.g, s.h].flatMap fun w => Bytes.ofNat 8 w.toNat

/-- The message with its padding, a multiple of 128 bytes. -/
def padded (message : Bytes) : Bytes :=
  let length := message.length
  message ++ [0x80] ++ Bytes.zeros ((239 - length % 128) % 128) ++
    Bytes.ofNat 16 (8 * length)

def hash (message : Bytes) : Bytes :=
  let text := padded message
  ((Bytes.blocks 128 (text.length / 128) text).foldl absorb initial).bytes

@[simp] theorem length_hash (message : Bytes) : (hash message).length = 64 := by
  simp [hash, State.bytes]

end HashSignature.Sha512

namespace HashSignature

/-- SHA-512 with its widths. -/
def Digest.sha512 : Digest where
  blockSize := 128
  width := 64
  width_pos := by decide
  hash := Sha512.hash
  length_hash := Sha512.length_hash

end HashSignature
