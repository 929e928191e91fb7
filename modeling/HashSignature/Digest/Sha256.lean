/-
# HashSignature.Digest.Sha256 — the SHA-256 digest

A message is padded with a one bit, zeros and its length in bits, cut into blocks of 64 bytes and
absorbed block by block into a state of eight 32-bit words. The last state is the digest, 32
bytes.
-/
import HashSignature.Digest.Basic

namespace HashSignature.Sha256

set_option autoImplicit false

structure State where
  a : UInt32
  b : UInt32
  c : UInt32
  d : UInt32
  e : UInt32
  f : UInt32
  g : UInt32
  h : UInt32

def initial : State :=
  ⟨0x6a09e667, 0xbb67ae85, 0x3c6ef372, 0xa54ff53a,
   0x510e527f, 0x9b05688c, 0x1f83d9ab, 0x5be0cd19⟩

/-- One constant for each of the 64 rounds. -/
def roundConstants : List UInt32 :=
  [0x428a2f98, 0x71374491, 0xb5c0fbcf, 0xe9b5dba5, 0x3956c25b, 0x59f111f1,
   0x923f82a4, 0xab1c5ed5, 0xd807aa98, 0x12835b01, 0x243185be, 0x550c7dc3,
   0x72be5d74, 0x80deb1fe, 0x9bdc06a7, 0xc19bf174, 0xe49b69c1, 0xefbe4786,
   0x0fc19dc6, 0x240ca1cc, 0x2de92c6f, 0x4a7484aa, 0x5cb0a9dc, 0x76f988da,
   0x983e5152, 0xa831c66d, 0xb00327c8, 0xbf597fc7, 0xc6e00bf3, 0xd5a79147,
   0x06ca6351, 0x14292967, 0x27b70a85, 0x2e1b2138, 0x4d2c6dfc, 0x53380d13,
   0x650a7354, 0x766a0abb, 0x81c2c92e, 0x92722c85, 0xa2bfe8a1, 0xa81a664b,
   0xc24b8b70, 0xc76c51a3, 0xd192e819, 0xd6990624, 0xf40e3585, 0x106aa070,
   0x19a4c116, 0x1e376c08, 0x2748774c, 0x34b0bcb5, 0x391c0cb3, 0x4ed8aa4a,
   0x5b9cca4f, 0x682e6ff3, 0x748f82ee, 0x78a5636f, 0x84c87814, 0x8cc70208,
   0x90befffa, 0xa4506ceb, 0xbef9a3f7, 0xc67178f2]

def rotate (x count : UInt32) : UInt32 := (x >>> count) ||| (x <<< (32 - count))

/-- The rounds for the given constants on a working state `a … h`. The words `w0 … w15` are the
next sixteen of the message schedule; each round uses the first and appends one. -/
def rounds (constants : List UInt32) (a b c d e f g h : UInt32)
    (w0 w1 w2 w3 w4 w5 w6 w7 w8 w9 w10 w11 w12 w13 w14 w15 : UInt32) : State :=
  match constants with
  | [] => ⟨a, b, c, d, e, f, g, h⟩
  | k :: rest =>
    let t1 := h + (rotate e 6 ^^^ rotate e 11 ^^^ rotate e 25) +
      ((e &&& f) ^^^ (~~~e &&& g)) + k + w0
    let t2 := (rotate a 2 ^^^ rotate a 13 ^^^ rotate a 22) +
      ((a &&& b) ^^^ (a &&& c) ^^^ (b &&& c))
    let w16 := (rotate w14 17 ^^^ rotate w14 19 ^^^ (w14 >>> 10)) + w9 +
      (rotate w1 7 ^^^ rotate w1 18 ^^^ (w1 >>> 3)) + w0
    rounds rest (t1 + t2) a b c (d + t1) e f g
      w1 w2 w3 w4 w5 w6 w7 w8 w9 w10 w11 w12 w13 w14 w15 w16

/-- The word in the 4 bytes at the front of a block. -/
def word (block : Bytes) : UInt32 := (block.take 4).foldl (fun w b => w <<< 8 ||| b.toUInt32) 0

def absorb (s : State) (block : Bytes) : State :=
  let w (i : Nat) := word (block.drop (4 * i))
  let t := rounds roundConstants s.a s.b s.c s.d s.e s.f s.g s.h
    (w 0) (w 1) (w 2) (w 3) (w 4) (w 5) (w 6) (w 7)
    (w 8) (w 9) (w 10) (w 11) (w 12) (w 13) (w 14) (w 15)
  ⟨s.a + t.a, s.b + t.b, s.c + t.c, s.d + t.d, s.e + t.e, s.f + t.f, s.g + t.g, s.h + t.h⟩

def State.bytes (s : State) : Bytes :=
  [s.a, s.b, s.c, s.d, s.e, s.f, s.g, s.h].flatMap fun w => Bytes.ofNat 4 w.toNat

/-- The message with its padding, a multiple of 64 bytes. -/
def padded (message : Bytes) : Bytes :=
  let length := message.length
  message ++ [0x80] ++ Bytes.zeros ((119 - length % 64) % 64) ++
    Bytes.ofNat 8 (8 * length)

def hash (message : Bytes) : Bytes :=
  let text := padded message
  ((Bytes.blocks 64 (text.length / 64) text).foldl absorb initial).bytes

@[simp] theorem length_hash (message : Bytes) : (hash message).length = 32 := by
  simp [hash, State.bytes]

end HashSignature.Sha256

namespace HashSignature

/-- SHA-256 with its widths. -/
def Digest.sha256 : Digest where
  blockSize := 64
  width := 32
  width_pos := by decide
  hash := Sha256.hash
  length_hash := Sha256.length_hash

end HashSignature
