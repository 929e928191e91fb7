/-
# HashSignature.Params — the sizes that a signature instance is built from

An instance is given by a hash family and five base numbers: the digest size `n`, the total height
`h` of the hypertree, its number of layers `d`, and the height `a` and number `k` of the trees of
the forest. All other sizes are derived from them.

* `Params.custom` — the parameters for given base numbers, or the first reason to refuse them.
* `Params.check` — accepts exactly the values that `Params.custom` returns.
* the size functions — byte counts of signatures, keys and parts of the message digest.
-/
import HashSignature.Outcome

namespace HashSignature

set_option autoImplicit false

/-- The family of hash functions behind an instance. -/
inductive HashFamily where
  /-- SHA-256 and SHA-512 with compressed addresses. -/
  | sha2
  /-- SHAKE256 with full addresses. -/
  | shake
deriving DecidableEq, Repr

/-- The family's name as shown. -/
def HashFamily.display : HashFamily → String
  | sha2 => "SHA2"
  | shake => "SHAKE"

/-- The family's name in a JSON text. -/
def HashFamily.key : HashFamily → String
  | sha2 => "sha2"
  | shake => "shake"

/-- The parameters of one instance: five base numbers and what is derived from them. -/
structure Params where
  /-- The hash family. -/
  family : HashFamily
  /-- Bytes of a digest. -/
  n : UInt64
  /-- Total height of the hypertree. -/
  h : UInt64
  /-- Number of layers of the hypertree. -/
  d : UInt64
  /-- Height of one layer. -/
  hp : UInt64
  /-- Height of a tree of the forest. -/
  a : UInt64
  /-- Number of trees of the forest. -/
  k : UInt64
  /-- Bytes of the message digest. -/
  m : UInt64
  /-- Message digits of a one-time signature. -/
  len1 : UInt64
  /-- Checksum digits of a one-time signature. -/
  len2 : UInt64
  /-- Chains of a one-time signature. -/
  len : UInt64
deriving DecidableEq, Repr

namespace Params

open Outcome

/-! ## Largest supported sizes and heights -/

def maxDigest : Nat := 32

/-- The number of checksum digits for every supported digest size. -/
def checksumDigits : Nat := 3

def maxChains : Nat := 2 * maxDigest + checksumDigits

def maxLayerHeight : Nat := 20

def maxForestHeight : Nat := 24

/-- The largest supported message digest in bytes. -/
def maxMessageDigest : Nat := 64

/-! ## Derivation -/

/-- The bytes that hold a number of bits. -/
def bytesFor (bits : Nat) : Nat := (bits + 7) / 8

/-- The bytes of a message digest that selects `k` leaves of `a` bits, a tree and a leaf of it. -/
def messageDigest (h hp a k : Nat) : Nat :=
  bytesFor (k * a) + bytesFor (h - hp) + bytesFor hp

/-- The parameters with everything derived from the base numbers, which are taken as they are. -/
def ofBase (family : HashFamily) (n h d a k : UInt64) : Params where
  family := family
  n := n
  h := h
  d := d
  hp := h / d
  a := a
  k := k
  m := UInt64.ofNat (messageDigest h.toNat (h / d).toNat a.toNat k.toNat)
  len1 := 2 * n
  len2 := UInt64.ofNat checksumDigits
  len := 2 * n + UInt64.ofNat checksumDigits

/-- Derives the sizes; every intermediate result has to fit. -/
def derived (family : HashFamily) (n h d a k : UInt64) : Outcome Params := do
  ensure (d ≠ 0)
  let _ ← size (2 * n.toNat + checksumDigits)
  let _ ← size (k.toNat * a.toNat)
  let _ ← less h.toNat (h / d).toNat
  let _ ← size (messageDigest h.toNat (h / d).toNat a.toNat k.toNat)
  return ofBase family n h d a k

def reject (reason : ParameterFault) : Outcome Params := refuse (.invalidParameters reason)

/-- The parameters for the given base numbers, checked in the order in which later checks rely on
earlier ones. The leaves of the forest are counted in 64 bits, so a very large `k` can pass that
check and break the size of the digest instead. -/
def custom (family : HashFamily) (n h d a k : UInt64) : Outcome Params :=
  if ¬(n = 16 ∨ n = 24 ∨ n = 32) then reject (.digestSize n.toNat)
  else if d = 0 ∨ h = 0 ∨ h % d ≠ 0 then reject (.totalHeight h.toNat d.toNat)
  else if maxLayerHeight < (h / d).toNat then reject (.layerHeight (h / d).toNat)
  else if 64 < h.toNat - (h / d).toNat then reject (.treeBits (h.toNat - (h / d).toNat))
  else if a = 0 ∨ maxForestHeight < a.toNat ∨ k = 0 then reject (.forestShape a.toNat k.toNat)
  else if 2 ^ 32 < (k <<< a).toNat then reject (.forestLeaves k.toNat a.toNat)
  else do
    let params ← derived family n h d a k
    if maxMessageDigest < params.m.toNat then reject (.messageDigest params.m.toNat)
    else return params

/-- Accepts parameters only if their sizes are those derived from valid base numbers. -/
def check (p : Params) : Outcome Unit := do
  let expected ← custom p.family p.n p.h p.d p.a p.k
  if expected = p then return () else refuse (.invalidParameters .derivedSizes)

/-! ## Sizes in bytes -/

def oneTimeSize (p : Params) : Outcome Nat := size (p.len.toNat * p.n.toNat)

/-- Bytes of the signature of one layer: a one-time signature and an authentication path. -/
def layerSize (p : Params) : Outcome Nat := do
  let count ← size (p.len.toNat + p.hp.toNat)
  size (count * p.n.toNat)

/-- Bytes of one tree's part of a forest signature: a secret and an authentication path. -/
def segmentSize (p : Params) : Outcome Nat := do
  let count ← size (p.a.toNat + 1)
  size (count * p.n.toNat)

def forestSize (p : Params) : Outcome Nat := do
  let count ← size (p.a.toNat + 1)
  let total ← size (p.k.toNat * count)
  size (total * p.n.toNat)

def hypertreeSize (p : Params) : Outcome Nat := do
  let layer ← p.layerSize
  size (p.d.toNat * layer)

/-- Bytes of a whole signature: randomizer, forest signature, hypertree signature. -/
def signatureSize (p : Params) : Outcome Nat := do
  let forest ← p.forestSize
  let front ← size (p.n.toNat + forest)
  let hypertree ← p.hypertreeSize
  size (front + hypertree)

/-- Bytes of the arena in which a request builds its trees: the leaves of the widest one. -/
def arenaSize (p : Params) : Outcome Nat := do
  let leaves ← shl64 1 (max p.a.toNat p.hp.toNat)
  size (leaves.toNat * p.n.toNat)

def publicKeySize (p : Params) : Outcome Nat := size (2 * p.n.toNat)

def privateKeySize (p : Params) : Outcome Nat := size (4 * p.n.toNat)

/-- Bytes of the message digest that select the leaves of the forest. -/
def forestDigestSize (p : Params) : Outcome Nat := do
  let bits ← size (p.k.toNat * p.a.toNat)
  return bytesFor bits

/-- Bytes of the message digest that select a tree of layer 0. -/
def treeIndexSize (p : Params) : Outcome Nat := do
  let bits ← less p.h.toNat p.hp.toNat
  return bytesFor bits

/-- Bytes of the message digest that select a leaf of that tree. -/
def leafIndexSize (p : Params) : Nat := bytesFor p.hp.toNat

/-- Whether trees and messages are hashed with SHA-512. -/
def usesWideDigest (p : Params) : Bool := p.family = .sha2 && 16 < p.n

end Params

end HashSignature
