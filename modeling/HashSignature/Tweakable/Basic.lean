/-
# HashSignature.Tweakable.Basic — the six hash functions of the scheme

Everything above this file hashes only through a `TweakableHash`: six functions bound to one public
seed. Four of them take an address, so that calls of different purpose never share an input. The
lengths of their results are part of the type; what they compute is left open.

A chain replaces a block by its digest again and again, so `f` gives a digest as long as the block.
-/
import HashSignature.Address
import HashSignature.Outcome

namespace HashSignature

set_option autoImplicit false

/-- The hash functions of the scheme under one public seed. -/
structure TweakableHash where
  /-- Bytes of a digest. -/
  n : Nat
  /-- The secret that the secret seed gives at an address. -/
  prf : (adrs : Address) → (skSeed : Bytes) → Bytes
  /-- Whether a block of a length can be replaced by its digest. -/
  takes : (length : Nat) → Bool
  /-- The digest of one block, as long as the block itself. -/
  f : (adrs : Address) → (block : Bytes) → Bytes
  /-- The digest of two blocks. -/
  h : (adrs : Address) → (left right : Bytes) → Bytes
  /-- The digest of any number of blocks. -/
  t : (adrs : Address) → (blocks : Bytes) → Bytes
  /-- The randomizer of a message. The keyed digest behind it is taken to accept keys of every length,
  so it has no failing case, and `Fault.hash` is never reported. -/
  prfMsg : (skPrf optRand message : Bytes) → Bytes
  /-- The digest of a message, of any wanted length. -/
  hMsg : (randomizer pkRoot message : Bytes) → (length : Nat) → Bytes
  takes_n : takes n = true
  length_prf : ∀ adrs skSeed, (prf adrs skSeed).length = n
  length_f : ∀ adrs block, takes block.length = true → (f adrs block).length = block.length
  length_h : ∀ adrs left right, (h adrs left right).length = n
  length_t : ∀ adrs blocks, (t adrs blocks).length = n
  length_prfMsg : ∀ skPrf optRand message, (prfMsg skPrf optRand message).length = n
  length_hMsg : ∀ randomizer pkRoot message length,
    (hMsg randomizer pkRoot message length).length = length

namespace TweakableHash

/-- The digest that replaces a block, which must not be longer than a digest can get. -/
def replace (H : TweakableHash) (adrs : Address) (block : Bytes) : Outcome Bytes := do
  Outcome.ensure (H.takes block.length)
  return H.f adrs block

/-- The digest of a message in a buffer of a wanted length. -/
def messageDigest (H : TweakableHash) (randomizer pkRoot message : Bytes) (length : Nat) :
    Outcome Bytes := do
  Outcome.buffer length
  return H.hMsg randomizer pkRoot message length

/-- Replacing a block of `n` bytes keeps its length. -/
theorem length_f_of_length_eq (H : TweakableHash) (adrs : Address) {block : Bytes}
    (h : block.length = H.n) : (H.f adrs block).length = H.n := by
  rw [H.length_f adrs block (h ▸ H.takes_n), h]

end TweakableHash

end HashSignature
