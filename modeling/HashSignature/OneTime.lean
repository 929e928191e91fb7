/-
# HashSignature.OneTime — one-time signatures from hash chains (WOTS+)

A one-time key is a row of chains. Each chain starts at a secret and is hashed fifteen times; the
ends of all chains compress to the public key. A signature reveals, for each digit of the message
and of its checksum, the value that many steps up the chain, and anyone can walk the rest of the
way.

Every operation takes the address of the key pair and returns it as the last hash call left it: only
the chain and the step have changed.
-/
import HashSignature.Digits
import HashSignature.Tweakable.Basic

namespace HashSignature.OneTime

set_option autoImplicit false

open Outcome

/-! ## Chains -/

/-- Walks `steps` steps up a chain, the first of them numbered `start`. -/
def walk (H : TweakableHash) : (steps : Nat) → (start : UInt32) → Address → Bytes → Bytes × Address
  | 0, _, adrs, block => (block, adrs)
  | steps + 1, start, adrs, block =>
    let stepAdrs := adrs.setHash start
    walk H steps (start + 1) stepAdrs (H.f stepAdrs block)

/-- Walks `steps` steps up a chain; their numbers have to fit their field, and a block that takes a
step must not be longer than a digest can get. -/
def chain (H : TweakableHash) (adrs : Address) (block : Bytes) (start steps : UInt32) :
    Outcome (Bytes × Address) := do
  let _ ← add32 start steps
  ensure (steps = 0 ∨ H.takes block.length)
  return walk H steps.toNat start adrs block

/-- A part of a chain: the value where it begins, the number of its first step, and its length. -/
structure Stretch where
  block : Bytes
  start : UInt32
  steps : UInt32

/-- Walks one stretch in each chain of a key, the first of them in chain `index`. -/
def walkAll (H : TweakableHash) : (index : UInt32) → Address → List Stretch →
    Outcome (List Bytes × Address)
  | _, adrs, [] => .ok ([], adrs)
  | index, adrs, stretch :: rest => do
    let (top, adrs) ← chain H (adrs.setChain index) stretch.block stretch.start stretch.steps
    let (tops, adrs) ← walkAll H (index + 1) adrs rest
    return (top :: tops, adrs)

/-! ## Keys -/

def secretAddress (adrs : Address) : Address := (adrs.setType .wotsPrf).setKeyPair adrs.keyPair

/-- The secret at the start of a chain. -/
def secret (H : TweakableHash) (skSeed : Bytes) (adrs : Address) (index : UInt32) : Bytes :=
  H.prf ((secretAddress adrs).setChain index) skSeed

/-- The stretches from the starts of `count` chains, each as long as `steps` says. -/
def fromSecrets (H : TweakableHash) (skSeed : Bytes) (adrs : Address) (steps : List UInt32) :
    List Stretch :=
  steps.zipIdx.map fun (count, index) => ⟨secret H skSeed adrs (UInt32.ofNat index), 0, count⟩

/-- The public key that the ends of all chains compress to. -/
def compress (H : TweakableHash) (adrs : Address) (tops : List Bytes) : Bytes :=
  H.t ((adrs.setType .wotsPk).setKeyPair adrs.keyPair) tops.flatten

/-- The ends of all chains have to fit the room for the largest supported key. -/
def ensureRoom (H : TweakableHash) (count : Nat) : Outcome Unit := do
  ensure (count * H.n ≤ Params.maxChains * Params.maxDigest)
  ensure (0 < H.n)

/-- The public key of the key pair at an address, made of `count` chains. -/
def publicKey (H : TweakableHash) (count : Nat) (skSeed : Bytes) (adrs : Address) :
    Outcome (Bytes × Address) := do
  ensureRoom H count
  let whole := List.replicate count Winternitz.maxDigit
  let (tops, adrs) ← walkAll H 0 adrs (fromSecrets H skSeed adrs whole)
  return (compress H adrs tops, adrs)

/-! ## Signatures -/

/-- The signature of a message with the key pair at an address: one block for each chain. -/
def sign (H : TweakableHash) (count : Nat) (message skSeed : Bytes) (adrs : Address) :
    Outcome (Bytes × Address) := do
  let digits ← Winternitz.digits count message
  buffer (count * H.n)
  ensure (0 < H.n)
  let (blocks, adrs) ← walkAll H 0 adrs (fromSecrets H skSeed adrs digits)
  return (blocks.flatten, adrs)

/-- The public key under which a signature of a message is valid. Only the first `count` blocks of
the signature are used, and it must not have fewer. -/
def publicKeyOf (H : TweakableHash) (count : Nat) (signature message : Bytes) (adrs : Address) :
    Outcome (Bytes × Address) := do
  let digits ← Winternitz.digits count message
  ensureRoom H count
  let (used, _) ← cut (count * H.n) signature
  let stretches ← ((Bytes.blocks H.n count used).zip digits).mapM fun (block, digit) => do
    return Stretch.mk block digit (← sub32 Winternitz.maxDigit digit)
  let (tops, adrs) ← walkAll H 0 adrs stretches
  return (compress H adrs tops, adrs)

end HashSignature.OneTime
