/-
# HashSignature.Key.Private — private keys

A private key is the secret seed, the key of the randomizer, the public seed and the public root;
its encoding is these four behind each other. The root in an encoded key is trusted as it is.

* `sign…` — deterministic signatures, whose randomizer takes the public seed for random bytes, and
  randomized ones, which draw them; of a message bound to a context, or of a message as it is.
-/
import HashSignature.Key.Public
import HashSignature.RandomSource

namespace HashSignature

set_option autoImplicit false

structure PrivateKey where
  params : Params
  skSeed : Slot
  skPrf : Slot
  pkSeed : Slot
  pkRoot : Slot
deriving DecidableEq

namespace PrivateKey

open Outcome

def n (key : PrivateKey) : Nat := key.params.n.toNat

/-! ## Making keys -/

/-- The private key for given seeds. -/
def ofSeeds (p : Params) (skSeed skPrf pkSeed : Bytes) : Outcome PrivateKey := do
  let pkRoot ← Signing.publicRoot p skSeed skPrf pkSeed
  let n := p.n.toNat
  let skSeed ← Slot.ofPart "secret seed" n skSeed
  let skPrf ← Slot.ofPart "PRF key" n skPrf
  let pkSeed ← Slot.ofPart "public seed" n pkSeed
  return ⟨p, skSeed, skPrf, pkSeed, pkRoot⟩

/-- Decodes a private key of `4n` bytes. -/
def ofBytes (p : Params) (bytes : Bytes) : Outcome PrivateKey := do
  p.check
  let n := p.n.toNat
  let expected ← p.privateKeySize
  if bytes.length = expected then do
    let skSeed ← Slot.ofPart "secret seed" n (Bytes.slice 0 n bytes)
    let skPrf ← Slot.ofPart "PRF key" n (Bytes.slice n n bytes)
    let pkSeed ← Slot.ofPart "public seed" n (Bytes.slice (2 * n) n bytes)
    let pkRoot ← Slot.ofPart "public root" n (bytes.drop (3 * n))
    return ⟨p, skSeed, skPrf, pkSeed, pkRoot⟩
  else refuse (.invalidLength "private key" expected bytes.length)

def toBytes (key : PrivateKey) : Bytes :=
  key.skSeed.front key.n ++ key.skPrf.front key.n ++ key.pkSeed.front key.n ++
    key.pkRoot.front key.n

def publicKey (key : PrivateKey) : PublicKey := ⟨key.params, key.pkSeed, key.pkRoot⟩

/-- The key with all four parts wiped; it stays a key of the same instance. -/
def wiped (key : PrivateKey) : PrivateKey := ⟨key.params, .zero, .zero, .zero, .zero⟩

/-- A private key as shown: the digest size and no secrets. -/
def describe (key : PrivateKey) : String :=
  s!"PrivateKey \x7b n: {key.params.n}, secret: \"<redacted>\" \x7d"

/-! ## Signatures -/

/-- What the key signs with. -/
def signingKey (key : PrivateKey) : Signing.SigningKey where
  skSeed := key.skSeed.front key.n
  skPrf := key.skPrf.front key.n
  pkSeed := key.pkSeed.front key.n
  pkRoot := key.pkRoot.front key.n

/-- Signs a prepared message with given random bytes. -/
def signPrepared (key : PrivateKey) (message optRand : Bytes) : Outcome Bytes :=
  Signing.sign key.params key.signingKey message optRand

/-- Signs a message as it is, the same way each time. -/
def signBare (key : PrivateKey) (message : Bytes) : Outcome Bytes :=
  key.signPrepared message (key.pkSeed.front key.n)

/-- Signs a message bound to a context, the same way each time. -/
def sign (key : PrivateKey) (message context : Bytes) : Outcome Bytes := do
  let framed ← frame context message
  key.signBare framed

/-- Signs a message as it is with fresh random bytes. -/
def signRandomizedBare (key : PrivateKey) (message : Bytes) : Draw Bytes := do
  let optRand ← Draw.seed key.n
  Draw.ofOutcome (key.signPrepared message (optRand.front key.n))

/-- Signs a message bound to a context with fresh random bytes; the context is looked at first. -/
def signRandomized (key : PrivateKey) (message context : Bytes) : Draw Bytes := do
  let framed ← Draw.ofOutcome (frame context message)
  key.signRandomizedBare framed

/-! ## Fresh keys -/

/-- Draws a key: the secret seed, the key of the randomizer and the public seed, in this order. -/
def generate (p : Params) : Draw PrivateKey := do
  Draw.ofOutcome p.check
  let n := p.n.toNat
  let skSeed ← Draw.seed n
  let skPrf ← Draw.seed n
  let pkSeed ← Draw.seed n
  Draw.ofOutcome (ofSeeds p (skSeed.front n) (skPrf.front n) (pkSeed.front n))

end PrivateKey

def generateKeyPair (p : Params) : Draw (PublicKey × PrivateKey) := do
  let key ← PrivateKey.generate p
  return (key.publicKey, key)

end HashSignature
