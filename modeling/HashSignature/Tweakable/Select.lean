/-
# HashSignature.Tweakable.Select — the hash functions that parameters ask for

The family and the digest size choose the back end. The public seed has to hold a digest's worth of
bytes, and a digest must not be longer than the largest supported one.
-/
import HashSignature.Params
import HashSignature.Tweakable.Sha2
import HashSignature.Tweakable.Shake

namespace HashSignature.Params

set_option autoImplicit false

open Outcome

/-- The hash functions of an instance under the first `n` bytes of a public seed. -/
def hash (p : Params) (pkSeed : Bytes) : Outcome TweakableHash :=
  if fits : p.n.toNat ≤ maxDigest then do
    let (seed, _) ← cut p.n.toNat pkSeed
    return match p.family, p.usesWideDigest with
      | .shake, _ => .shake p.n.toNat seed
      | .sha2, false => .sha2 .sha256 p.n.toNat seed fits fits
      | .sha2, true => .sha2 .sha512 p.n.toNat seed fits (Nat.le_trans fits (by decide))
  else broken

end HashSignature.Params
