/-
# HashSignature.Tweakable.Sha2 — the hash functions built on SHA-2

Secrets and single blocks are hashed with SHA-256. Nodes, compressions and messages use a second
digest, SHA-256 for 16-byte digests and SHA-512 for longer ones. A tagged hash sees the public
seed filled up with zeros to one input block, the short form of the address and the data. The
randomizer is a keyed digest, the message digest a mask whose seed ends in a digest of the
message.
-/
import HashSignature.Digest.Hmac
import HashSignature.Digest.Mask
import HashSignature.Digest.Sha256
import HashSignature.Digest.Sha512
import HashSignature.Tweakable.Basic

namespace HashSignature.TweakableHash

set_option autoImplicit false

/-- What a tagged hash sees: the seed as one input block, the short address, the data. -/
def sha2Input (D : Digest) (seed : Bytes) (adrs : Address) (data : Bytes) : Bytes :=
  Bytes.padTo D.blockSize seed ++ adrs.compressed ++ data

/-- The seed of the mask that digests a message. -/
def sha2MaskSeed (D : Digest) (seed randomizer pkRoot message : Bytes) : Bytes :=
  randomizer ++ seed ++ D.hash (randomizer ++ seed ++ pkRoot ++ message)

/-- The hash functions over SHA-256 and a second, wide digest. -/
def sha2 (wide : Digest) (n : Nat) (seed : Bytes) (narrow_fits : n ≤ Digest.sha256.width)
    (wide_fits : n ≤ wide.width) : TweakableHash where
  n := n
  prf adrs skSeed := (Digest.sha256.hash (sha2Input .sha256 seed adrs skSeed)).take n
  takes length := length ≤ Digest.sha256.width
  f adrs block := (Digest.sha256.hash (sha2Input .sha256 seed adrs block)).take block.length
  h adrs left right := (wide.hash (sha2Input wide seed adrs (left ++ right))).take n
  t adrs blocks := (wide.hash (sha2Input wide seed adrs blocks)).take n
  prfMsg skPrf optRand message := (wide.hmac skPrf (optRand ++ message)).take n
  hMsg randomizer pkRoot message length :=
    wide.mask (sha2MaskSeed wide seed randomizer pkRoot message) length
  takes_n := by simp [narrow_fits]
  length_prf _ _ := by simp [Digest.length_hash, narrow_fits]
  length_f _ _ h := by simpa [Digest.length_hash] using Nat.min_eq_left (of_decide_eq_true h)
  length_h _ _ _ := by simp [Digest.length_hash, wide_fits]
  length_t _ _ := by simp [Digest.length_hash, wide_fits]
  length_prfMsg _ _ _ := by simp [wide_fits]
  length_hMsg _ _ _ _ := by simp

end HashSignature.TweakableHash
