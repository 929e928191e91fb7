/-
# HashSignature.Tweakable.Shake — the hash functions built on SHAKE256

Each function is SHAKE256 of the plain concatenation of its inputs, as long as its result has to be.
-/
import HashSignature.Digest.Shake256
import HashSignature.Tweakable.Basic

namespace HashSignature.TweakableHash

set_option autoImplicit false

/-- The hash functions over SHAKE256. -/
def shake (n : Nat) (seed : Bytes) : TweakableHash where
  n := n
  prf adrs skSeed := Shake256.hash (seed ++ adrs.bytes ++ skSeed) n
  takes _ := true
  f adrs block := Shake256.hash (seed ++ adrs.bytes ++ block) block.length
  h adrs left right := Shake256.hash (seed ++ adrs.bytes ++ left ++ right) n
  t adrs blocks := Shake256.hash (seed ++ adrs.bytes ++ blocks) n
  prfMsg skPrf optRand message := Shake256.hash (skPrf ++ optRand ++ message) n
  hMsg randomizer pkRoot message length :=
    Shake256.hash (randomizer ++ seed ++ pkRoot ++ message) length
  takes_n := rfl
  length_prf _ _ := by simp
  length_f _ _ _ := by simp
  length_h _ _ _ := by simp
  length_t _ _ := by simp
  length_prfMsg _ _ _ := by simp
  length_hMsg _ _ _ _ := by simp

end HashSignature.TweakableHash
