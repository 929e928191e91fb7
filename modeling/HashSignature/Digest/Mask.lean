/-
# HashSignature.Digest.Mask — a digest stretched to any length

The mask of a seed is the sequence of digests of the seed followed by a counter in four bytes, cut
off at the wanted length. The counter starts at zero and wraps behind its largest value.
-/
import HashSignature.Digest.Basic

namespace HashSignature.Digest

set_option autoImplicit false

/-- The `length` next bytes of the mask, from the block with the given counter on. -/
def maskFrom (D : Digest) (seed : Bytes) (counter : UInt32) (length : Nat) : Bytes :=
  if length = 0 then []
  else
    (D.hash (seed ++ Bytes.ofNat 4 counter.toNat)).take length ++
      maskFrom D seed (counter + 1) (length - D.width)
termination_by length
decreasing_by have := D.width_pos; omega

def mask (D : Digest) (seed : Bytes) (length : Nat) : Bytes := D.maskFrom seed 0 length

theorem length_maskFrom (D : Digest) (seed : Bytes) (counter : UInt32) (length : Nat) :
    (D.maskFrom seed counter length).length = length := by
  fun_induction D.maskFrom seed counter length with
  | case1 => rfl
  | case2 counter length h ih => simp [ih, D.length_hash]; omega

@[simp] theorem length_mask (D : Digest) (seed : Bytes) (length : Nat) :
    (D.mask seed length).length = length := D.length_maskFrom seed 0 length

end HashSignature.Digest
