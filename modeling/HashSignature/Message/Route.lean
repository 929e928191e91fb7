/-
# HashSignature.Message.Route — where a message digest leads

A message digest is three strings behind each other: the first selects the leaves of a forest, the
second the tree of layer 0 under which the forest stands, the third the leaf of that tree.
-/
import HashSignature.Params

namespace HashSignature

set_option autoImplicit false

/-- What a message digest selects: the part for the forest, a tree of layer 0, a leaf of that
tree. -/
structure Route where
  forest : Bytes
  tree : UInt64
  leaf : UInt32
deriving DecidableEq, Repr

namespace Route

open Outcome

/-- The big-endian number in a string, in a 64-bit word; of a longer string only the end counts. -/
def word (bytes : Bytes) : UInt64 := bytes.foldl (fun word b => word <<< 8 ||| b.toUInt64) 0

def lowBits (word : UInt64) (bits : Nat) : UInt64 :=
  if 64 ≤ bits then word else word &&& ((1 <<< UInt64.ofNat bits) - 1)

def ofDigest (p : Params) (digest : Bytes) : Outcome Route := do
  let (forest, rest) ← cut (← p.forestDigestSize) digest
  let (tree, rest) ← cut (← p.treeIndexSize) rest
  let (leaf, _) ← cut p.leafIndexSize rest
  let treeBits ← less p.h.toNat p.hp.toNat
  return {
    forest
    tree := lowBits (word tree) treeBits
    leaf := (lowBits (word leaf) p.hp.toNat).toUInt32 }

end Route

end HashSignature
