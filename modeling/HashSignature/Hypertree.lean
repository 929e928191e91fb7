/-
# HashSignature.Hypertree — layers that sign each other's roots

Layer 0 signs a message; every higher layer signs the root of the tree below it, with the leaf
that the tree's index selects. The root of the single tree on top is the long-term public value.
-/
import HashSignature.Layer

namespace HashSignature.Hypertree

set_option autoImplicit false

open Outcome

/-- The leaf and the tree one layer up that belong to a tree: the low `hp` bits of its index
select the leaf, the other bits the tree. -/
def ascend (p : Params) (tree : UInt64) : Outcome (UInt32 × UInt64) := do
  let width ← shl64 1 p.hp.toNat
  let above ← shr64 tree p.hp.toNat
  return ((tree &&& (width - 1)).toUInt32, above)

/-- The leaf and the tree that sign on a layer, given those of the layer below; on layer 0 they are
given themselves. -/
def position (p : Params) (layer : Nat) (tree : UInt64) (leaf : UInt32) :
    Outcome (UInt32 × UInt64) :=
  if layer = 0 then .ok (leaf, tree) else ascend p tree

def checkLength (p : Params) (length : Nat) : Outcome Unit := do
  let expected ← p.hypertreeSize
  if length = expected then return ()
  else refuse (.invalidLength "hypertree signature" expected length)

/-- The layer signatures of a node from a layer on, up to the top. -/
def signFrom (H : TweakableHash) (p : Params) (skSeed : Bytes) : (more layer : Nat) →
    (tree : UInt64) → (leaf : UInt32) → (node : Bytes) → Outcome (List Bytes)
  | 0, _, _, _, _ => .ok []
  | more + 1, layer, tree, leaf, node => do
    let (leaf, tree) ← position p layer tree leaf
    let signed ← Layer.sign H p node skSeed leaf (Layer.address (UInt32.ofNat layer) tree)
    let rest ← signFrom H p skSeed more (layer + 1) tree leaf signed.root
    return signed.signature :: rest

/-- Signs a message with a leaf of a tree of layer 0 and all layers above; `room` bytes are set
aside for the signature. -/
def sign (H : TweakableHash) (p : Params) (message skSeed : Bytes) (tree : UInt64) (leaf : UInt32)
    (room : Nat) : Outcome Bytes := do
  buffer room
  checkLength p room
  let node ← exactly p.n.toNat message
  ensure (0 < (← p.layerSize))
  let layers ← signFrom H p skSeed p.d.toNat 0 tree leaf node
  return layers.flatten

/-- The node that the layer signatures from a layer on lead to. -/
def nodeFrom (H : TweakableHash) (p : Params) : (layer : Nat) → (tree : UInt64) →
    (leaf : UInt32) → (node : Bytes) → (layers : List Bytes) → Outcome Bytes
  | _, _, _, node, [] => .ok node
  | layer, tree, leaf, node, signature :: rest => do
    let (leaf, tree) ← position p layer tree leaf
    let (root, _) ←
      Layer.rootOf H p leaf signature node (Layer.address (UInt32.ofNat layer) tree)
    nodeFrom H p (layer + 1) tree leaf root rest

/-- Whether a hypertree signature of a message leads to a root. -/
def verify (H : TweakableHash) (p : Params) (message signature : Bytes) (tree : UInt64)
    (leaf : UInt32) (root : Bytes) : Outcome Bool := do
  checkLength p signature.length
  let node ← exactly p.n.toNat message
  let width ← p.layerSize
  ensure (0 < width)
  let top ← nodeFrom H p 0 tree leaf node (Bytes.blocks width p.d.toNat signature)
  return top == root

end HashSignature.Hypertree
