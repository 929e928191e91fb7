/-
# HashSignature.MerkleTree — binary hash trees and authentication paths

A tree of height `z` has `2 ^ z` leaves; each node above them is the digest of its two children,
under an address that holds its height and its index. Trees may stand side by side in one
numbering: the leaves of a tree then start at an offset, and its nodes at the offset shifted by
their height.

* `build` — the root over all leaves, with the path of one leaf if it is asked for.
* `rootOf` — the root that a leaf and its path lead to.

Both refuse a tree that does not fit the 32-bit numbering, then a path of the wrong length. Both
return the address as the last hash call left it: only height and index have changed.
-/
import HashSignature.Outcome
import HashSignature.Tweakable.Basic

namespace HashSignature.MerkleTree

set_option autoImplicit false

open Outcome

def maxHeight : Nat := 31

/-- Refuses a tree that is too high, a leaf outside it, or a tree that ends behind the last index.
-/
def checkBounds (height : Nat) (offset leafIndex : UInt32) : Outcome Unit :=
  let outside : Outcome Unit := refuse
    (.invalidTree (UInt32.ofNat height) (offset.toUInt64 + leafIndex.toUInt64))
  if maxHeight < height then outside
  else do
    let width ← shl64 1 height
    if width ≤ leafIndex.toUInt64 then outside
    else do
      let last ← add64 offset.toUInt64 width
      if 2 ^ 32 < last.toNat then outside else return ()

/-- Refuses a path that does not have `height` blocks of `n` bytes. -/
def checkPath (n height length : Nat) : Outcome Unit := do
  let expected ← size (height * n)
  if length = expected then return ()
  else refuse (.invalidLength "authentication path" expected length)

/-! ## Building a tree -/

/-- A tree that was built: its root, the path that was asked for, and the address left behind. -/
structure Built where
  root : Bytes
  path : Bytes
  adrs : Address

/-- The next level: the digests of the pairs of nodes, the first of them with index `base +
index`. -/
def pairUp (H : TweakableHash) (base : UInt32) : (index : UInt32) → Address → List Bytes →
    Outcome (List Bytes × Address)
  | index, adrs, left :: right :: rest => do
    let nodeAdrs := adrs.setTreeIndex (← add32 base index)
    let node := H.h nodeAdrs left right
    let (nodes, adrs) ← pairUp H base (index + 1) nodeAdrs rest
    return (node :: nodes, adrs)
  | _, adrs, _ => .ok ([], adrs)

/-- The node of a level that stands on the path of a leaf. -/
def sibling (leafIndex : UInt32) (level : Nat) (nodes : List Bytes) : Outcome Bytes := do
  let position ← shr32 leafIndex level
  match nodes[(position ^^^ 1).toNat]? with
  | some node => return node
  | none => broken

/-- Builds `more` levels on the nodes of a level. -/
def climb (H : TweakableHash) (offset leafIndex : UInt32) (withPath : Bool) :
    (more level : Nat) → Address → List Bytes → Outcome Built
  | 0, _, adrs, root :: _ => .ok ⟨root, [], adrs⟩
  | 0, _, _, [] => broken
  | more + 1, level, adrs, nodes => do
    let beside ← if withPath then sibling leafIndex level nodes else .ok []
    let base ← shr32 offset (level + 1)
    let (above, adrs) ← pairUp H base 0 (adrs.setTreeHeight (UInt32.ofNat (level + 1))) nodes
    let built ← climb H offset leafIndex withPath more (level + 1) adrs above
    return { built with path := beside ++ built.path }

/-- Builds the tree whose leaf `i` is `leaf i`. With `room`, the path of `leafIndex` is asked for,
and `room` bytes are set aside for it. -/
def build (H : TweakableHash) (adrs : Address) (height : Nat) (offset leafIndex : UInt32)
    (room : Option Nat) (leaf : UInt32 → Outcome Bytes) : Outcome Built := do
  buffer (room.getD 0)
  checkBounds height offset leafIndex
  match room with
  | some length => checkPath H.n height length
  | none => pure ()
  ensure (0 < H.n)
  let leaves ← (List.range (2 ^ height)).mapM fun i => leaf (UInt32.ofNat i)
  climb H offset leafIndex room.isSome height 0 adrs leaves

/-! ## Following a path -/

/-- Combines a node of a level with the nodes beside it, level by level. -/
def follow (H : TweakableHash) (leafIndex globalIndex : UInt32) : (level : Nat) → Address →
    (node : Bytes) → (path : List Bytes) → Outcome (Bytes × Address)
  | _, adrs, node, [] => .ok (node, adrs)
  | level, adrs, node, beside :: path => do
    let index ← shr32 globalIndex (level + 1)
    let nodeAdrs := (adrs.setTreeHeight (UInt32.ofNat (level + 1))).setTreeIndex index
    let position ← shr32 leafIndex level
    let parent := if position &&& 1 = 0 then H.h nodeAdrs node beside else H.h nodeAdrs beside node
    follow H leafIndex globalIndex (level + 1) nodeAdrs parent path

/-- The root that a leaf and its path lead to. -/
def rootOf (H : TweakableHash) (adrs : Address) (height : Nat) (offset leafIndex : UInt32)
    (leaf path : Bytes) : Outcome (Bytes × Address) := do
  checkBounds height offset leafIndex
  checkPath H.n height path.length
  ensure (0 < H.n)
  let node ← exactly H.n leaf
  let globalIndex ← add32 offset leafIndex
  follow H leafIndex globalIndex 0 adrs node (Bytes.blocks H.n height path)

end HashSignature.MerkleTree
