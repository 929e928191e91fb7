/-
# HashSignature.MerkleTree.InPlace — a tree built in one buffer, a path followed in place

The nodes of a tree share one buffer, the arena, which a caller keeps from tree to tree. The leaves
fill it; then each level is written over the front of the level below, while the rest of that level
is still to be read, until the root stands in front. A node of the path is copied to the caller's
buffer just before its level is written over.

`buildIn` builds the tree of `build` in such buffers. It checks the same things before it writes
anything, and what it writes does not depend on what the buffers held before. `rootIn` follows a path
as `rootOf` does: it writes height and index to the address level by level, and the root at the end.
-/
import HashSignature.MerkleTree

namespace HashSignature.MerkleTree

set_option autoImplicit false

open Outcome

/-- The buffers that a tree is built in. -/
structure Workspace where
  /-- The address of the nodes; their heights and indices are written to it. -/
  adrs : Address
  /-- Takes the root. -/
  root : Bytes
  /-- Takes the path, if it is asked for. -/
  path? : Option Bytes
  /-- Takes the nodes, whatever it was used for before. -/
  arena : Bytes
deriving DecidableEq

/-- A computation in a workspace; what was written before it stops stays written. -/
abbrev Building := ExceptT Stop (StateM Workspace)

/-! ## Blocks of a buffer -/

/-- The block of `n` bytes with a number, which has to lie inside the buffer. -/
def blockAt (n number : Nat) (buffer : Bytes) : Outcome Bytes := do
  ensure ((number + 1) * n ≤ buffer.length)
  return Bytes.slice (number * n) n buffer

/-- The buffer with one of its blocks of `n` bytes replaced. -/
def putBlock (n number : Nat) (block buffer : Bytes) : Outcome Bytes := do
  ensure (block.length = n ∧ (number + 1) * n ≤ buffer.length)
  return Bytes.overwrite (number * n) block buffer

namespace Building

/-- A computation that writes nothing. -/
def ofOutcome {α : Type} (outcome : Outcome α) : Building α := fun work => (outcome, work)

def node (n number : Nat) : Building Bytes := do
  ofOutcome (blockAt n number (← get).arena)

def setNode (n number : Nat) (block : Bytes) : Building Unit := do
  let arena ← ofOutcome (putBlock n number block (← get).arena)
  modify ({ · with arena })

/-- Copies the node beside the path of a leaf, if the path is asked for. -/
def savePath (n : Nat) (leafIndex : UInt32) (level : Nat) : Building Unit := do
  match (← get).path? with
  | none => pure ()
  | some path => do
    let position ← ofOutcome (shr32 leafIndex level)
    let beside ← node n (position ^^^ 1).toNat
    let path ← ofOutcome (putBlock n level beside path)
    modify ({ · with path? := some path })

/-- Writes the root, for which there has to be exactly its room. -/
def saveRoot (n : Nat) (root : Bytes) : Building Unit := do
  ofOutcome (ensure ((← get).root.length = n))
  modify ({ · with root })

end Building

open Building

/-! ## Building a tree -/

/-- Writes `count` leaves to the arena, from the one with number `index` on. -/
def fillLeaves (n : Nat) (leaf : UInt32 → Outcome Bytes) : (count index : Nat) → Building Unit
  | 0, _ => pure ()
  | count + 1, index => do
    setNode n index (← ofOutcome (leaf (UInt32.ofNat index)))
    fillLeaves n leaf count (index + 1)

/-- Replaces `count` pairs of nodes by their parents, from the parent with number `index` on. A
parent is written where a node of an earlier pair stood, or the first node of its own pair. -/
def hashPairs (H : TweakableHash) (base : UInt32) : (count index : Nat) → Building Unit
  | 0, _ => pure ()
  | count + 1, index => do
    let number ← ofOutcome (add32 base (UInt32.ofNat index))
    modify fun work => { work with adrs := work.adrs.setTreeIndex number }
    let left ← node H.n (2 * index)
    let right ← node H.n (2 * index + 1)
    setNode H.n index (H.h (← get).adrs left right)
    hashPairs H base count (index + 1)

/-- Builds `more` levels on the nodes in the arena, which are those of a level. -/
def raise (H : TweakableHash) (offset leafIndex : UInt32) : (more level : Nat) → Building Unit
  | 0, _ => pure ()
  | more + 1, level => do
    savePath H.n leafIndex level
    modify fun work => { work with adrs := work.adrs.setTreeHeight (UInt32.ofNat (level + 1)) }
    let base ← ofOutcome (shr32 offset (level + 1))
    hashPairs H base (2 ^ more) 0
    raise H offset leafIndex more (level + 1)

/-- Refuses a buffer for a path that does not have its length. -/
def checkRoom (n height : Nat) : (path? : Option Bytes) → Outcome Unit
  | some path => checkPath n height path.length
  | none => .ok ()

/-- Builds the tree whose leaf `i` is `leaf i`, and the path of `leafIndex` if it is asked for. -/
def buildIn (H : TweakableHash) (height : Nat) (offset leafIndex : UInt32)
    (leaf : UInt32 → Outcome Bytes) : Building Unit := do
  ofOutcome (checkBounds height offset leafIndex)
  ofOutcome (checkRoom H.n height (← get).path?)
  ofOutcome (ensure (0 < H.n))
  ofOutcome (buffer (2 ^ height * H.n))
  modify ({ · with arena := Bytes.zeros (2 ^ height * H.n) })
  fillLeaves H.n leaf (2 ^ height) 0
  raise H offset leafIndex height 0
  saveRoot H.n (← node H.n 0)

/-! ## Following a path -/

/-- Combines a node of a level with the nodes beside it, level by level. -/
def followIn (H : TweakableHash) (leafIndex globalIndex : UInt32) : (level : Nat) →
    (node : Bytes) → (path : List Bytes) → Building Bytes
  | _, node, [] => pure node
  | level, node, beside :: path => do
    modify fun work => { work with adrs := work.adrs.setTreeHeight (UInt32.ofNat (level + 1)) }
    let index ← ofOutcome (shr32 globalIndex (level + 1))
    modify fun work => { work with adrs := work.adrs.setTreeIndex index }
    let position ← ofOutcome (shr32 leafIndex level)
    let adrs := (← get).adrs
    let parent := if position &&& 1 = 0 then H.h adrs node beside else H.h adrs beside node
    followIn H leafIndex globalIndex (level + 1) parent path

/-- Writes the root that a leaf and its path lead to. -/
def rootIn (H : TweakableHash) (height : Nat) (offset leafIndex : UInt32) (leaf path : Bytes) :
    Building Unit := do
  ofOutcome (checkBounds height offset leafIndex)
  ofOutcome (checkPath H.n height path.length)
  ofOutcome (ensure (0 < H.n))
  let node ← ofOutcome (exactly H.n leaf)
  let globalIndex ← ofOutcome (add32 offset leafIndex)
  let root ← followIn H leafIndex globalIndex 0 node (Bytes.blocks H.n height path)
  saveRoot H.n root

end HashSignature.MerkleTree
