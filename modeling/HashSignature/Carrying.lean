/-
# HashSignature.Carrying — an address that is changed in place, call after call

An operation is handed an address to write to, and its caller finds there whatever the last call
left, also when the operation refuses. The leaves of a tree have an address of their own, which they
hand on from leaf to leaf without clearing it. So most fields are stale most of the time.

* `Layer.signIn`, `Layer.rootOfIn` — the operations of a layer on such an address, setter by setter.
* `MerkleTree.buildOver` — a tree whose leaves write to one address of their own; `OneTime.secretIn`,
  `Forest.leafIn` and `Layer.leafIn` are the computations that do so.
-/
import HashSignature.Forest
import HashSignature.Layer

namespace HashSignature

set_option autoImplicit false

open Outcome

/-- A computation that changes an address; what it set before it stops stays set. -/
abbrev Carrying := ExceptT Stop (StateM Address)

namespace Carrying

variable {α : Type}

/-- A computation that sets nothing. -/
def ofOutcome (outcome : Outcome α) : Carrying α := fun adrs => (outcome, adrs)

/-- Hands the address to an operation that returns it as it leaves it, and that writes nothing if it
refuses. -/
def call (op : Address → Outcome (α × Address)) : Carrying α := fun adrs =>
  match op adrs with
  | .ok (a, left) => (.ok a, left)
  | .error stop => (.error stop, adrs)

/-- What a computation returns for each number below a count, with one address for all of them. -/
def each (f : UInt32 → Carrying α) (count : Nat) (own : Address) : Outcome (List α) :=
  (((List.range count).mapM fun i => f (UInt32.ofNat i)) own).1

end Carrying

open Carrying

/-! ## Leaves with an address of their own -/

/-- The secret at the start of a chain, under the address that the chains before it used. -/
def OneTime.secretIn (H : TweakableHash) (skSeed : Bytes) (index : UInt32) : Carrying Bytes := do
  modify (·.setChain index)
  return H.prf (← get) skSeed

/-- Leaf `i` of the tree that starts at an offset, under the address that the leaves before it
used. -/
def Forest.leafIn (H : TweakableHash) (skSeed : Bytes) (offset i : UInt32) : Carrying Bytes := do
  let index ← ofOutcome (add32 offset i)
  let block := secret H skSeed (← get) index
  modify (·.setTreeHeight 0)
  modify (·.setTreeIndex index)
  return H.f (← get) block

/-- Leaf `i` of a layer's tree, under the address that the leaves before it used. -/
def Layer.leafIn (H : TweakableHash) (p : Params) (skSeed : Bytes) (i : UInt32) : Carrying Bytes := do
  modify (·.setKeyPair i)
  call (OneTime.publicKey H p.len.toNat skSeed)

/-- Builds the tree whose leaf `i` is what `leaf i` returns under the address that is their own. -/
def MerkleTree.buildOver (H : TweakableHash) (adrs : Address) (height : Nat)
    (offset leafIndex : UInt32) (room : Option Nat) (own : Address)
    (leaf : UInt32 → Carrying Bytes) : Outcome Built := do
  buffer (room.getD 0)
  checkBounds height offset leafIndex
  match room with
  | some length => checkPath H.n height length
  | none => pure ()
  ensure (0 < H.n)
  let leaves ← each leaf (2 ^ height) own
  climb H offset leafIndex room.isSome height 0 adrs leaves

/-- Builds a tree of a forest; its leaves start from the address that its nodes start from. -/
def Forest.buildTreeOver (H : TweakableHash) (p : Params) (skSeed : Bytes) (adrs : Address)
    (tree : Nat) (leafIndex : UInt32) (room : Option Nat) : Outcome MerkleTree.Built := do
  let offset ← treeOffset p tree
  MerkleTree.buildOver H adrs p.a.toNat offset leafIndex room adrs (leafIn H skSeed offset)

/-! ## Layers -/

namespace Layer

/-- Builds the tree at an address: the root, and the path of a leaf if `room` is set aside for it. -/
def buildOn (H : TweakableHash) (p : Params) (skSeed : Bytes) (leafIndex : UInt32)
    (room : Option Nat) : Carrying (Bytes × Bytes) := do
  let own := (← get).setType .wotsHash
  modify (·.setType .tree)
  call fun adrs => do
    let built ← MerkleTree.buildOver H adrs p.hp.toNat 0 leafIndex room own (leafIn H p skSeed)
    return ((built.root, built.path), built.adrs)

/-- Signs a message with the key pair `index` of the tree at an address: the signature and the
root. -/
def signIn (H : TweakableHash) (p : Params) (message skSeed : Bytes) (index : UInt32) :
    Carrying (Bytes × Bytes) := do
  let length ← ofOutcome p.layerSize
  ofOutcome (buffer length)
  let oneTimeSize ← ofOutcome p.oneTimeSize
  let room ← ofOutcome (less length oneTimeSize)
  let (root, path) ← buildOn H p skSeed index (some room)
  modify (·.setType .wotsHash)
  modify (·.setKeyPair index)
  let oneTime ← call (OneTime.sign H p.len.toNat message skSeed)
  return (oneTime ++ path, root)

/-- The root under which a layer signature of a message with key pair `index` is valid. -/
def rootOfIn (H : TweakableHash) (p : Params) (index : UInt32) (signature message : Bytes) :
    Carrying Bytes := do
  let oneTimeSize ← ofOutcome p.oneTimeSize
  let (oneTime, path) ← ofOutcome (cut oneTimeSize signature)
  modify (·.setType .wotsHash)
  modify (·.setKeyPair index)
  let key ← call (OneTime.publicKeyOf H p.len.toNat oneTime message)
  modify (·.setType .tree)
  call fun adrs => MerkleTree.rootOf H adrs p.hp.toNat 0 index key path

end Layer

end HashSignature
