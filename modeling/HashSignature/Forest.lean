/-
# HashSignature.Forest — few-time signatures from a forest of hash trees (FORS)

`k` trees of height `a` stand side by side in one numbering. Their leaves are digests of secrets.
The digest of a message selects one leaf in each tree; a signature reveals the secrets of these
leaves with their authentication paths, and the roots of all trees compress to the public value.

Every operation takes the address of the forest and returns it as the last hash call left it: only
height and index have changed.
-/
import HashSignature.Digits
import HashSignature.MerkleTree

namespace HashSignature.Forest

set_option autoImplicit false

open Outcome

/-- The leaf that a message digest selects in each tree: `a` bits for each. -/
def indices (p : Params) (digest : Bytes) : Outcome (List UInt32) :=
  base2b digest (p.a.toNat % 2 ^ 32) p.k.toNat

def treeOffset (p : Params) (tree : Nat) : Outcome UInt32 := shl32 (UInt32.ofNat tree) p.a.toNat

def secretAddress (adrs : Address) : Address := (adrs.setType .forsPrf).setKeyPair adrs.keyPair

def secret (H : TweakableHash) (skSeed : Bytes) (adrs : Address) (index : UInt32) : Bytes :=
  H.prf ((secretAddress adrs).setTreeIndex index) skSeed

def leafAddress (adrs : Address) (index : UInt32) : Address :=
  (adrs.setTreeHeight 0).setTreeIndex index

/-- Leaf `i` of the tree that starts at an offset. -/
def leaf (H : TweakableHash) (skSeed : Bytes) (adrs : Address) (offset i : UInt32) :
    Outcome Bytes := do
  let index ← add32 offset i
  return H.f (leafAddress adrs index) (secret H skSeed adrs index)

/-- Builds a tree, with the path of a leaf if `room` is set aside for it. -/
def buildTree (H : TweakableHash) (p : Params) (skSeed : Bytes) (adrs : Address) (tree : Nat)
    (leafIndex : UInt32) (room : Option Nat) : Outcome MerkleTree.Built := do
  let offset ← treeOffset p tree
  MerkleTree.build H adrs p.a.toNat offset leafIndex room (leaf H skSeed adrs offset)

/-- The public value that the roots of all trees compress to. -/
def compress (H : TweakableHash) (adrs : Address) (roots : List Bytes) : Bytes :=
  H.t ((adrs.setType .forsRoots).setKeyPair adrs.keyPair) roots.flatten

/-! ## The public value -/

/-- The roots of `more` trees from a tree on. -/
def rootsFrom (H : TweakableHash) (p : Params) (skSeed : Bytes) : (more tree : Nat) → Address →
    Outcome (List Bytes × Address)
  | 0, _, adrs => .ok ([], adrs)
  | more + 1, tree, adrs => do
    let built ← buildTree H p skSeed adrs tree 0 none
    let (roots, adrs) ← rootsFrom H p skSeed more (tree + 1) built.adrs
    return (built.root :: roots, adrs)

/-- The public value of the forest at an address. -/
def publicKey (H : TweakableHash) (p : Params) (skSeed : Bytes) (adrs : Address) :
    Outcome (Bytes × Address) := do
  buffer (p.k.toNat * p.n.toNat)
  ensure (0 < p.n)
  let (roots, adrs) ← rootsFrom H p skSeed p.k.toNat 0 adrs
  return (compress H adrs roots, adrs)

/-! ## Signatures -/

/-- A forest signature, the public value it belongs to, and the address left behind. -/
structure Signed where
  signature : Bytes
  publicKey : Bytes
  adrs : Address

def checkLength (p : Params) (length : Nat) : Outcome Unit := do
  let expected ← p.forestSize
  if length = expected then return ()
  else refuse (.invalidLength "FORS signature" expected length)

/-- Signs with one leaf in each tree from a tree on, with `room` bytes for each path: the segments
of the signature, and the roots. -/
def signFrom (H : TweakableHash) (p : Params) (skSeed : Bytes) (room : Nat) : (tree : Nat) →
    Address → List UInt32 → Outcome (List Bytes × List Bytes × Address)
  | _, adrs, [] => .ok ([], [], adrs)
  | tree, adrs, index :: rest => do
    let globalIndex ← add32 (← treeOffset p tree) index
    let built ← buildTree H p skSeed adrs tree index (some room)
    let (segments, roots, left) ← signFrom H p skSeed room (tree + 1) built.adrs rest
    return ((secret H skSeed adrs globalIndex ++ built.path) :: segments, built.root :: roots, left)

/-- Signs a message digest with the forest at an address; `room` bytes are set aside for the
signature. -/
def sign (H : TweakableHash) (p : Params) (digest skSeed : Bytes) (adrs : Address) (room : Nat) :
    Outcome Signed := do
  buffer room
  checkLength p room
  let selected ← indices p digest
  buffer (p.k.toNat * p.n.toNat)
  let width ← p.segmentSize
  ensure (0 < p.n)
  let pathRoom ← less width p.n.toNat
  let (segments, roots, adrs) ← signFrom H p skSeed pathRoom 0 adrs selected
  return ⟨segments.flatten, compress H adrs roots, adrs⟩

/-- The roots that the segments of a signature lead to, from a tree on. -/
def rootsOf (H : TweakableHash) (p : Params) : (tree : Nat) → Address → List (Bytes × UInt32) →
    Outcome (List Bytes × Address)
  | _, adrs, [] => .ok ([], adrs)
  | tree, adrs, (segment, index) :: rest => do
    let offset ← treeOffset p tree
    let (revealed, path) ← cut p.n.toNat segment
    let leafAdrs := leafAddress adrs (← add32 offset index)
    let leaf := H.f leafAdrs revealed
    let (root, adrs) ← MerkleTree.rootOf H leafAdrs p.a.toNat offset index leaf path
    let (roots, adrs) ← rootsOf H p (tree + 1) adrs rest
    return (root :: roots, adrs)

/-- The public value under which a signature of a message digest is valid. -/
def publicKeyOf (H : TweakableHash) (p : Params) (signature digest : Bytes) (adrs : Address) :
    Outcome (Bytes × Address) := do
  checkLength p signature.length
  let selected ← indices p digest
  buffer (p.k.toNat * p.n.toNat)
  let width ← p.segmentSize
  ensure (0 < p.n)
  let segments := Bytes.blocks width p.k.toNat signature
  let (roots, adrs) ← rootsOf H p 0 adrs (segments.zip selected)
  return (compress H adrs roots, adrs)

end HashSignature.Forest
