/-
# HashSignature.InArena — one arena for all trees of a request

A request sets aside one arena, as wide as the leaves of its widest tree, and builds all its trees
in it, one after the other. A tree finds there what the last one left and leaves its own nodes
behind.

* `build` — a tree in the arena, with new room for its root and its path.
* `publicRoot`, `sign` — key generation and signing; apart from where their trees stand they are
  `Signing.publicRoot` and `Signing.sign`, step by step.
-/
import HashSignature.MerkleTree.InPlace
import HashSignature.Signing

namespace HashSignature

set_option autoImplicit false

open Outcome

/-- A computation that builds its trees in an arena, which it keeps from tree to tree. -/
abbrev InArena := ExceptT Stop (StateM Bytes)

namespace InArena

/-- Builds a tree in the arena. With `room`, the path of `leafIndex` is asked for, and `room` bytes
are set aside for it. -/
def build (H : TweakableHash) (adrs : Address) (height : Nat) (offset leafIndex : UInt32)
    (room : Option Nat) (leaf : UInt32 → Outcome Bytes) : InArena MerkleTree.Built := fun arena =>
  let work := ⟨adrs, Bytes.zeros H.n, room.map Bytes.zeros, arena⟩
  match MerkleTree.buildIn H height offset leafIndex leaf work with
  | (.ok _, left) => (.ok ⟨left.root, left.path?.getD [], left.adrs⟩, left.arena)
  | (.error stop, left) => (.error stop, left.arena)

/-! ## The forest, step by step as in `Forest` -/

def forestTree (H : TweakableHash) (p : Params) (skSeed : Bytes) (adrs : Address) (tree : Nat)
    (leafIndex : UInt32) (room : Option Nat) : InArena MerkleTree.Built := do
  let offset ← Forest.treeOffset p tree
  build H adrs p.a.toNat offset leafIndex room (Forest.leaf H skSeed adrs offset)

def forestFrom (H : TweakableHash) (p : Params) (skSeed : Bytes) (room : Nat) : (tree : Nat) →
    Address → List UInt32 → InArena (List Bytes × List Bytes × Address)
  | _, adrs, [] => return ([], [], adrs)
  | tree, adrs, index :: rest => do
    let globalIndex ← add32 (← Forest.treeOffset p tree) index
    let built ← forestTree H p skSeed adrs tree index (some room)
    let (segments, roots, left) ← forestFrom H p skSeed room (tree + 1) built.adrs rest
    return ((Forest.secret H skSeed adrs globalIndex ++ built.path) :: segments,
      built.root :: roots, left)

def forestSign (H : TweakableHash) (p : Params) (digest skSeed : Bytes) (adrs : Address)
    (room : Nat) : InArena Forest.Signed := do
  buffer room
  Forest.checkLength p room
  let selected ← Forest.indices p digest
  buffer (p.k.toNat * p.n.toNat)
  let width ← p.segmentSize
  ensure (0 < p.n)
  let pathRoom ← less width p.n.toNat
  let (segments, roots, adrs) ← forestFrom H p skSeed pathRoom 0 adrs selected
  return ⟨segments.flatten, Forest.compress H adrs roots, adrs⟩

/-! ## The layers, step by step as in `Layer` and `Hypertree` -/

def layerBuild (H : TweakableHash) (p : Params) (skSeed : Bytes) (adrs : Address)
    (leafIndex : UInt32) (room : Option Nat) : InArena MerkleTree.Built :=
  build H (adrs.setType .tree) p.hp.toNat 0 leafIndex room (Layer.leaf H p skSeed adrs)

def layerRoot (H : TweakableHash) (p : Params) (skSeed : Bytes) (layer : UInt32) (tree : UInt64) :
    InArena Bytes := do
  let built ← layerBuild H p skSeed (Layer.address layer tree) 0 none
  return built.root

def layerSign (H : TweakableHash) (p : Params) (message skSeed : Bytes) (index : UInt32)
    (adrs : Address) : InArena Layer.Signed := do
  let length ← p.layerSize
  buffer length
  let room ← less length (← p.oneTimeSize)
  let built ← layerBuild H p skSeed adrs index (some room)
  let (oneTime, adrs) ←
    OneTime.sign H p.len.toNat message skSeed (Layer.keyAddress built.adrs index)
  return ⟨oneTime ++ built.path, built.root, adrs⟩

def layersFrom (H : TweakableHash) (p : Params) (skSeed : Bytes) : (more layer : Nat) →
    (tree : UInt64) → (leaf : UInt32) → (node : Bytes) → InArena (List Bytes)
  | 0, _, _, _, _ => return []
  | more + 1, layer, tree, leaf, node => do
    let (leaf, tree) ← Hypertree.position p layer tree leaf
    let signed ← layerSign H p node skSeed leaf (Layer.address (UInt32.ofNat layer) tree)
    let rest ← layersFrom H p skSeed more (layer + 1) tree leaf signed.root
    return signed.signature :: rest

def hypertreeSign (H : TweakableHash) (p : Params) (message skSeed : Bytes) (tree : UInt64)
    (leaf : UInt32) (room : Nat) : InArena Bytes := do
  buffer room
  Hypertree.checkLength p room
  let node ← exactly p.n.toNat message
  ensure (0 < (← p.layerSize))
  let layers ← layersFrom H p skSeed p.d.toNat 0 tree leaf node
  return layers.flatten

/-! ## Requests -/

/-- A request, which starts with an empty arena that has room for its widest tree. -/
def request {α : Type} (p : Params) (run : InArena α) : Outcome α := do
  buffer (← p.arenaSize)
  (run []).1

/-- The public root for given seeds. -/
def publicRoot (p : Params) (skSeed skPrf pkSeed : Bytes) : Outcome Slot := do
  p.check
  Signing.checkLength "secret seed" p.n.toNat skSeed
  Signing.checkLength "PRF key" p.n.toNat skPrf
  Signing.checkLength "public seed" p.n.toNat pkSeed
  let H ← p.hash pkSeed
  let root ← request p do
    let top ← less p.d.toNat 1
    layerRoot H p skSeed (UInt32.ofNat top) 0
  Slot.place p.n.toNat root

/-- Signs a message with given hash functions. -/
def signWith (H : TweakableHash) (p : Params) (key : Signing.SigningKey)
    (message optRand : Bytes) : Outcome Bytes := do
  let total ← p.signatureSize
  let behindRandomizer ← less total p.n.toNat
  let forestRoom ← p.forestSize
  let hypertreeRoom ← less behindRandomizer forestRoom
  let randomizer := H.prfMsg key.skPrf optRand message
  let route ← Signing.digestOf H p randomizer key.pkRoot message
  request p do
    let forest ← forestSign H p route.forest key.skSeed
      (Signing.forestAddress route.tree route.leaf) forestRoom
    let hypertree ← hypertreeSign H p forest.publicKey key.skSeed route.tree route.leaf
      hypertreeRoom
    return randomizer ++ forest.signature ++ hypertree

/-- Signs a prepared message; `optRand` goes into the randomizer. -/
def sign (p : Params) (key : Signing.SigningKey) (message optRand : Bytes) : Outcome Bytes := do
  p.check
  Signing.checkLength "randomizer" p.n.toNat optRand
  Signing.checkLength "secret seed" p.n.toNat key.skSeed
  Signing.checkLength "PRF key" p.n.toNat key.skPrf
  Signing.checkLength "public seed" p.n.toNat key.pkSeed
  Signing.checkLength "public root" p.n.toNat key.pkRoot
  buffer (← p.signatureSize)
  let H ← p.hash key.pkSeed
  signWith H p key message optRand

end InArena

end HashSignature
