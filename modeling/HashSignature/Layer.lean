/-
# HashSignature.Layer — one layer of the hypertree (XMSS)

A layer signs with the leaves of a hash tree whose leaf `i` is the public key of the one-time key
pair `i`. A layer signature is a one-time signature with the authentication path of its key.

The operations take an address of which only layer and tree matter, and return it as the last hash
call left it.
-/
import HashSignature.MerkleTree
import HashSignature.OneTime

namespace HashSignature.Layer

set_option autoImplicit false

open Outcome

def address (layer : UInt32) (tree : UInt64) : Address := (Address.zero.setLayer layer).setTree tree

def keyAddress (adrs : Address) (keyPair : UInt32) : Address :=
  (adrs.setType .wotsHash).setKeyPair keyPair

/-- Leaf `i`: the public key of key pair `i`. -/
def leaf (H : TweakableHash) (p : Params) (skSeed : Bytes) (adrs : Address) (i : UInt32) :
    Outcome Bytes := do
  let (key, _) ← OneTime.publicKey H p.len.toNat skSeed (keyAddress adrs i)
  return key

/-- Builds the tree at an address, with the path of a leaf if `room` is set aside for it. -/
def build (H : TweakableHash) (p : Params) (skSeed : Bytes) (adrs : Address) (leafIndex : UInt32)
    (room : Option Nat) : Outcome MerkleTree.Built :=
  MerkleTree.build H (adrs.setType .tree) p.hp.toNat 0 leafIndex room (leaf H p skSeed adrs)

def root (H : TweakableHash) (p : Params) (skSeed : Bytes) (layer : UInt32) (tree : UInt64) :
    Outcome Bytes := do
  let built ← build H p skSeed (address layer tree) 0 none
  return built.root

/-- A layer signature, the root of its tree, and the address left behind. -/
structure Signed where
  signature : Bytes
  root : Bytes
  adrs : Address

/-- Signs a message with the key pair `index` of the tree at an address. -/
def sign (H : TweakableHash) (p : Params) (message skSeed : Bytes) (index : UInt32)
    (adrs : Address) : Outcome Signed := do
  let length ← p.layerSize
  buffer length
  let room ← less length (← p.oneTimeSize)
  let built ← build H p skSeed adrs index (some room)
  let (oneTime, adrs) ← OneTime.sign H p.len.toNat message skSeed (keyAddress built.adrs index)
  return ⟨oneTime ++ built.path, built.root, adrs⟩

/-- The root under which a layer signature of a message with key pair `index` is valid. -/
def rootOf (H : TweakableHash) (p : Params) (index : UInt32) (signature message : Bytes)
    (adrs : Address) : Outcome (Bytes × Address) := do
  let (oneTime, path) ← cut (← p.oneTimeSize) signature
  let (key, adrs) ←
    OneTime.publicKeyOf H p.len.toNat oneTime message (keyAddress adrs index)
  MerkleTree.rootOf H (adrs.setType .tree) p.hp.toNat 0 index key path

end HashSignature.Layer
