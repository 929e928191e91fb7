/-
# HashSignature.Proofs.Plain — the scheme as FIPS 205 describes it

The signer of the library builds each tree once, cuts the path of a leaf out of it while it goes up,
and hands roots on from one layer to the next. Here are the algorithms that it stands for, as plain
recursive functions over the same six hash functions. Numbers are unbounded, each node of a path is
computed by a recursion of its own, and what a layer signs is computed from the signature below it,
as a verifier would.

Nothing here uses the functions that it is compared with, only addresses, parameters and byte
strings.
-/
import Mathlib.Algebra.Order.Floor.Div
import HashSignature.Signing

namespace HashSignature.Plain

set_option autoImplicit false

/-! ## Digits -/

/-- The first `count` digits of `b` bits of a string (Algorithm 4). -/
def digits (bytes : Bytes) (b count : Nat) : List Nat :=
  (List.range count).map fun i => bytes.toNat / 2 ^ (8 * bytes.length - (i + 1) * b) % 2 ^ b

/-! ## One-time signatures -/

/-- The value `steps` steps up a chain from a block at step `start` (Algorithm 5). -/
def chain (H : TweakableHash) (adrs : Address) (block : Bytes) (start : Nat) : (steps : Nat) → Bytes
  | 0 => block
  | steps + 1 =>
    H.f (adrs.setHash (UInt32.ofNat (start + steps))) (chain H adrs block start steps)

/-- The digits of a message of `n` bytes and of its checksum, which stands in the high bits of two
bytes. -/
def oneTimeDigits (n : Nat) (message : Bytes) : List Nat :=
  let front := digits message 4 (2 * n)
  let checksum := (front.map fun digit => 15 - digit).sum
  front ++ digits (Bytes.ofNat 2 (checksum * 2 ^ 4)) 4 3

/-- The secret at the start of a chain. -/
def oneTimeSecret (H : TweakableHash) (skSeed : Bytes) (adrs : Address) (i : Nat) : Bytes :=
  H.prf (((adrs.setType .wotsPrf).setKeyPair adrs.keyPair).setChain (UInt32.ofNat i)) skSeed

/-- The key that the ends of all chains compress to. -/
def oneTimeCompress (H : TweakableHash) (adrs : Address) (ends : List Bytes) : Bytes :=
  H.t ((adrs.setType .wotsPk).setKeyPair adrs.keyPair) ends.flatten

/-- The public key of a key pair (Algorithm 6). -/
def oneTimeKey (H : TweakableHash) (n : Nat) (skSeed : Bytes) (adrs : Address) : Bytes :=
  oneTimeCompress H adrs ((List.range (2 * n + 3)).map fun i =>
    chain H (adrs.setChain (UInt32.ofNat i)) (oneTimeSecret H skSeed adrs i) 0 15)

/-- The signature of a message, one block for each chain (Algorithm 7). -/
def oneTimeSign (H : TweakableHash) (n : Nat) (message skSeed : Bytes) (adrs : Address) :
    List Bytes :=
  (oneTimeDigits n message).zipIdx.map fun (digit, i) =>
    chain H (adrs.setChain (UInt32.ofNat i)) (oneTimeSecret H skSeed adrs i) 0 digit

/-- The public key under which a signature of a message is valid (Algorithm 8). -/
def oneTimeKeyOf (H : TweakableHash) (n : Nat) (signature : List Bytes) (message : Bytes)
    (adrs : Address) : Bytes :=
  oneTimeCompress H adrs ((signature.zip (oneTimeDigits n message)).zipIdx.map
    fun ((block, digit), i) =>
      chain H (adrs.setChain (UInt32.ofNat i)) block digit (15 - digit))

/-! ## Trees -/

/-- The value that a node climbs to with the nodes beside it. `turn` is its index in its own tree,
which says on which side it stands, and `index` its index among all nodes of its height. -/
def climb (H : TweakableHash) (adrs : Address) : (height turn index : Nat) → (node : Bytes) →
    (path : List Bytes) → Bytes
  | _, _, _, node, [] => node
  | height, turn, index, node, beside :: path =>
    let above := (adrs.setTreeHeight (UInt32.ofNat (height + 1))).setTreeIndex
      (UInt32.ofNat (index / 2))
    climb H adrs (height + 1) (turn / 2) (index / 2)
      (if turn % 2 = 0 then H.h above node beside else H.h above beside node) path

/-! ## Layers -/

/-- A layer signature: the blocks of a one-time signature and the path of its key. -/
structure LayerSignature where
  chains : List Bytes
  path : List Bytes

/-- The blocks, and behind them the path. -/
def LayerSignature.encode (signature : LayerSignature) : Bytes :=
  signature.chains.flatten ++ signature.path.flatten

/-- One block for each chain and one node for each level, all of `n` bytes. -/
structure LayerSignature.Shaped (p : Params) (signature : LayerSignature) : Prop where
  chains : signature.chains.length = p.len.toNat
  blocks : ∀ block ∈ signature.chains, block.length = p.n.toNat
  path : signature.path.length = p.hp.toNat
  nodes : ∀ node ∈ signature.path, node.length = p.n.toNat

/-- A node of the tree at an address (Algorithm 9). -/
def layerNode (H : TweakableHash) (p : Params) (skSeed : Bytes) (adrs : Address) :
    (height index : Nat) → Bytes
  | 0, index =>
    oneTimeKey H p.n.toNat skSeed ((adrs.setType .wotsHash).setKeyPair (UInt32.ofNat index))
  | height + 1, index =>
    H.h (((adrs.setType .tree).setTreeHeight (UInt32.ofNat (height + 1))).setTreeIndex
        (UInt32.ofNat index))
      (layerNode H p skSeed adrs height (2 * index))
      (layerNode H p skSeed adrs height (2 * index + 1))

/-- The signature of a message with a leaf of the tree at an address (Algorithm 10). -/
def layerSign (H : TweakableHash) (p : Params) (message skSeed : Bytes) (leaf : Nat)
    (adrs : Address) : LayerSignature where
  chains := oneTimeSign H p.n.toNat message skSeed
    ((adrs.setType .wotsHash).setKeyPair (UInt32.ofNat leaf))
  path := (List.range p.hp.toNat).map fun j => layerNode H p skSeed adrs j ((leaf / 2 ^ j) ^^^ 1)

/-- The root under which a layer signature of a message is valid (Algorithm 11). -/
def layerRootOf (H : TweakableHash) (p : Params) (leaf : Nat) (signature : LayerSignature)
    (message : Bytes) (adrs : Address) : Bytes :=
  let key := oneTimeKeyOf H p.n.toNat signature.chains message
    ((adrs.setType .wotsHash).setKeyPair (UInt32.ofNat leaf))
  climb H (adrs.setType .tree) 0 leaf leaf key signature.path

/-- The signatures of `more` layers from a layer on; the next layer signs the root that the
signature of this one leads to (Algorithm 12). -/
def layersFrom (H : TweakableHash) (p : Params) (skSeed : Bytes) : (more layer tree leaf : Nat) →
    (message : Bytes) → List LayerSignature
  | 0, _, _, _, _ => []
  | more + 1, layer, tree, leaf, message =>
    let adrs := (Address.zero.setLayer (UInt32.ofNat layer)).setTree (UInt64.ofNat tree)
    let signature := layerSign H p message skSeed leaf adrs
    signature :: layersFrom H p skSeed more (layer + 1) (tree / 2 ^ p.hp.toNat)
      (tree % 2 ^ p.hp.toNat) (layerRootOf H p leaf signature message adrs)

/-! ## Forest -/

/-- What a forest signature holds for one tree: the secret of a leaf and the leaf's path. -/
structure ForestSegment where
  secret : Bytes
  path : List Bytes

/-- The secret, and behind it the path. -/
def ForestSegment.encode (segment : ForestSegment) : Bytes := segment.secret ++ segment.path.flatten

/-- A secret and one node for each level, all of `n` bytes. -/
structure ForestSegment.Shaped (p : Params) (segment : ForestSegment) : Prop where
  secret : segment.secret.length = p.n.toNat
  path : segment.path.length = p.a.toNat
  nodes : ∀ node ∈ segment.path, node.length = p.n.toNat

/-- The secret behind a leaf (Algorithm 14). -/
def forestSecret (H : TweakableHash) (skSeed : Bytes) (adrs : Address) (index : Nat) : Bytes :=
  H.prf (((adrs.setType .forsPrf).setKeyPair adrs.keyPair).setTreeIndex (UInt32.ofNat index)) skSeed

/-- The leaf that a secret belongs to. -/
def forestLeaf (H : TweakableHash) (adrs : Address) (index : Nat) (secret : Bytes) : Bytes :=
  H.f ((adrs.setTreeHeight 0).setTreeIndex (UInt32.ofNat index)) secret

/-- A node of the forest, whose trees are numbered through (Algorithm 15). -/
def forestNode (H : TweakableHash) (skSeed : Bytes) (adrs : Address) : (height index : Nat) → Bytes
  | 0, index => forestLeaf H adrs index (forestSecret H skSeed adrs index)
  | height + 1, index =>
    H.h ((adrs.setTreeHeight (UInt32.ofNat (height + 1))).setTreeIndex (UInt32.ofNat index))
      (forestNode H skSeed adrs height (2 * index))
      (forestNode H skSeed adrs height (2 * index + 1))

/-- What is revealed for a leaf of a tree. -/
def forestSegment (H : TweakableHash) (p : Params) (skSeed : Bytes) (adrs : Address)
    (tree leaf : Nat) : ForestSegment where
  secret := forestSecret H skSeed adrs (tree * 2 ^ p.a.toNat + leaf)
  path := (List.range p.a.toNat).map fun j =>
    forestNode H skSeed adrs j (tree * 2 ^ (p.a.toNat - j) + ((leaf / 2 ^ j) ^^^ 1))

/-- The signature of a message digest, one segment for each tree (Algorithm 16). -/
def forestSign (H : TweakableHash) (p : Params) (digest skSeed : Bytes) (adrs : Address) :
    List ForestSegment :=
  (digits digest p.a.toNat p.k.toNat).zipIdx.map fun (leaf, tree) =>
    forestSegment H p skSeed adrs tree leaf

/-- The public value under which a signature of a message digest is valid (Algorithm 17). -/
def forestKeyOf (H : TweakableHash) (p : Params) (signature : List ForestSegment) (digest : Bytes)
    (adrs : Address) : Bytes :=
  let roots := (signature.zip (digits digest p.a.toNat p.k.toNat)).zipIdx.map
    fun ((segment, leaf), tree) =>
      climb H adrs 0 leaf (tree * 2 ^ p.a.toNat + leaf)
        (forestLeaf H adrs (tree * 2 ^ p.a.toNat + leaf) segment.secret) segment.path
  H.t ((adrs.setType .forsRoots).setKeyPair adrs.keyPair) roots.flatten

/-! ## The scheme -/

/-- The public root (Algorithm 18). -/
def publicRoot (H : TweakableHash) (p : Params) (skSeed : Bytes) : Bytes :=
  layerNode H p skSeed (Address.zero.setLayer (UInt32.ofNat (p.d.toNat - 1))) p.hp.toNat 0

/-- The part of a message digest for the forest. -/
def forestDigest (p : Params) (digest : Bytes) : Bytes :=
  digest.take ((p.k.toNat * p.a.toNat) ⌈/⌉ 8)

/-- The tree of layer 0 that a message digest selects. -/
def treeOf (p : Params) (digest : Bytes) : Nat :=
  (Bytes.slice ((p.k.toNat * p.a.toNat) ⌈/⌉ 8) ((p.h.toNat - p.hp.toNat) ⌈/⌉ 8) digest).toNat %
    2 ^ (p.h.toNat - p.hp.toNat)

/-- The leaf of that tree. -/
def leafOf (p : Params) (digest : Bytes) : Nat :=
  (Bytes.slice ((p.k.toNat * p.a.toNat) ⌈/⌉ 8 + (p.h.toNat - p.hp.toNat) ⌈/⌉ 8)
    (p.hp.toNat ⌈/⌉ 8) digest).toNat % 2 ^ p.hp.toNat

/-- The address of the forest under a leaf of a tree of layer 0. -/
def forestAddress (tree leaf : Nat) : Address :=
  ((Address.zero.setTree (UInt64.ofNat tree)).setType .forsTree).setKeyPair (UInt32.ofNat leaf)

/-- A signature before it is encoded. -/
structure Signature where
  randomizer : Bytes
  forest : List ForestSegment
  layers : List LayerSignature

namespace Signature

/-- The randomizer, the segments of the forest and the signatures of the layers. -/
def encode (signature : Signature) : Bytes :=
  signature.randomizer ++ (signature.forest.map ForestSegment.encode).flatten ++
    (signature.layers.map LayerSignature.encode).flatten

/-- A randomizer, one segment for each tree of the forest, one signature for each layer. -/
structure Shaped (p : Params) (signature : Signature) : Prop where
  randomizer : signature.randomizer.length = p.n.toNat
  trees : signature.forest.length = p.k.toNat
  segments : ∀ segment ∈ signature.forest, segment.Shaped p
  layers : signature.layers.length = p.d.toNat
  signatures : ∀ layer ∈ signature.layers, layer.Shaped p

end Signature

/-- The signature of a message; `optRand` goes into the randomizer (Algorithm 19). -/
def sign (H : TweakableHash) (p : Params) (key : Signing.SigningKey) (message optRand : Bytes) :
    Signature :=
  let randomizer := H.prfMsg key.skPrf optRand message
  let digest := H.hMsg randomizer key.pkRoot message p.m.toNat
  let adrs := forestAddress (treeOf p digest) (leafOf p digest)
  let forest := forestSign H p (forestDigest p digest) key.skSeed adrs
  let value := forestKeyOf H p forest (forestDigest p digest) adrs
  { randomizer
    forest
    layers := layersFrom H p key.skSeed p.d.toNat 0 (treeOf p digest) (leafOf p digest) value }

end HashSignature.Plain
