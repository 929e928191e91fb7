/-
# HashSignature.Proofs.PlainSigning — the library signs as the plain algorithms do

The plain signer and the library's are compared part by part with the values that the library's
functions were shown to compute: fields of a bit stream, chain values, nodes, segments. Only one
thing is done in another order. The library hands the root of a tree on to the layer above, the
plain signer recomputes it from the signature; the two agree because a signature climbs to the root
of its tree.

* `chain_eq`, `layerNode_eq`, `forestNode_eq` — the recursions meet the values. The trees of a
  forest have one numbering in the plain recursion and one each in the library.
* `layerRootOf_eq`, `forestKeyOf_eq` — what recomputing returns for any parts of the right sizes.
* `layersFrom_eq` — what each layer signs, by induction on the layers.
* `signs_as_plain` — key generation and signing return the same bytes, also with all trees of a
  request in one arena.
-/
import HashSignature.Proofs.InArena
import HashSignature.Proofs.Key
import HashSignature.Proofs.Plain

namespace HashSignature.Plain

set_option autoImplicit false

open Outcome

variable {H : TweakableHash} {p : Params}

/-! ## Digits -/

/-- The digits of a string that is long enough are its fields. -/
theorem digits_eq {bytes : Bytes} {b count : Nat} (long : count * b ≤ 8 * bytes.length) :
    digits bytes b count = (List.range count).map fun i => Bytes.field bytes (i * b) b := by
  apply List.map_congr_left
  intro i member
  have inside : i * b + b ≤ 8 * bytes.length := by
    rw [← Nat.succ_mul]
    exact Nat.le_trans (Nat.mul_le_mul_right b (List.mem_range.1 member)) long
  rw [Bytes.field_eq_toNat inside, Nat.succ_mul i b]

/-- The digits of a message of `n` bytes. -/
theorem digits_message {n : Nat} {message : Bytes} (length : message.length = n) :
    digits message 4 (2 * n) = (Winternitz.messageDigits (2 * n) message).map UInt32.toNat := by
  rw [digits_eq (by omega), Winternitz.toNat_messageDigits, Winternitz.digitBits]

/-- The digits of a checksum. -/
theorem digits_checksum {sum : Nat} (small : sum < 4096) :
    digits (Bytes.ofNat 2 (sum * 2 ^ 4)) 4 3 = (Winternitz.checkDigits sum).map UInt32.toNat := by
  obtain ⟨high, middle, low⟩ := Winternitz.fields_checksum small
  rw [digits_eq (by simp), Nat.mul_comm sum, Winternitz.toNat_checkDigits small, ← high, ← middle,
    ← low]
  rfl

/-- A key pair signs the same digits of a message. -/
theorem oneTimeDigits_eq {n : Nat} (n_le : n ≤ 32) {message : Bytes} (length : message.length = n) :
    oneTimeDigits n message = (Winternitz.signedDigits (2 * n + 3) message).map UInt32.toNat := by
  have total := Winternitz.lack_messageDigits_le (2 * n) message
  have lack : ((Winternitz.messageDigits (2 * n) message).map UInt32.toNat |>.map
      fun digit => 15 - digit).sum = Winternitz.lack (Winternitz.messageDigits (2 * n) message) := by
    rw [List.map_map]
    rfl
  rw [oneTimeDigits, digits_message length, lack, digits_checksum (by omega),
    Winternitz.signedDigits, Params.checksumDigits, Nat.add_sub_cancel, List.map_append]

/-! ## One-time signatures -/

/-- Chains are walked to the same values. -/
theorem chain_eq (adrs : Address) (index : UInt32) (block : Bytes) (start steps : Nat) :
    chain H (adrs.setChain index) block start steps =
      OneTime.chainValue H adrs index steps start block := by
  induction steps with
  | zero => rfl
  | succ steps ih =>
      rw [chain, ih, ← OneTime.chainValue_add adrs index steps 1 start block]
      rfl

theorem oneTimeSecret_eq (skSeed : Bytes) (adrs : Address) (i : Nat) :
    oneTimeSecret H skSeed adrs i = OneTime.secret H skSeed adrs (UInt32.ofNat i) := rfl

/-- The key of a key pair. -/
theorem oneTimeKey_eq (n : Nat) (skSeed : Bytes) (adrs : Address) :
    oneTimeKey H n skSeed adrs = OneTime.keyOf H (2 * n + 3) skSeed adrs := by
  have ends : (List.range (2 * n + 3)).map (fun i => chain H (adrs.setChain (UInt32.ofNat i))
      (oneTimeSecret H skSeed adrs i) 0 15) =
      OneTime.blocksOf H skSeed adrs (List.replicate (2 * n + 3) Winternitz.maxDigit) := by
    apply List.ext_getElem?
    intro i
    rw [OneTime.getElem?_blocksOf, List.getElem?_map, List.getElem?_replicate]
    by_cases inside : i < 2 * n + 3
    · rw [List.getElem?_range inside, if_pos inside, Option.map_some, Option.map_some, chain_eq,
        oneTimeSecret_eq]
      rfl
    · rw [List.getElem?_eq_none (by simpa using inside), if_neg inside]
      rfl
  rw [oneTimeKey, ends]
  rfl

/-- The signature of a message of `n` bytes. -/
theorem oneTimeSign_eq {n : Nat} (n_le : n ≤ 32) {message : Bytes} (length : message.length = n)
    (skSeed : Bytes) (adrs : Address) :
    oneTimeSign H n message skSeed adrs =
      OneTime.blocksOf H skSeed adrs (Winternitz.signedDigits (2 * n + 3) message) := by
  rw [oneTimeSign, oneTimeDigits_eq n_le length, List.zipIdx_map, List.map_map, OneTime.blocksOf]
  apply List.map_congr_left
  intro place _
  exact chain_eq adrs _ _ 0 _

/-- The key to which a signature of a message of `n` bytes leads. -/
theorem oneTimeKeyOf_eq {n : Nat} (n_le : n ≤ 32) {message : Bytes} (length : message.length = n)
    (signature : List Bytes) (adrs : Address) :
    oneTimeKeyOf H n signature message adrs = OneTime.compress H adrs
      (OneTime.topsOf H adrs signature (Winternitz.signedDigits (2 * n + 3) message)) := by
  rw [oneTimeKeyOf, oneTimeDigits_eq n_le length, OneTime.topsOf, List.zip_map_right,
    List.zipIdx_map, List.map_map, oneTimeCompress, OneTime.compress]
  congr 2
  apply List.map_congr_left
  intro place _
  exact chain_eq adrs _ _ _ _

/-! ## Trees -/

/-- A node climbs through the same values. The turns follow its index in its own tree, the addresses
its index behind the trees in front. -/
theorem climb_eq (adrs : Address) (offset leaf height : Nat) (node : Bytes) (path : List Bytes) :
    climb H adrs height (leaf / 2 ^ height) ((offset + leaf) / 2 ^ height) node path =
      MerkleTree.ascent H adrs offset leaf height node path := by
  induction path generalizing height node with
  | nil => rfl
  | cons beside path ih =>
      have half (number : Nat) : number / 2 ^ height / 2 = number / 2 ^ (height + 1) := by
        rw [Nat.div_div_eq_div_mul, ← Nat.pow_succ]
      rw [climb, half, half, ih, MerkleTree.ascent]
      rfl

/-! ## Layers -/

/-- The nodes of a layer's tree. -/
theorem layerNode_eq (sound : p.Sound) (skSeed : Bytes) (adrs : Address) (height index : Nat) :
    layerNode H p skSeed adrs height index =
      MerkleTree.node H (adrs.setType .tree) 0 (Layer.keyOf H p skSeed adrs) height index := by
  induction height generalizing index with
  | zero =>
      rw [layerNode, oneTimeKey_eq, ← sound.chains]
      rfl
  | succ height ih =>
      rw [layerNode, ih, ih, MerkleTree.node, Nat.zero_div, Nat.zero_add]
      rfl

/-- The two parts of a layer signature. -/
theorem layerSign_eq (sound : p.Sound) {message : Bytes} (length : message.length = p.n.toNat)
    (skSeed : Bytes) (adrs : Address) (leaf : UInt32) :
    layerSign H p message skSeed leaf.toNat adrs =
      ⟨Layer.blocksOf H p skSeed adrs leaf message, Layer.pathOf H p skSeed adrs leaf.toNat⟩ := by
  rw [layerSign, oneTimeSign_eq sound.n_le length, ← sound.chains, UInt32.ofNat_toNat,
    Layer.pathOf, MerkleTree.pathFrom, List.range_eq_range']
  congr 1
  exact List.map_congr_left fun j _ => layerNode_eq sound skSeed adrs j _

/-- A layer signature is encoded as the layer's segment. -/
theorem encode_layerSign (sound : p.Sound) {message : Bytes} (length : message.length = p.n.toNat)
    (skSeed : Bytes) (adrs : Address) (leaf : UInt32) :
    (layerSign H p message skSeed leaf.toNat adrs).encode =
      Layer.segmentOf H p skSeed adrs leaf message := by
  rw [layerSign_eq sound length]
  rfl

/-- The block and the node lists are found again in the encoding. -/
theorem LayerSignature.Shaped.parts {signature : LayerSignature} (shaped : signature.Shaped p) :
    Layer.revealed p signature.encode = signature.chains ∧
      Layer.siblings p signature.encode = signature.path := by
  have front : signature.chains.flatten.length = p.len.toNat * p.n.toNat := by
    rw [Bytes.length_flatten_of shaped.blocks, shaped.chains]
  have blocks := Bytes.blocks_flatten shaped.chains shaped.blocks
  have nodes := Bytes.blocks_flatten shaped.path shaped.nodes
  constructor
  · rw [Layer.revealed, ← Bytes.blocks_take, LayerSignature.encode, List.take_left' front, blocks]
  · rw [Layer.siblings, LayerSignature.encode, List.drop_left' front, nodes]

theorem LayerSignature.Shaped.length {signature : LayerSignature} (shaped : signature.Shaped p) :
    signature.encode.length = (p.len.toNat + p.hp.toNat) * p.n.toNat := by
  rw [LayerSignature.encode, List.length_append, Bytes.length_flatten_of shaped.blocks,
    Bytes.length_flatten_of shaped.nodes, shaped.chains, shaped.path, Nat.add_mul]

/-- The root to which a layer signature leads. -/
theorem layerRootOf_eq (sound : p.Sound) (leaf : UInt32) {signature : LayerSignature}
    (shaped : signature.Shaped p) {message : Bytes} (length : message.length = p.n.toNat)
    (adrs : Address) :
    layerRootOf H p leaf.toNat signature message adrs =
      Layer.climbed H p adrs leaf signature.encode message := by
  obtain ⟨chains, path⟩ := shaped.parts
  have climbed := climb_eq (H := H) (adrs.setType .tree) 0 leaf.toNat 0
    (Layer.completed H p adrs leaf signature.encode message) signature.path
  rw [Nat.pow_zero, Nat.div_one, Nat.zero_add, Nat.div_one] at climbed
  rw [Layer.climbed, path, ← climbed, Layer.completed, chains, layerRootOf,
    oneTimeKeyOf_eq sound.n_le length, ← sound.chains, UInt32.ofNat_toNat]
  rfl

theorem shaped_layerSign (sound : p.Sound) (width : H.n = p.n.toNat) {message : Bytes}
    (length : message.length = p.n.toNat) (skSeed : Bytes) (adrs : Address) (leaf : UInt32) :
    (layerSign H p message skSeed leaf.toNat adrs).Shaped p := by
  rw [layerSign_eq sound length]
  exact
    { chains := by rw [Layer.blocksOf, OneTime.length_blocksOf, Layer.length_signedDigits sound]
      blocks := fun block member => (OneTime.length_of_mem_blocksOf member).trans width
      path := Layer.length_pathOf _ _ _
      nodes := fun node member => (Layer.length_of_mem_pathOf member).trans width }

/-- A layer signature leads to the root of its tree. -/
theorem layerRootOf_layerSign (sound : p.Sound) (width : H.n = p.n.toNat) {message : Bytes}
    (length : message.length = p.n.toNat) (skSeed : Bytes) (adrs : Address) {leaf : UInt32}
    (inside : leaf.toNat < 2 ^ p.hp.toNat) :
    layerRootOf H p leaf.toNat (layerSign H p message skSeed leaf.toNat adrs) message adrs =
      Layer.treeRoot H p skSeed adrs := by
  rw [layerRootOf_eq sound leaf (shaped_layerSign sound width length skSeed adrs leaf) length,
    encode_layerSign sound length, Layer.climbed_segmentOf sound width skSeed adrs inside]

/-- Each layer signs the root that the signature below it leads to, and that is the root that the
library hands on. -/
theorem layersFrom_eq (sound : p.Sound) (width : H.n = p.n.toNat) (skSeed : Bytes) (tree : UInt64)
    {leaf : UInt32} (inside : leaf.toNat < 2 ^ p.hp.toNat) {message : Bytes}
    (length : message.length = p.n.toNat) (more layer : Nat) :
    layersFrom H p skSeed more layer (Hypertree.treeAt p tree layer).toNat
        (Hypertree.leafAt p tree leaf layer).toNat
        (Hypertree.signedAt H p skSeed tree message layer) =
      (List.range' layer more).map fun layer =>
        layerSign H p (Hypertree.signedAt H p skSeed tree message layer) skSeed
          (Hypertree.leafAt p tree leaf layer).toNat (Hypertree.addressAt p tree layer) := by
  -- on the layers left; the message of the next one is the tree root that `root` finds here
  induction more generalizing layer with
  | zero => rfl
  | succ more ih =>
      have node : (Hypertree.signedAt H p skSeed tree message layer).length = p.n.toNat :=
        Hypertree.length_signedAt width length layer
      have root := layerRootOf_layerSign sound width node skSeed (Hypertree.addressAt p tree layer)
        (Hypertree.leafAt_lt sound tree inside layer)
      have next := ih (layer + 1)
      rw [Hypertree.toNat_treeAt_succ, Hypertree.toNat_leafAt_succ sound] at next
      rw [layersFrom, UInt64.ofNat_toNat]
      change _ :: layersFrom H p skSeed more (layer + 1) _ _ (layerRootOf H p _
        (layerSign H p _ skSeed _ (Hypertree.addressAt p tree layer)) _
        (Hypertree.addressAt p tree layer)) = _
      rw [root, List.range'_succ, List.map_cons]
      exact congrArg _ next

/-- The layer signatures of a message, one for each layer. -/
theorem layers_eq (sound : p.Sound) (width : H.n = p.n.toNat) (skSeed : Bytes) (tree : UInt64)
    {leaf : UInt32} (inside : leaf.toNat < 2 ^ p.hp.toNat) {message : Bytes}
    (length : message.length = p.n.toNat) :
    layersFrom H p skSeed p.d.toNat 0 tree.toNat leaf.toNat message =
      (List.range p.d.toNat).map fun layer =>
        layerSign H p (Hypertree.signedAt H p skSeed tree message layer) skSeed
          (Hypertree.leafAt p tree leaf layer).toNat (Hypertree.addressAt p tree layer) := by
  have layers := layersFrom_eq (H := H) sound width skSeed tree inside length p.d.toNat 0
  rw [Hypertree.treeAt_zero, ← List.range_eq_range'] at layers
  exact layers

/-- The layer signatures are encoded as the library's segments. -/
theorem encode_layers (sound : p.Sound) (width : H.n = p.n.toNat) (skSeed : Bytes) (tree : UInt64)
    {leaf : UInt32} (inside : leaf.toNat < 2 ^ p.hp.toNat) {message : Bytes}
    (length : message.length = p.n.toNat) :
    (layersFrom H p skSeed p.d.toNat 0 tree.toNat leaf.toNat message).map LayerSignature.encode =
      Hypertree.segments H p skSeed tree leaf message := by
  rw [layers_eq sound width skSeed tree inside length, List.map_map, Hypertree.segments]
  apply List.map_congr_left
  intro layer _
  exact encode_layerSign sound (Hypertree.length_signedAt width length layer) skSeed _ _

/-! ## Forest -/

/-- The nodes of the forest, each in its own tree. -/
theorem forestNode_eq (skSeed : Bytes) (adrs : Address) (tree : Nat) {height : Nat}
    (low : height ≤ p.a.toNat) (index : Nat) :
    forestNode H skSeed adrs height (tree * 2 ^ (p.a.toNat - height) + index) =
      Forest.treeNode H p skSeed adrs tree height index := by
  induction height generalizing index with
  | zero => rfl
  | succ height ih =>
      -- one level down the trees are twice as wide, so a child keeps its tree's number
      have double : 2 * 2 ^ (p.a.toNat - (height + 1)) = 2 ^ (p.a.toNat - height) := by
        rw [Nat.mul_comm, ← Nat.pow_succ,
          show (p.a.toNat - (height + 1)).succ = p.a.toNat - height by omega]
      have first : Forest.firstLeaf p tree / 2 ^ (height + 1) =
          tree * 2 ^ (p.a.toNat - (height + 1)) := by
        rw [Forest.firstLeaf, Nat.mul_div_assoc _ (Nat.pow_dvd_pow 2 low),
          Nat.pow_div low (by decide)]
      have below : 2 * (tree * 2 ^ (p.a.toNat - (height + 1)) + index) =
          tree * 2 ^ (p.a.toNat - height) + 2 * index := by
        rw [Nat.mul_add, Nat.mul_left_comm, double]
      have left := ih (by omega) (2 * index)
      have right := ih (by omega) (2 * index + 1)
      rw [forestNode, below, left, Nat.add_assoc, right, Forest.treeNode, MerkleTree.node, first]
      rfl

/-- The two parts of a segment. -/
theorem forestSegment_eq (skSeed : Bytes) (adrs : Address) (tree leaf : Nat) :
    forestSegment H p skSeed adrs tree leaf =
      ⟨Forest.secret H skSeed adrs (UInt32.ofNat (Forest.firstLeaf p tree + leaf)),
        Forest.pathOf H p skSeed adrs tree leaf⟩ := by
  rw [forestSegment, Forest.pathOf, MerkleTree.pathFrom, ← List.range_eq_range']
  congr 1
  apply List.map_congr_left
  intro j member
  exact forestNode_eq skSeed adrs tree (Nat.le_of_lt (List.mem_range.1 member)) _

/-- The leaves that a digest selects. -/
theorem digits_forest (sound : p.Sound) {digest : Bytes}
    (long : p.k.toNat * p.a.toNat ≤ 8 * digest.length) :
    digits digest p.a.toNat p.k.toNat = (Forest.selected p digest).map UInt32.toNat := by
  rw [digits_eq long, Forest.selected, List.map_map]
  apply List.map_congr_left
  intro i _
  exact (Forest.toNat_ofNat_leaf sound (Bytes.field_lt _ _ _)).symm

/-- The segments of the selected leaves. -/
theorem forestSign_eq (sound : p.Sound) {digest : Bytes}
    (long : p.k.toNat * p.a.toNat ≤ 8 * digest.length) (skSeed : Bytes) (adrs : Address) :
    forestSign H p digest skSeed adrs = (Forest.selected p digest).zipIdx.map fun (leaf, tree) =>
      forestSegment H p skSeed adrs tree leaf.toNat := by
  rw [forestSign, digits_forest sound long, List.zipIdx_map, List.map_map]
  rfl

/-- A forest signature is encoded as the library's segments. -/
theorem encode_forestSign (sound : p.Sound) {digest : Bytes}
    (long : p.k.toNat * p.a.toNat ≤ 8 * digest.length) (skSeed : Bytes) (adrs : Address) :
    (forestSign H p digest skSeed adrs).map ForestSegment.encode =
      Forest.segmentsOf H p skSeed adrs digest := by
  rw [forestSign_eq sound long, List.map_map, Forest.segmentsOf]
  apply List.map_congr_left
  intro place _
  change (forestSegment H p skSeed adrs place.2 place.1.toNat).encode = _
  rw [forestSegment_eq]
  rfl

theorem ForestSegment.Shaped.length {segment : ForestSegment} (shaped : segment.Shaped p) :
    segment.encode.length = (p.a.toNat + 1) * p.n.toNat := by
  rw [ForestSegment.encode, List.length_append, shaped.secret,
    Bytes.length_flatten_of shaped.nodes, shaped.path, Nat.succ_mul, Nat.add_comm]

theorem shaped_forestSegment (width : H.n = p.n.toNat) (skSeed : Bytes) (adrs : Address)
    (tree leaf : Nat) : (forestSegment H p skSeed adrs tree leaf).Shaped p := by
  rw [forestSegment_eq]
  exact
    { secret := (H.length_prf _ _).trans width
      path := MerkleTree.length_pathFrom _ _ _ _ _
      nodes := fun node member => (Forest.length_of_mem_pathOf member).trans width }

/-- The root to which a segment leads. -/
theorem climb_segment (adrs : Address) (tree leaf : Nat) {segment : ForestSegment}
    (shaped : segment.Shaped p) :
    climb H adrs 0 leaf (tree * 2 ^ p.a.toNat + leaf)
        (forestLeaf H adrs (tree * 2 ^ p.a.toNat + leaf) segment.secret) segment.path =
      Forest.climbed H p adrs tree leaf segment.encode := by
  have nodes := Bytes.blocks_flatten shaped.path shaped.nodes
  have climbed := climb_eq (H := H) adrs (Forest.firstLeaf p tree) leaf 0
    (forestLeaf H adrs (tree * 2 ^ p.a.toNat + leaf) segment.secret) segment.path
  rw [Nat.pow_zero, Nat.div_one, Nat.div_one] at climbed
  rw [Forest.climbed, ForestSegment.encode, List.take_left' shaped.secret,
    List.drop_left' shaped.secret, nodes]
  exact climbed

/-- The public value to which segments lead. -/
theorem forestKeyOf_eq (sound : p.Sound) {digest : Bytes}
    (long : p.k.toNat * p.a.toNat ≤ 8 * digest.length) {segments : List ForestSegment}
    (shaped : ∀ segment ∈ segments, segment.Shaped p) (adrs : Address) :
    forestKeyOf H p segments digest adrs = Forest.compress H adrs (Forest.climbedRoots H p adrs 0
      ((segments.map ForestSegment.encode).zip (Forest.selected p digest))) := by
  rw [forestKeyOf, Forest.compress, Forest.climbedRoots, digits_forest sound long,
    List.zip_map_left, List.zip_map_right, List.zipIdx_map, List.zipIdx_map, List.map_map,
    List.map_map]
  congr 2
  apply List.map_congr_left
  rintro ⟨⟨segment, leaf⟩, tree⟩ member
  have inside := (List.of_mem_zip (List.fst_mem_of_mem_zipIdx member)).1
  exact climb_segment adrs tree leaf.toNat (shaped segment inside)

theorem shaped_of_mem_forestSign (width : H.n = p.n.toNat) {digest skSeed : Bytes} {adrs : Address}
    {segment : ForestSegment} (member : segment ∈ forestSign H p digest skSeed adrs) :
    segment.Shaped p := by
  obtain ⟨_, -, rfl⟩ := List.mem_map.1 member
  exact shaped_forestSegment width _ _ _ _

/-- A forest signature leads to the public value of the forest. -/
theorem forestKeyOf_forestSign (sound : p.Sound) (width : H.n = p.n.toNat) {digest : Bytes}
    (long : p.k.toNat * p.a.toNat ≤ 8 * digest.length) (skSeed : Bytes) (adrs : Address) :
    forestKeyOf H p (forestSign H p digest skSeed adrs) digest adrs =
      Forest.publicValue H p skSeed adrs := by
  rw [forestKeyOf_eq sound long fun _ => shaped_of_mem_forestSign width,
    encode_forestSign sound long, Forest.climbedRoots_segmentsOf sound width, Forest.publicValue]

/-! ## The scheme -/

theorem setTree_zero (layer : UInt32) :
    (Address.zero.setLayer layer).setTree 0 = Address.zero.setLayer layer := by
  have blank : Address.zero.put 4 (Bytes.ofNat 12 0) = Address.zero := Address.ext rfl
  rw [Address.setTree, Address.setLayer, Address.put_comm _ (by simp)]
  exact congrArg (Address.put · 0 (Bytes.ofNat 4 layer.toNat)) blank

/-- The plain root is the root of the tree on top. -/
theorem publicRoot_eq (sound : p.Sound) (skSeed : Bytes) :
    publicRoot H p skSeed = Signing.topRoot H p skSeed := by
  rw [publicRoot, layerNode_eq sound, Signing.topRoot, Layer.treeRoot, Layer.address, setTree_zero]

/-- A digest selects the same place. -/
theorem treeOf_eq (sound : p.Sound) (digest : Bytes) :
    treeOf p digest = (Route.read p digest).tree.toNat := (Route.toNat_tree sound digest).symm

theorem leafOf_eq (sound : p.Sound) (digest : Bytes) :
    leafOf p digest = (Route.read p digest).leaf.toNat := (Route.toNat_leaf sound digest).symm

theorem forestDigest_eq (digest : Bytes) :
    forestDigest p digest = (Route.read p digest).forest := rfl

/-- The part for the forest selects a leaf in each of its trees. -/
theorem long_forestDigest (sound : p.Sound) {digest : Bytes} (length : digest.length = p.m.toNat) :
    p.k.toNat * p.a.toNat ≤ 8 * (Route.read p digest).forest.length := by
  have total := sound.message_eq
  rw [Route.read, List.length_take, length, Nat.min_eq_left (by omega), Params.bytesFor]
  omega

/-- The plain signature along a route of the library, with the library's public value of the
forest. -/
def along (H : TweakableHash) (p : Params) (skSeed randomizer : Bytes) (route : Route) :
    Signature where
  randomizer := randomizer
  forest := forestSign H p route.forest skSeed (Signing.forestAddress route.tree route.leaf)
  layers := layersFrom H p skSeed p.d.toNat 0 route.tree.toNat route.leaf.toNat
    (Signing.forestValue H p skSeed route.tree route.leaf)

/-- The plain signer goes along the route of the library. -/
theorem sign_eq (sound : p.Sound) (width : H.n = p.n.toNat) (key : Signing.SigningKey)
    (message optRand : Bytes) :
    sign H p key message optRand = along H p key.skSeed (H.prfMsg key.skPrf optRand message)
      (Signing.routeOf H p (H.prfMsg key.skPrf optRand message) key.pkRoot message) := by
  generalize randomizer_eq : H.prfMsg key.skPrf optRand message = randomizer
  rw [Signing.routeOf]
  generalize digest_eq : H.hMsg randomizer key.pkRoot message p.m.toNat = digest
  generalize route_eq : Route.read p digest = route
  have length : digest.length = p.m.toNat := digest_eq ▸ H.length_hMsg _ _ _ _
  have address : forestAddress route.tree.toNat route.leaf.toNat =
      Signing.forestAddress route.tree route.leaf := by
    rw [forestAddress, UInt64.ofNat_toNat, UInt32.ofNat_toNat]
    rfl
  have value : forestKeyOf H p (forestSign H p route.forest key.skSeed
      (Signing.forestAddress route.tree route.leaf)) route.forest
      (Signing.forestAddress route.tree route.leaf) =
      Signing.forestValue H p key.skSeed route.tree route.leaf :=
    forestKeyOf_forestSign sound width (route_eq ▸ long_forestDigest sound length) _ _
  rw [sign, randomizer_eq, digest_eq]
  simp only [treeOf_eq sound, leafOf_eq sound, forestDigest_eq, route_eq, address, value]
  rfl

theorem length_forestValue (width : H.n = p.n.toNat) (skSeed : Bytes) (route : Route) :
    (Signing.forestValue H p skSeed route.tree route.leaf).length = p.n.toNat :=
  (H.length_t _ _).trans width

/-- The signature along a legal route is encoded as the randomizer and the library's segments. -/
theorem encode_along (sound : p.Sound) (width : H.n = p.n.toNat) (skSeed randomizer : Bytes)
    {route : Route} (inside : route.leaf.toNat < 2 ^ p.hp.toNat)
    (long : p.k.toNat * p.a.toNat ≤ 8 * route.forest.length) :
    (along H p skSeed randomizer route).encode = randomizer ++ Signing.body H p skSeed route := by
  have layers := encode_layers sound width skSeed route.tree inside
    (length_forestValue width skSeed route)
  rw [Signature.encode, along, encode_forestSign sound long, layers, List.append_assoc]
  rfl

/-- The signature along a legal route has the parts that the parameters say. -/
theorem shaped_along (sound : p.Sound) (width : H.n = p.n.toNat) (skSeed : Bytes)
    {randomizer : Bytes} (length : randomizer.length = p.n.toNat) {route : Route}
    (inside : route.leaf.toNat < 2 ^ p.hp.toNat) :
    (along H p skSeed randomizer route).Shaped p := by
  have value := length_forestValue (H := H) width skSeed route
  have layers : (along H p skSeed randomizer route).layers = _ :=
    layers_eq sound width skSeed route.tree inside value
  refine
    { randomizer := length
      trees := by simp [along, forestSign, digits]
      segments := fun segment => shaped_of_mem_forestSign width
      layers := by rw [layers, List.length_map, List.length_range]
      signatures := fun layer member => ?_ }
  rw [layers] at member
  obtain ⟨number, -, rfl⟩ := List.mem_map.1 member
  exact shaped_layerSign sound width (Hypertree.length_signedAt width value number) _ _ _

/-- The library's signature is the plain one, encoded. -/
theorem signWith_eq (sound : p.Sound) (width : H.n = p.n.toNat) (key : Signing.SigningKey)
    (message optRand : Bytes) :
    Signing.signWith H p key message optRand = .ok (sign H p key message optRand).encode := by
  rw [Signing.signWith_eq sound width, sign_eq sound width]
  exact congrArg Except.ok (encode_along sound width _ _ (Route.toNat_leaf_lt sound _)
    (long_forestDigest sound (H.length_hMsg _ _ _ _))).symm

theorem shaped_sign (sound : p.Sound) (width : H.n = p.n.toNat) (key : Signing.SigningKey)
    (message optRand : Bytes) : (sign H p key message optRand).Shaped p := by
  rw [sign_eq sound width]
  exact shaped_along sound width _ ((H.length_prfMsg _ _ _).trans width)
    (Route.toNat_leaf_lt sound _)

/-- A signature of the right parts has the size that the parameters say. -/
theorem Signature.Shaped.length (sound : p.Sound) {signature : Signature}
    (shaped : signature.Shaped p) : p.signatureSize = .ok signature.encode.length := by
  have forest : (signature.forest.map ForestSegment.encode).flatten.length =
      p.k.toNat * ((p.a.toNat + 1) * p.n.toNat) := by
    rw [Bytes.length_flatten_of (List.forall_mem_map.2 fun segment member =>
      (shaped.segments segment member).length), List.length_map, shaped.trees]
  have layers : (signature.layers.map LayerSignature.encode).flatten.length =
      p.d.toNat * ((p.len.toNat + p.hp.toNat) * p.n.toNat) := by
    rw [Bytes.length_flatten_of (List.forall_mem_map.2 fun layer member =>
      (shaped.signatures layer member).length), List.length_map, shaped.layers]
  rw [sound.signatureSize_eq, Signature.encode, List.length_append, List.length_append,
    shaped.randomizer, forest, layers]

/-! ## Recomputed roots -/

/-- The root that the plain signer recomputes on a layer is the one that the library's verifier
computes from the encoded layer signature. -/
theorem rootOf_encode (sound : p.Sound) (width : H.n = p.n.toNat) {leaf : UInt32}
    (inside : leaf.toNat < 2 ^ p.hp.toNat) {signature : LayerSignature}
    (shaped : signature.Shaped p) {message : Bytes} (length : message.length = p.n.toNat)
    (adrs : Address) :
    ∃ left, Layer.rootOf H p leaf signature.encode message adrs =
      .ok (layerRootOf H p leaf.toNat signature message adrs, left) := by
  obtain ⟨left, reached⟩ := Layer.rootUnder_eq (H := H) sound width inside shaped.length message
    adrs
  exact ⟨left, by rw [reached, layerRootOf_eq sound leaf shaped length]⟩

/-- The public value that the plain signer recomputes is the one that the library's verifier
computes from the encoded segments. -/
theorem publicKeyOf_encode (sound : p.Sound) (width : H.n = p.n.toNat)
    {segments : List ForestSegment} (trees : segments.length = p.k.toNat)
    (shaped : ∀ segment ∈ segments, segment.Shaped p) {digest : Bytes}
    (long : p.k.toNat * p.a.toNat ≤ 8 * digest.length) (adrs : Address) :
    ∃ left, Forest.publicKeyOf H p (segments.map ForestSegment.encode).flatten digest adrs =
      .ok (forestKeyOf H p segments digest adrs, left) := by
  have full : ∀ block ∈ segments.map ForestSegment.encode,
      block.length = (p.a.toNat + 1) * p.n.toNat :=
    List.forall_mem_map.2 fun segment member => (shaped segment member).length
  have count : (segments.map ForestSegment.encode).length = p.k.toNat := by
    rw [List.length_map, trees]
  have blocks := Bytes.blocks_flatten count full
  obtain ⟨left, reached, -⟩ := Forest.publicKeyOf_eq (H := H) sound width
    (segments.map ForestSegment.encode).flatten
    (by rw [Bytes.length_flatten_of full, count]) digest adrs
  exact ⟨left, by rw [reached, blocks, forestKeyOf_eq sound long shaped]⟩

/-! ## The library and the plain algorithms -/

/-- Key generation and signing return what the plain algorithms return, byte for byte, also with all
their trees in one arena, and the recomputations inside the plain signer are those of the library's
verifier. -/
theorem signs_as_plain (p : Params) (accepted : p.check = .ok ()) (skSeed skPrf pkSeed : Bytes)
    (skSeed_length : skSeed.length = p.n.toNat) (skPrf_length : skPrf.length = p.n.toNat)
    (pkSeed_length : pkSeed.length = p.n.toNat) :
    ∃ H, p.hash pkSeed = .ok H ∧
      (∃ slot, Signing.publicRoot p skSeed skPrf pkSeed = .ok slot ∧
        InArena.publicRoot p skSeed skPrf pkSeed = .ok slot ∧
        slot.bytes = Bytes.padTo 32 (publicRoot H p skSeed) ∧
        (publicRoot H p skSeed).length = p.n.toNat) ∧
      (∀ pkRoot message optRand : Bytes, pkRoot.length = p.n.toNat → optRand.length = p.n.toNat →
        let signature := sign H p ⟨skSeed, skPrf, pkSeed, pkRoot⟩ message optRand
        Signing.sign p ⟨skSeed, skPrf, pkSeed, pkRoot⟩ message optRand = .ok signature.encode ∧
          InArena.sign p ⟨skSeed, skPrf, pkSeed, pkRoot⟩ message optRand = .ok signature.encode ∧
          signature.Shaped p ∧ p.signatureSize = .ok signature.encode.length) ∧
      (∀ (leaf : UInt32) (signature : LayerSignature) (message : Bytes) (adrs : Address),
        leaf.toNat < 2 ^ p.hp.toNat → signature.Shaped p → message.length = p.n.toNat →
          ∃ left, Layer.rootOf H p leaf signature.encode message adrs =
            .ok (layerRootOf H p leaf.toNat signature message adrs, left)) ∧
      ∀ (segments : List ForestSegment) (digest : Bytes) (adrs : Address),
        segments.length = p.k.toNat → (∀ segment ∈ segments, segment.Shaped p) →
          p.k.toNat * p.a.toNat ≤ 8 * digest.length →
            ∃ left, Forest.publicKeyOf H p (segments.map ForestSegment.encode).flatten digest adrs =
              .ok (forestKeyOf H p segments digest adrs, left) := by
  have sound := Params.sound_of_check accepted
  obtain ⟨H, hashed, width⟩ := Signing.hash_eq sound pkSeed_length
  refine ⟨H, hashed, ?_, ?_, ?_, ?_⟩
  · have placed := Signing.publicRoot_eq_place accepted skSeed_length skPrf_length pkSeed_length
      hashed width
    obtain ⟨slot, rooted, -⟩ := Signing.publicRoot_eq accepted skSeed_length skPrf_length
      pkSeed_length hashed width
    rw [rooted] at placed
    rw [publicRoot_eq sound]
    exact ⟨slot, rooted, (InArena.publicRoot_eq p skSeed skPrf pkSeed).trans rooted,
      Slot.bytes_of_place placed.symm, (Slot.place_eq_ok placed.symm).1⟩
  · intro pkRoot message optRand pkRoot_length optRand_length signature
    have shaped : signature.Shaped p := shaped_sign sound width _ _ _
    have signed : Signing.sign p ⟨skSeed, skPrf, pkSeed, pkRoot⟩ message optRand =
        .ok signature.encode := by
      rw [Signing.sign_eq accepted skSeed_length skPrf_length pkSeed_length pkRoot_length hashed
        optRand_length, signWith_eq sound width]
    exact ⟨signed, (InArena.sign_eq p _ message optRand).trans signed, shaped,
      shaped.length sound⟩
  · intro leaf signature message adrs inside shaped length
    exact rootOf_encode sound width inside shaped length adrs
  · intro segments digest adrs trees shaped long
    exact publicKeyOf_encode sound width trees shaped long adrs

/-- Two layers and three trees in the forest, with other bytes in each part of the key: the root on
top, and a message under a root that is not the one on top. -/
theorem signs_as_plain_two_layers :
    (Params.ofBase .shake 16 4 2 2 3).check = .ok () ∧
    ∃ H, (Params.ofBase .shake 16 4 2 2 3).hash (List.replicate 16 3) = .ok H ∧
      (∃ slot, InArena.publicRoot (.ofBase .shake 16 4 2 2 3) (List.replicate 16 1)
        (List.replicate 16 2) (List.replicate 16 3) = .ok slot ∧
        slot.bytes =
          Bytes.padTo 32 (publicRoot H (.ofBase .shake 16 4 2 2 3) (List.replicate 16 1))) ∧
      ∃ signature : Signature,
        signature = sign H (.ofBase .shake 16 4 2 2 3) ⟨List.replicate 16 1, List.replicate 16 2,
          List.replicate 16 3, List.replicate 16 4⟩ [0x68, 0x69] (List.replicate 16 5) ∧
        InArena.sign (.ofBase .shake 16 4 2 2 3) ⟨List.replicate 16 1, List.replicate 16 2,
          List.replicate 16 3, List.replicate 16 4⟩ [0x68, 0x69] (List.replicate 16 5) =
            .ok signature.encode ∧
        signature.layers.length = 2 ∧ signature.encode.length = 1344 := by
  have sized : (Params.ofBase .shake 16 4 2 2 3).signatureSize = .ok 1344 := rfl
  obtain ⟨H, hashed, ⟨slot, -, rooted, placed, -⟩, signs, -, -⟩ := signs_as_plain
    (.ofBase .shake 16 4 2 2 3) rfl (List.replicate 16 1) (List.replicate 16 2)
    (List.replicate 16 3) rfl rfl rfl
  obtain ⟨-, signed, shaped, sized'⟩ :=
    signs (List.replicate 16 4) [0x68, 0x69] (List.replicate 16 5) rfl rfl
  exact ⟨rfl, H, hashed, ⟨slot, rooted, placed⟩, _, rfl, signed, shaped.layers,
    Except.ok.inj (sized'.symm.trans sized)⟩

end HashSignature.Plain
