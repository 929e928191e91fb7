/-
# HashSignature.Proofs.Layer — a layer signature leads back to the root of its tree

The root of a layer's tree is `rootOf`, a value that depends on the layer and the tree of an address
only: not on the key pair that signs, and not on what is signed.

* `root_eq`, `sign_eq` — key generation and signing return that root.
* `rootUnder_eq` — verifying returns what a signature of the right length climbs to.
* `climbed_segmentOf` — the signature of a message climbs to the root.
-/
import HashSignature.Proofs.MerkleTree
import HashSignature.Proofs.OneTime
import HashSignature.Proofs.Params
import HashSignature.Layer

namespace HashSignature.Layer

set_option autoImplicit false

open Outcome Winternitz

variable {H : TweakableHash} {p : Params} {adrs adrs' : Address}

/-! ## The tree of a layer as a value -/

/-- The public key of a key pair. -/
def keyOf (H : TweakableHash) (p : Params) (skSeed : Bytes) (adrs : Address) (keyPair : Nat) :
    Bytes :=
  OneTime.keyOf H p.len.toNat skSeed (keyAddress adrs (UInt32.ofNat keyPair))

/-- The root of the tree at an address. -/
def treeRoot (H : TweakableHash) (p : Params) (skSeed : Bytes) (adrs : Address) : Bytes :=
  MerkleTree.node H (adrs.setType .tree) 0 (keyOf H p skSeed adrs) p.hp.toNat 0

/-- The path of a key pair in the tree at an address. -/
def pathOf (H : TweakableHash) (p : Params) (skSeed : Bytes) (adrs : Address) (keyPair : Nat) :
    List Bytes :=
  MerkleTree.pathFrom H (adrs.setType .tree) 0 (keyOf H p skSeed adrs) keyPair 0 p.hp.toNat

/-- The one-time signature of a message, chain by chain. -/
def blocksOf (H : TweakableHash) (p : Params) (skSeed : Bytes) (adrs : Address) (keyPair : UInt32)
    (message : Bytes) : List Bytes :=
  OneTime.blocksOf H skSeed (keyAddress adrs keyPair) (signedDigits p.len.toNat message)

/-- What a key pair signs a message with: its one-time signature and its path. -/
def segmentOf (H : TweakableHash) (p : Params) (skSeed : Bytes) (adrs : Address) (keyPair : UInt32)
    (message : Bytes) : Bytes :=
  (blocksOf H p skSeed adrs keyPair message).flatten ++
    (pathOf H p skSeed adrs keyPair.toNat).flatten

/-- The blocks of the one-time signature in a segment. -/
def revealed (p : Params) (segment : Bytes) : List Bytes :=
  Bytes.blocks p.n.toNat p.len.toNat segment

/-- The nodes of the path in a segment. -/
def siblings (p : Params) (segment : Bytes) : List Bytes :=
  Bytes.blocks p.n.toNat p.hp.toNat (segment.drop (p.len.toNat * p.n.toNat))

/-- The public key that the blocks of a segment complete to. -/
def completed (H : TweakableHash) (p : Params) (adrs : Address) (keyPair : UInt32)
    (segment message : Bytes) : Bytes :=
  OneTime.compress H (keyAddress adrs keyPair)
    (OneTime.topsOf H (keyAddress adrs keyPair) (revealed p segment)
      (signedDigits p.len.toNat message))

/-- What a segment for a message climbs to. -/
def climbed (H : TweakableHash) (p : Params) (adrs : Address) (keyPair : UInt32)
    (segment message : Bytes) : Bytes :=
  MerkleTree.ascent H (adrs.setType .tree) 0 keyPair.toNat 0
    (completed H p adrs keyPair segment message) (siblings p segment)

theorem keyAddress_congr (alike : adrs.Alike adrs') (keyPair : UInt32) :
    keyAddress adrs keyPair = keyAddress adrs' keyPair := by
  rw [keyAddress, keyAddress, alike.setType]

@[simp] theorem keyAddress_setType (adrs : Address) (kind : AddressType) (keyPair : UInt32) :
    keyAddress (adrs.setType kind) keyPair = keyAddress adrs keyPair := by
  rw [keyAddress, keyAddress, Address.setType_setType]

@[simp] theorem keyAddress_setType' (adrs : Address) (keyPair : UInt32) (kind : AddressType) :
    (keyAddress adrs keyPair).setType kind = adrs.setType kind := by
  rw [keyAddress, Address.setKeyPair_setType, Address.setType_setType]

/-- The key pairs of a tree do not depend on what stands behind the place of their address. -/
theorem keyOf_congr (same : ∀ kind, adrs.setType kind = adrs'.setType kind) (skSeed : Bytes) :
    keyOf H p skSeed adrs = keyOf H p skSeed adrs' := by
  funext keyPair
  rw [keyOf, keyOf, keyAddress, keyAddress, same]

theorem treeRoot_congr (same : ∀ kind, adrs.setType kind = adrs'.setType kind) (skSeed : Bytes) :
    treeRoot H p skSeed adrs = treeRoot H p skSeed adrs' := by
  rw [treeRoot, treeRoot, keyOf_congr same, same]

theorem climbed_congr (same : ∀ kind, adrs.setType kind = adrs'.setType kind) (keyPair : UInt32)
    (segment message : Bytes) :
    climbed H p adrs keyPair segment message = climbed H p adrs' keyPair segment message := by
  rw [climbed, climbed, completed, completed, keyAddress, keyAddress, same, same]

@[simp] theorem length_keyOf (skSeed : Bytes) (adrs : Address) (keyPair : Nat) :
    (keyOf H p skSeed adrs keyPair).length = H.n := OneTime.length_keyOf _ _ _

theorem length_treeRoot (skSeed : Bytes) (adrs : Address) :
    (treeRoot H p skSeed adrs).length = H.n :=
  MerkleTree.length_node (fun _ => length_keyOf _ _ _) _ _

theorem length_of_mem_pathOf {skSeed : Bytes} {keyPair : Nat} {block : Bytes}
    (member : block ∈ pathOf H p skSeed adrs keyPair) : block.length = H.n :=
  MerkleTree.length_of_mem_pathFrom (fun _ => length_keyOf _ _ _) member

@[simp] theorem length_pathOf (skSeed : Bytes) (adrs : Address) (keyPair : Nat) :
    (pathOf H p skSeed adrs keyPair).length = p.hp.toNat := MerkleTree.length_pathFrom _ _ _ _ _

theorem length_flatten_pathOf (skSeed : Bytes) (adrs : Address) (keyPair : Nat) :
    (pathOf H p skSeed adrs keyPair).flatten.length = p.hp.toNat * H.n :=
  MerkleTree.length_flatten_pathFrom (fun _ => length_keyOf _ _ _) _ _ _

theorem enough_chains (sound : p.Sound) : Params.checksumDigits ≤ p.len.toNat := by
  have := sound.chains; rw [Params.checksumDigits]; omega

theorem length_signedDigits (sound : p.Sound) (message : Bytes) :
    (signedDigits p.len.toNat message).length = p.len.toNat := by
  exact Winternitz.length_signedDigits (enough_chains sound) message

theorem length_flatten_blocksOf (sound : p.Sound) (width : H.n = p.n.toNat) (skSeed : Bytes)
    (adrs : Address) (keyPair : UInt32) (message : Bytes) :
    (blocksOf H p skSeed adrs keyPair message).flatten.length = p.len.toNat * p.n.toNat := by
  rw [blocksOf, OneTime.length_flatten_signed (enough_chains sound), width]

theorem length_segmentOf (sound : p.Sound) (width : H.n = p.n.toNat) (skSeed : Bytes)
    (adrs : Address) (keyPair : UInt32) (message : Bytes) :
    (segmentOf H p skSeed adrs keyPair message).length =
      (p.len.toNat + p.hp.toNat) * p.n.toNat := by
  rw [segmentOf, List.length_append, length_flatten_blocksOf sound width, length_flatten_pathOf,
    width, Nat.add_mul]

/-! ## Signing -/

/-- The key of a key pair is generated at its address. -/
theorem publicKey_eq (sound : p.Sound) (width : H.n = p.n.toNat) (skSeed : Bytes) (adrs : Address)
    (keyPair : Nat) :
    ∃ left, OneTime.publicKey H p.len.toNat skSeed (keyAddress adrs (UInt32.ofNat keyPair)) =
      .ok (keyOf H p skSeed adrs keyPair, left) := by
  obtain ⟨left, made, -⟩ := OneTime.publicKey_eq (H := H) p.len.toNat
    (Nat.mul_le_mul sound.chains_le (by rw [width]; exact sound.n_le))
    (by rw [width]; exact sound.n_pos) skSeed (keyAddress adrs (UInt32.ofNat keyPair))
  exact ⟨left, made⟩

theorem leaf_eq (sound : p.Sound) (width : H.n = p.n.toNat) (skSeed : Bytes) (adrs : Address)
    (i : UInt32) : leaf H p skSeed adrs i = .ok (keyOf H p skSeed adrs i.toNat) := by
  obtain ⟨left, made⟩ := publicKey_eq (H := H) sound width skSeed adrs i.toNat
  rw [UInt32.ofNat_toNat] at made
  rw [leaf, made, ok_bind]
  rfl

theorem build_eq (sound : p.Sound) (width : H.n = p.n.toNat) (skSeed : Bytes) (adrs : Address)
    {leafIndex : UInt32} (inside : leafIndex.toNat < 2 ^ p.hp.toNat) (room : Option Nat)
    (asked : ∀ length, room = some length → length = p.hp.toNat * p.n.toNat) :
    ∃ left, build H p skSeed adrs leafIndex room =
      .ok ⟨treeRoot H p skSeed adrs, if room.isSome then
        (pathOf H p skSeed adrs leafIndex.toNat).flatten else [], left⟩ ∧
        left.Alike (adrs.setType .tree) := by
  have low := sound.layer_le
  have power : 2 ^ p.hp.toNat ≤ 2 ^ 20 := Nat.pow_le_pow_right (by decide) low
  refine MerkleTree.build_eq (H := H) 0 leafIndex room (show p.hp.toNat ≤ 31 by omega) inside
    (by rw [UInt32.toNat_zero]; omega) (by rw [width]; exact sound.n_pos)
    (by rw [width]; exact sound.n_le) (fun length some => by rw [width]; exact asked length some)
    (fun i lt => ?_) (adrs.setType .tree)
  rw [leaf_eq sound width, UInt32.toNat_ofNat', Nat.mod_eq_of_lt (by omega)]

/-- Key generation returns the root of a tree. -/
theorem root_eq (sound : p.Sound) (width : H.n = p.n.toNat) (skSeed : Bytes) (layer : UInt32)
    (tree : UInt64) :
    root H p skSeed layer tree = .ok (treeRoot H p skSeed (address layer tree)) := by
  obtain ⟨left, built, -⟩ := build_eq (H := H) sound width skSeed (address layer tree)
    (show (0 : UInt32).toNat < 2 ^ p.hp.toNat from Nat.two_pow_pos _) none (by simp)
  rw [root, built, ok_bind, pure_eq_ok]

/-- Signing returns the segment of the key pair and the root of the tree. -/
theorem sign_eq (sound : p.Sound) (width : H.n = p.n.toNat) (message skSeed : Bytes)
    {index : UInt32} (inside : index.toNat < 2 ^ p.hp.toNat) (adrs : Address) :
    ∃ left, sign H p message skSeed index adrs =
      .ok ⟨segmentOf H p skSeed adrs index message, treeRoot H p skSeed adrs, left⟩ := by
  have total := sound.layerSize_le
  have room : (p.len.toNat + p.hp.toNat) * p.n.toNat - p.len.toNat * p.n.toNat =
      p.hp.toNat * p.n.toNat := by rw [Nat.add_mul, Nat.add_sub_cancel_left]
  obtain ⟨between, built, alike⟩ := build_eq (H := H) sound width skSeed adrs inside
    (some (p.hp.toNat * p.n.toNat)) (fun length some => (Option.some.inj some).symm)
  obtain ⟨left, signed, -⟩ := OneTime.sign_eq (H := H) (enough_chains sound) sound.chains_le
    (by rw [width]; exact sound.n_pos) (by rw [width]; exact sound.n_le) message skSeed
    (keyAddress between index)
  refine ⟨left, ?_⟩
  rw [sign, sound.layerSize_eq, ok_bind, buffer_of_le (by rw [maxBuffer]; omega), ok_bind,
    sound.oneTimeSize_eq, ok_bind, less_of_le (by rw [Nat.add_mul]; omega), ok_bind, room, built,
    ok_bind, signed, ok_bind, keyAddress_congr alike, keyAddress_setType]
  rfl

/-- No key pair outside the tree signs. -/
theorem sign_of_outside (sound : p.Sound) (message skSeed : Bytes) {index : UInt32}
    (outside : 2 ^ p.hp.toNat ≤ index.toNat) (adrs : Address) :
    sign H p message skSeed index adrs =
      refuse (.invalidTree (UInt32.ofNat p.hp.toNat) index.toUInt64) := by
  have total := sound.layerSize_le
  have out : MerkleTree.Outside p.hp.toNat 0 index := .inr (.inl outside)
  have refused := MerkleTree.build_of_outside (H := H)
    (some ((p.len.toNat + p.hp.toNat) * p.n.toNat - p.len.toNat * p.n.toNat))
    (by rw [Option.getD_some, maxBuffer]; omega) out (leaf H p skSeed adrs) (adrs.setType .tree)
  rw [show (0 : UInt32).toUInt64 = 0 from rfl, UInt64.zero_add] at refused
  rw [sign, sound.layerSize_eq, ok_bind, buffer_of_le (by rw [maxBuffer]; omega), ok_bind,
    sound.oneTimeSize_eq, ok_bind, less_of_le (by rw [Nat.add_mul]; omega), ok_bind, build, refused,
    refuse_bind]

/-! ## Verifying -/

/-- The one-time signature in front of a segment completes to a key. -/
theorem completed_eq (sound : p.Sound) (width : H.n = p.n.toNat) (index : UInt32) {segment : Bytes}
    (long : p.len.toNat * p.n.toNat ≤ segment.length) (message : Bytes) (adrs : Address) :
    ∃ left, OneTime.publicKeyOf H p.len.toNat (segment.take (p.len.toNat * p.n.toNat)) message
        (keyAddress adrs index) = .ok (completed H p adrs index segment message, left) ∧
      left.Alike (keyAddress adrs index) := by
  obtain ⟨left, made, alike⟩ := OneTime.publicKeyOf_eq (H := H) (enough_chains sound)
    sound.chains_le (by rw [width]; exact sound.n_pos) (by rw [width]; exact sound.n_le)
    (segment.take (p.len.toNat * p.n.toNat)) (by rw [width, List.length_take]; omega) message
    (keyAddress adrs index)
  rw [width, Bytes.blocks_take] at made
  exact ⟨left, made, alike⟩

/-- Verifying returns what a segment of the right length climbs to. -/
theorem rootUnder_eq (sound : p.Sound) (width : H.n = p.n.toNat) {index : UInt32}
    (inside : index.toNat < 2 ^ p.hp.toNat) {segment : Bytes}
    (length : segment.length = (p.len.toNat + p.hp.toNat) * p.n.toNat) (message : Bytes)
    (adrs : Address) :
    ∃ left, rootOf H p index segment message adrs =
      .ok (climbed H p adrs index segment message, left) := by
  have low := sound.layer_le
  have power : 2 ^ p.hp.toNat ≤ 2 ^ 20 := Nat.pow_le_pow_right (by decide) low
  rw [Nat.add_mul] at length
  obtain ⟨between, made, alike⟩ := completed_eq (H := H) sound width index
    (show p.len.toNat * p.n.toNat ≤ segment.length by omega) message adrs
  obtain ⟨left, reached, -⟩ := MerkleTree.rootOf_eq (H := H) 0 index
    (completed H p adrs index segment message) (segment.drop (p.len.toNat * p.n.toNat))
    (show p.hp.toNat ≤ 31 by omega) inside
    (by rw [UInt32.toNat_zero]; omega) (by rw [width]; exact sound.n_pos)
    (by rw [width]; exact sound.n_le) (H.length_t _ _)
    (by rw [List.length_drop, width]; omega) (adrs.setType .tree)
  refine ⟨left, ?_⟩
  rw [rootOf, sound.oneTimeSize_eq, ok_bind, cut_of_le (by omega), ok_bind]
  simp only []
  rw [made, ok_bind]
  simp only []
  rw [alike.setType, keyAddress_setType', reached, width]
  rfl

/-- No segment leads to a root from a key pair outside the tree, whatever it holds behind its
one-time signature. -/
theorem rootUnder_of_outside (sound : p.Sound) (width : H.n = p.n.toNat) {index : UInt32}
    (outside : 2 ^ p.hp.toNat ≤ index.toNat) {segment : Bytes}
    (long : p.len.toNat * p.n.toNat ≤ segment.length) (message : Bytes) (adrs : Address) :
    rootOf H p index segment message adrs =
      refuse (.invalidTree (UInt32.ofNat p.hp.toNat) index.toUInt64) := by
  obtain ⟨between, made, -⟩ := completed_eq (H := H) sound width index long message adrs
  have out : MerkleTree.Outside p.hp.toNat 0 index := .inr (.inl outside)
  have refused := MerkleTree.rootOf_of_outside (H := H) out
    (completed H p adrs index segment message) (segment.drop (p.len.toNat * p.n.toNat))
    (between.setType .tree)
  rw [show (0 : UInt32).toUInt64 = 0 from rfl, UInt64.zero_add] at refused
  rw [rootOf, sound.oneTimeSize_eq, ok_bind, cut_of_le long, ok_bind]
  simp only []
  rw [made, ok_bind]
  exact refused

/-- The segment of a message completes to the key pair's public key. -/
theorem completed_segmentOf (sound : p.Sound) (width : H.n = p.n.toNat) (skSeed : Bytes)
    (adrs : Address) (keyPair : UInt32) (message : Bytes) :
    completed H p adrs keyPair (segmentOf H p skSeed adrs keyPair message) message =
      keyOf H p skSeed adrs keyPair.toNat := by
  have front := length_flatten_blocksOf sound width skSeed adrs keyPair message
  have blocks : revealed p (segmentOf H p skSeed adrs keyPair message) =
      blocksOf H p skSeed adrs keyPair message := by
    rw [revealed, ← Bytes.blocks_take, segmentOf, List.take_left' front, ← width]
    exact OneTime.blocks_signed (enough_chains sound) message skSeed _
  rw [completed, blocks, blocksOf, keyOf, UInt32.ofNat_toNat,
    OneTime.compress_topsOf_signed (enough_chains sound) sound.chains_le]

/-- The segment of a message climbs to the root of the tree. -/
theorem climbed_segmentOf (sound : p.Sound) (width : H.n = p.n.toNat) (skSeed : Bytes)
    (adrs : Address) {keyPair : UInt32} (inside : keyPair.toNat < 2 ^ p.hp.toNat)
    (message : Bytes) :
    climbed H p adrs keyPair (segmentOf H p skSeed adrs keyPair message) message =
      treeRoot H p skSeed adrs := by
  have front := length_flatten_blocksOf sound width skSeed adrs keyPair message
  have path : siblings p (segmentOf H p skSeed adrs keyPair message) =
      pathOf H p skSeed adrs keyPair.toNat := by
    rw [siblings, segmentOf, List.drop_left' front, ← width]
    exact MerkleTree.blocks_pathFrom (fun _ => length_keyOf _ _ _) _ _ _
  rw [climbed, completed_segmentOf sound width, path]
  exact MerkleTree.ascent_path _ _ (Nat.dvd_zero _) inside

end HashSignature.Layer
