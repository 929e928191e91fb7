/-
# HashSignature.Proofs.Hypertree — every layer signs what its coordinates say

The coordinates on a layer are the number of its tree, `treeAt`, and of the leaf that signs,
`leafAt`. What is signed there is the message on layer 0, and on every higher layer the root of the
tree below.

* `position_eq` — one step up takes the coordinates of a layer to those of the next.
* `sign_eq`, `verify_eq` — signing lists one segment for each layer; verifying climbs through them.
* `climbedFrom_segments` — the segments of a message climb to the root on top.
* `treeAt_top` — the legal trees of layer 0 stand under one tree on top.
* `sign_of_ne`, `verify_of_ne` — another length is refused; `sign_of_outside`, `verify_of_outside` —
  so is a leaf that layer 0 does not have, whatever the layers above would do with it.
-/
import HashSignature.Proofs.Layer
import HashSignature.Hypertree

namespace HashSignature.Hypertree

set_option autoImplicit false

open Outcome

variable {H : TweakableHash} {p : Params}

/-! ## Coordinates -/

/-- The tree on a layer above a tree of layer 0. -/
def treeAt (p : Params) (tree : UInt64) (layer : Nat) : UInt64 :=
  UInt64.ofNat (tree.toNat / 2 ^ (layer * p.hp.toNat))

/-- The leaf that signs on a layer: a leaf given for layer 0, above it the one that the tree below
selects. -/
def leafAt (p : Params) (tree : UInt64) (leaf : UInt32) : (layer : Nat) → UInt32
  | 0 => leaf
  | layer + 1 => UInt32.ofNat ((treeAt p tree layer).toNat % 2 ^ p.hp.toNat)

theorem toNat_treeAt (p : Params) (tree : UInt64) (layer : Nat) :
    (treeAt p tree layer).toNat = tree.toNat / 2 ^ (layer * p.hp.toNat) := by
  have le := Nat.div_le_self tree.toNat (2 ^ (layer * p.hp.toNat))
  have lt := tree.toNat_lt
  rw [treeAt, UInt64.toNat_ofNat', Nat.mod_eq_of_lt (by omega)]

@[simp] theorem treeAt_zero (p : Params) (tree : UInt64) : treeAt p tree 0 = tree := by
  rw [← UInt64.toNat_inj, toNat_treeAt, Nat.zero_mul, Nat.pow_zero, Nat.div_one]

theorem toNat_treeAt_succ (p : Params) (tree : UInt64) (layer : Nat) :
    (treeAt p tree (layer + 1)).toNat = (treeAt p tree layer).toNat / 2 ^ p.hp.toNat := by
  rw [toNat_treeAt, toNat_treeAt, Nat.succ_mul, Nat.pow_add, Nat.div_div_eq_div_mul]

theorem toNat_leafAt_succ (sound : p.Sound) (tree : UInt64) (leaf : UInt32) (layer : Nat) :
    (leafAt p tree leaf (layer + 1)).toNat =
      (treeAt p tree layer).toNat % 2 ^ p.hp.toNat := by
  have power : 2 ^ p.hp.toNat ≤ 2 ^ 20 := Nat.pow_le_pow_right (by decide) sound.layer_le
  have lt := Nat.mod_lt (treeAt p tree layer).toNat (Nat.two_pow_pos p.hp.toNat)
  rw [leafAt, UInt32.toNat_ofNat', Nat.mod_eq_of_lt (by omega)]

theorem leafAt_lt (sound : p.Sound) (tree : UInt64) {leaf : UInt32}
    (inside : leaf.toNat < 2 ^ p.hp.toNat) (layer : Nat) :
    (leafAt p tree leaf layer).toNat < 2 ^ p.hp.toNat := by
  cases layer with
  | zero => exact inside
  | succ layer =>
      rw [toNat_leafAt_succ sound]
      exact Nat.mod_lt _ (Nat.two_pow_pos _)

theorem ascend_eq (sound : p.Sound) (tree : UInt64) (leaf : UInt32) (layer : Nat) :
    ascend p (treeAt p tree layer) = .ok (leafAt p tree leaf (layer + 1), treeAt p tree (layer + 1)) := by
  have narrow : p.hp.toNat < 64 := by have := sound.layer_le; omega
  obtain ⟨width, shifted, width_eq⟩ := shl64_one_eq narrow
  obtain ⟨above, shifted', above_eq⟩ := shr64_eq (treeAt p tree layer) narrow
  have above_tree : above = treeAt p tree (layer + 1) := by
    rw [← UInt64.toNat_inj, above_eq, toNat_treeAt_succ]
  have low : (treeAt p tree layer &&& (width - 1)).toUInt32 = leafAt p tree leaf (layer + 1) := by
    rw [← UInt32.toNat_inj, toNat_leafAt_succ sound, UInt64.toNat_toUInt32,
      toNat_and_mask width_eq]
    have power : 2 ^ p.hp.toNat ≤ 2 ^ 20 := Nat.pow_le_pow_right (by decide) sound.layer_le
    have lt := Nat.mod_lt (treeAt p tree layer).toNat (Nat.two_pow_pos p.hp.toNat)
    exact Nat.mod_eq_of_lt (by omega)
  rw [ascend, shifted, ok_bind, shifted', ok_bind, pure_eq_ok, low, above_tree]

/-- The coordinates of a layer, from those of the layer below. -/
theorem position_eq (sound : p.Sound) (tree : UInt64) (leaf : UInt32) (layer : Nat) :
    position p layer (treeAt p tree (layer - 1)) (leafAt p tree leaf (layer - 1)) =
      .ok (leafAt p tree leaf layer, treeAt p tree layer) := by
  cases layer with
  | zero => rfl
  | succ layer => exact ascend_eq sound tree leaf layer

/-- The tree on a layer is one of the trees of that layer. -/
theorem toNat_treeAt_lt (sound : p.Sound) {tree : UInt64}
    (legal : tree.toNat < 2 ^ (p.h.toNat - p.hp.toNat)) {layer : Nat} (inside : layer < p.d.toNat) :
    (treeAt p tree layer).toNat < 2 ^ ((p.d.toNat - 1 - layer) * p.hp.toNat) := by
  rw [toNat_treeAt, Nat.div_lt_iff_lt_mul (Nat.two_pow_pos _), ← Nat.pow_add, ← Nat.add_mul,
    Nat.sub_add_cancel (by omega), ← sound.tree_bits_eq]
  exact legal

/-- The legal trees of layer 0 stand under one tree on top. -/
theorem treeAt_top (sound : p.Sound) {tree : UInt64}
    (legal : tree.toNat < 2 ^ (p.h.toNat - p.hp.toNat)) : treeAt p tree (p.d.toNat - 1) = 0 := by
  rw [← UInt64.toNat_inj, toNat_treeAt, ← sound.tree_bits_eq, Nat.div_eq_of_lt legal]
  rfl

/-! ## Lengths -/

theorem checkLength_of (sound : p.Sound) {length : Nat}
    (full : length = p.d.toNat * ((p.len.toNat + p.hp.toNat) * p.n.toNat)) :
    checkLength p length = .ok () := by
  rw [checkLength, sound.hypertreeSize_eq, ok_bind, if_pos full, pure_eq_ok]

theorem checkLength_of_ne (sound : p.Sound) {length : Nat}
    (other : length ≠ p.d.toNat * ((p.len.toNat + p.hp.toNat) * p.n.toNat)) :
    checkLength p length = refuse (.invalidLength "hypertree signature"
      (p.d.toNat * ((p.len.toNat + p.hp.toNat) * p.n.toNat)) length) := by
  rw [checkLength, sound.hypertreeSize_eq, ok_bind, if_neg other]

/-! ## Signing -/

/-- The address of the tree on a layer. -/
def addressAt (p : Params) (tree : UInt64) (layer : Nat) : Address :=
  Layer.address (UInt32.ofNat layer) (treeAt p tree layer)

/-- The root of the tree on a layer. -/
def rootAt (H : TweakableHash) (p : Params) (skSeed : Bytes) (tree : UInt64) (layer : Nat) :
    Bytes :=
  Layer.treeRoot H p skSeed (addressAt p tree layer)

/-- What is signed on a layer. -/
def signedAt (H : TweakableHash) (p : Params) (skSeed : Bytes) (tree : UInt64) (message : Bytes) :
    (layer : Nat) → Bytes
  | 0 => message
  | layer + 1 => rootAt H p skSeed tree layer

/-- The segment of a layer in the signature of a message. -/
def segmentAt (H : TweakableHash) (p : Params) (skSeed : Bytes) (tree : UInt64) (leaf : UInt32)
    (message : Bytes) (layer : Nat) : Bytes :=
  Layer.segmentOf H p skSeed (addressAt p tree layer) (leafAt p tree leaf layer)
    (signedAt H p skSeed tree message layer)

/-- The segments of the signature of a message, layer by layer. -/
def segments (H : TweakableHash) (p : Params) (skSeed : Bytes) (tree : UInt64) (leaf : UInt32)
    (message : Bytes) : List Bytes :=
  (List.range p.d.toNat).map (segmentAt H p skSeed tree leaf message)

theorem length_of_mem_segments (sound : p.Sound) (width : H.n = p.n.toNat)
    {skSeed message segment : Bytes} {tree : UInt64} {leaf : UInt32}
    (member : segment ∈ segments H p skSeed tree leaf message) :
    segment.length = (p.len.toNat + p.hp.toNat) * p.n.toNat := by
  obtain ⟨_, -, rfl⟩ := List.mem_map.1 member
  exact Layer.length_segmentOf sound width _ _ _ _

@[simp] theorem length_segments (skSeed : Bytes) (tree : UInt64) (leaf : UInt32) (message : Bytes) :
    (segments H p skSeed tree leaf message).length = p.d.toNat := by simp [segments]

theorem length_flatten_segments (sound : p.Sound) (width : H.n = p.n.toNat) (skSeed : Bytes)
    (tree : UInt64) (leaf : UInt32) (message : Bytes) :
    (segments H p skSeed tree leaf message).flatten.length =
      p.d.toNat * ((p.len.toNat + p.hp.toNat) * p.n.toNat) := by
  rw [Bytes.length_flatten_of fun segment => length_of_mem_segments sound width, length_segments]

/-- A signature is cut into its segments. -/
theorem blocks_segments (sound : p.Sound) (width : H.n = p.n.toNat) (skSeed : Bytes)
    (tree : UInt64) (leaf : UInt32) (message : Bytes) :
    Bytes.blocks ((p.len.toNat + p.hp.toNat) * p.n.toNat) p.d.toNat
        (segments H p skSeed tree leaf message).flatten =
      segments H p skSeed tree leaf message :=
  Bytes.blocks_flatten (length_segments _ _ _ _) fun _ => length_of_mem_segments sound width

theorem length_signedAt (width : H.n = p.n.toNat) {skSeed message : Bytes} {tree : UInt64}
    (length : message.length = p.n.toNat) (layer : Nat) :
    (signedAt H p skSeed tree message layer).length = p.n.toNat := by
  cases layer with
  | zero => exact length
  | succ layer => exact (Layer.length_treeRoot _ _).trans width

/-- What a signer does on one layer: the coordinates it visits, what it signs there, and the segment
that it makes. -/
structure Visit where
  layer : Nat
  tree : UInt64
  leaf : UInt32
  node : Bytes
  segment : Bytes

/-- Signing from a layer on, with a record of each layer. -/
def visitsFrom (H : TweakableHash) (p : Params) (skSeed : Bytes) : (more layer : Nat) →
    (tree : UInt64) → (leaf : UInt32) → (node : Bytes) → Outcome (List Visit)
  | 0, _, _, _, _ => .ok []
  | more + 1, layer, tree, leaf, node => do
    let (leaf, tree) ← position p layer tree leaf
    let signed ← Layer.sign H p node skSeed leaf (Layer.address (UInt32.ofNat layer) tree)
    let rest ← visitsFrom H p skSeed more (layer + 1) tree leaf signed.root
    return ⟨layer, tree, leaf, node, signed.signature⟩ :: rest

/-- The record of a layer holds the segment that signing returns. -/
theorem signFrom_eq_visits (skSeed : Bytes) (more layer : Nat) (tree : UInt64) (leaf : UInt32)
    (node : Bytes) :
    signFrom H p skSeed more layer tree leaf node =
      (visitsFrom H p skSeed more layer tree leaf node).map (List.map Visit.segment) := by
  induction more generalizing layer tree leaf node with
  | zero => rfl
  | succ more ih =>
      rw [signFrom, visitsFrom]
      cases position p layer tree leaf with
      | error stop => rfl
      | ok place =>
          simp only [ok_bind]
          cases Layer.sign H p node skSeed place.1 (Layer.address (UInt32.ofNat layer) place.2) with
          | error stop => rfl
          | ok signed =>
              simp only [ok_bind, ih]
              cases visitsFrom H p skSeed more (layer + 1) place.2 place.1 signed.root <;> rfl

/-- The visit of a layer in the signature of a message. -/
def visitAt (H : TweakableHash) (p : Params) (skSeed : Bytes) (tree : UInt64) (leaf : UInt32)
    (message : Bytes) (layer : Nat) : Visit :=
  ⟨layer, treeAt p tree layer, leafAt p tree leaf layer, signedAt H p skSeed tree message layer,
    segmentAt H p skSeed tree leaf message layer⟩

theorem visitsFrom_eq (sound : p.Sound) (width : H.n = p.n.toNat) (skSeed : Bytes) (tree : UInt64)
    {leaf : UInt32} (inside : leaf.toNat < 2 ^ p.hp.toNat) (message : Bytes) (more layer : Nat) :
    visitsFrom H p skSeed more layer (treeAt p tree (layer - 1)) (leafAt p tree leaf (layer - 1))
        (signedAt H p skSeed tree message layer) =
      .ok ((List.range' layer more).map (visitAt H p skSeed tree leaf message)) := by
  induction more generalizing layer with
  | zero => rfl
  | succ more ih =>
      obtain ⟨left, signed⟩ := Layer.sign_eq (H := H) sound width
        (signedAt H p skSeed tree message layer) skSeed (leafAt_lt sound tree inside layer)
        (addressAt p tree layer)
      have rest := ih (layer + 1)
      rw [Nat.add_sub_cancel, signedAt, rootAt] at rest
      rw [visitsFrom, position_eq sound, ok_bind]
      simp only []
      rw [← addressAt, signed, ok_bind, rest, ok_bind, List.range'_succ, List.map_cons, visitAt,
        segmentAt]
      rfl

/-- Signing a message, with a record of each layer. -/
def visits (H : TweakableHash) (p : Params) (message skSeed : Bytes) (tree : UInt64)
    (leaf : UInt32) (room : Nat) : Outcome (List Visit) := do
  buffer room
  checkLength p room
  let node ← exactly p.n.toNat message
  ensure (0 < (← p.layerSize))
  visitsFrom H p skSeed p.d.toNat 0 tree leaf node

theorem sign_eq_visits (message skSeed : Bytes) (tree : UInt64) (leaf : UInt32) (room : Nat) :
    sign H p message skSeed tree leaf room =
      (visits H p message skSeed tree leaf room).map fun visits =>
        (visits.map Visit.segment).flatten := by
  simp only [sign, visits, map_bind, signFrom_eq_visits, bind_of_map]
  simp only [bind_pure_eq_map]

/-- Signing a message of `n` bytes starts on layer 0. -/
theorem visits_of_length (sound : p.Sound) (skSeed : Bytes) (tree : UInt64) (leaf : UInt32)
    {message : Bytes} (length : message.length = p.n.toNat) :
    visits H p message skSeed tree leaf
        (p.d.toNat * ((p.len.toNat + p.hp.toNat) * p.n.toNat)) =
      visitsFrom H p skSeed p.d.toNat 0 tree leaf message := by
  have total := sound.hypertreeSize_le
  rw [visits, buffer_of_le (by rw [maxBuffer]; omega), ok_bind, checkLength_of sound rfl, ok_bind,
    exactly_of_eq length, ok_bind, sound.layerSize_eq, ok_bind, ensure_of sound.layerSize_pos,
    ok_bind]

/-- Signing a message of `n` bytes visits all layers. -/
theorem visits_eq (sound : p.Sound) (width : H.n = p.n.toNat) (skSeed : Bytes) (tree : UInt64)
    {leaf : UInt32} (inside : leaf.toNat < 2 ^ p.hp.toNat) (message : Bytes)
    (length : message.length = p.n.toNat) :
    visits H p message skSeed tree leaf
        (p.d.toNat * ((p.len.toNat + p.hp.toNat) * p.n.toNat)) =
      .ok ((List.range p.d.toNat).map (visitAt H p skSeed tree leaf message)) := by
  have visited := visitsFrom_eq (H := H) sound width skSeed tree inside message
    p.d.toNat 0
  rw [Nat.zero_sub, treeAt_zero] at visited
  rw [visits_of_length sound skSeed tree leaf length, List.range_eq_range']
  exact visited

/-- Signing a message of `n` bytes lists one segment for each layer. -/
theorem sign_eq (sound : p.Sound) (width : H.n = p.n.toNat) (skSeed : Bytes) (tree : UInt64)
    {leaf : UInt32} (inside : leaf.toNat < 2 ^ p.hp.toNat) (message : Bytes)
    (length : message.length = p.n.toNat) :
    sign H p message skSeed tree leaf
        (p.d.toNat * ((p.len.toNat + p.hp.toNat) * p.n.toNat)) =
      .ok (segments H p skSeed tree leaf message).flatten := by
  rw [sign_eq_visits, visits_eq sound width skSeed tree inside message length]
  exact congrArg (fun list => Except.ok (List.flatten list)) List.map_map

/-- No signature of another length is made. -/
theorem sign_of_ne (sound : p.Sound) (message skSeed : Bytes) (tree : UInt64) (leaf : UInt32)
    {room : Nat} (fits : room ≤ maxBuffer)
    (other : room ≠ p.d.toNat * ((p.len.toNat + p.hp.toNat) * p.n.toNat)) :
    sign H p message skSeed tree leaf room = refuse (.invalidLength "hypertree signature"
      (p.d.toNat * ((p.len.toNat + p.hp.toNat) * p.n.toNat)) room) := by
  rw [sign, buffer_of_le fits, ok_bind, checkLength_of_ne sound other, refuse_bind]

/-- A leaf that layer 0 does not have is refused there; the layers above never see it. -/
theorem sign_of_outside (sound : p.Sound) (skSeed : Bytes) (tree : UInt64) {leaf : UInt32}
    (outside : 2 ^ p.hp.toNat ≤ leaf.toNat) (message : Bytes)
    (length : message.length = p.n.toNat) :
    sign H p message skSeed tree leaf
        (p.d.toNat * ((p.len.toNat + p.hp.toNat) * p.n.toNat)) =
      refuse (.invalidTree (UInt32.ofNat p.hp.toNat) leaf.toUInt64) := by
  obtain ⟨more, layers⟩ := Nat.exists_eq_add_of_le' sound.layers
  have first : position p 0 tree leaf = .ok (leaf, tree) := rfl
  rw [sign_eq_visits, visits_of_length sound skSeed tree leaf length, layers, visitsFrom, first,
    ok_bind]
  simp only []
  rw [Layer.sign_of_outside sound message skSeed outside]
  rfl

/-! ## Verifying -/

/-- What segments climb to from a layer on, one after the other. -/
def climbedFrom (H : TweakableHash) (p : Params) (tree : UInt64) (leaf : UInt32) :
    (layer : Nat) → (node : Bytes) → (segments : List Bytes) → Bytes
  | _, node, [] => node
  | layer, node, segment :: rest =>
    climbedFrom H p tree leaf (layer + 1)
      (Layer.climbed H p (addressAt p tree layer) (leafAt p tree leaf layer) segment node) rest

theorem nodeFrom_eq (sound : p.Sound) (width : H.n = p.n.toNat) (tree : UInt64)
    {leaf : UInt32} (inside : leaf.toNat < 2 ^ p.hp.toNat) {segments : List Bytes}
    (full : ∀ segment ∈ segments,
      segment.length = (p.len.toNat + p.hp.toNat) * p.n.toNat) (layer : Nat) (node : Bytes) :
    nodeFrom H p layer (treeAt p tree (layer - 1)) (leafAt p tree leaf (layer - 1)) node segments =
      .ok (climbedFrom H p tree leaf layer node segments) := by
  induction segments generalizing layer node with
  | nil => rfl
  | cons segment rest ih =>
      obtain ⟨length, full⟩ := List.forall_mem_cons.1 full
      obtain ⟨left, reached⟩ := Layer.rootUnder_eq (H := H) sound width
        (leafAt_lt sound tree inside layer) length node (addressAt p tree layer)
      rw [nodeFrom, position_eq sound, ok_bind]
      simp only []
      rw [← addressAt, reached, ok_bind]
      exact ih full (layer + 1) _

/-- Verifying a signature of the right length starts on layer 0. -/
theorem verify_of_length (sound : p.Sound) (tree : UInt64) (leaf : UInt32)
    {message signature : Bytes} (length : message.length = p.n.toNat)
    (full : signature.length = p.d.toNat * ((p.len.toNat + p.hp.toNat) * p.n.toNat))
    (root : Bytes) :
    verify H p message signature tree leaf root =
      (nodeFrom H p 0 tree leaf message
        (Bytes.blocks ((p.len.toNat + p.hp.toNat) * p.n.toNat) p.d.toNat signature)).map
          (· == root) := by
  rw [verify, checkLength_of sound full, ok_bind, exactly_of_eq length, ok_bind,
    sound.layerSize_eq, ok_bind, ensure_of sound.layerSize_pos, ok_bind]
  exact bind_pure_eq_map _ _

/-- Verifying compares what the segments of a signature climb to with the root. -/
theorem verify_eq (sound : p.Sound) (width : H.n = p.n.toNat) (tree : UInt64)
    {leaf : UInt32} (inside : leaf.toNat < 2 ^ p.hp.toNat) (message signature : Bytes)
    (length : message.length = p.n.toNat)
    (full : signature.length = p.d.toNat * ((p.len.toNat + p.hp.toNat) * p.n.toNat))
    (root : Bytes) :
    verify H p message signature tree leaf root =
      .ok (climbedFrom H p tree leaf 0 message
        (Bytes.blocks ((p.len.toNat + p.hp.toNat) * p.n.toNat) p.d.toNat signature) == root) := by
  have reached := nodeFrom_eq (H := H) sound width tree inside
    (fun segment => Bytes.length_of_mem_blocks (Nat.le_of_eq full.symm)) 0 message
  rw [Nat.zero_sub, treeAt_zero] at reached
  rw [verify_of_length sound tree leaf length full]
  exact congrArg (Except.map (· == root)) reached

/-- A signature of another length leads nowhere. -/
theorem verify_of_ne (sound : p.Sound) (message : Bytes) {signature : Bytes} (tree : UInt64)
    (leaf : UInt32)
    (other : signature.length ≠ p.d.toNat * ((p.len.toNat + p.hp.toNat) * p.n.toNat))
    (root : Bytes) :
    verify H p message signature tree leaf root = refuse (.invalidLength "hypertree signature"
      (p.d.toNat * ((p.len.toNat + p.hp.toNat) * p.n.toNat)) signature.length) := by
  rw [verify, checkLength_of_ne sound other, refuse_bind]

/-- A signature by a leaf that layer 0 does not have is refused there, whatever its bytes. -/
theorem verify_of_outside (sound : p.Sound) (width : H.n = p.n.toNat) (tree : UInt64)
    {leaf : UInt32} (outside : 2 ^ p.hp.toNat ≤ leaf.toNat) (message : Bytes) {signature : Bytes}
    (length : message.length = p.n.toNat)
    (full : signature.length = p.d.toNat * ((p.len.toNat + p.hp.toNat) * p.n.toNat))
    (root : Bytes) :
    verify H p message signature tree leaf root =
      refuse (.invalidTree (UInt32.ofNat p.hp.toNat) leaf.toUInt64) := by
  obtain ⟨more, layers⟩ := Nat.exists_eq_add_of_le' sound.layers
  have first : position p 0 tree leaf = .ok (leaf, tree) := rfl
  have long : p.len.toNat * p.n.toNat ≤
      (signature.take ((p.len.toNat + p.hp.toNat) * p.n.toNat)).length := by
    rw [List.length_take, full, layers, Nat.succ_mul, Nat.add_mul]
    omega
  rw [verify_of_length sound tree leaf length full, layers, Bytes.blocks, nodeFrom, first, ok_bind]
  simp only []
  rw [Layer.rootUnder_of_outside sound width outside long]
  rfl

theorem climbedFrom_segmentAt (sound : p.Sound) (width : H.n = p.n.toNat) (skSeed : Bytes)
    (tree : UInt64) {leaf : UInt32} (inside : leaf.toNat < 2 ^ p.hp.toNat) (message : Bytes)
    (more layer : Nat) :
    climbedFrom H p tree leaf layer (signedAt H p skSeed tree message layer)
        ((List.range' layer more).map (segmentAt H p skSeed tree leaf message)) =
      signedAt H p skSeed tree message (layer + more) := by
  induction more generalizing layer with
  | zero => rfl
  | succ more ih =>
      rw [List.range'_succ, List.map_cons, climbedFrom, segmentAt,
        Layer.climbed_segmentOf sound width _ _ (leafAt_lt sound tree inside layer),
        show layer + (more + 1) = layer + 1 + more by omega, ← ih]
      rfl

/-- The segments of a message climb to the root of the tree on top. -/
theorem climbedFrom_segments (sound : p.Sound) (width : H.n = p.n.toNat) (skSeed : Bytes)
    (tree : UInt64) {leaf : UInt32} (inside : leaf.toNat < 2 ^ p.hp.toNat) (message : Bytes) :
    climbedFrom H p tree leaf 0 message (segments H p skSeed tree leaf message) =
      rootAt H p skSeed tree (p.d.toNat - 1) := by
  have climbed := climbedFrom_segmentAt (H := H) sound width skSeed tree inside message p.d.toNat 0
  have layers := sound.layers
  rw [← List.range_eq_range', ← segments, show 0 + p.d.toNat = p.d.toNat - 1 + 1 by omega] at climbed
  exact climbed

end HashSignature.Hypertree
