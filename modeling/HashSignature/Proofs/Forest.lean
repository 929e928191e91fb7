/-
# HashSignature.Proofs.Forest — a forest signature leads back to the public value

All trees of a forest stand in one numbering: tree `j` starts at leaf `j * 2 ^ a`. The values that
the signer and the verifier compute are written here as functions of these numbers, and none of
them depends on the height and index that an address held before.

* `sign_eq` — signing succeeds for every digest; the segments are those of the selected leaves, the
  public value is the same for every digest.
* `publicKeyOf_eq` — verifying succeeds for every signature of the right length and compresses what
  its segments climb to.
* `climbed_segmentOf` — the segment of a leaf climbs to the root of its tree.
* `sign_of_ne`, `publicKeyOf_of_ne` — another length is refused.
-/
import HashSignature.Proofs.Digits
import HashSignature.Proofs.MerkleTree
import HashSignature.Proofs.Params
import HashSignature.Forest

namespace HashSignature.Forest

set_option autoImplicit false

open Outcome

variable {H : TweakableHash} {p : Params} {adrs adrs' : Address}

/-! ## The forest as a value -/

/-- The leaf with a number. -/
def leafOf (H : TweakableHash) (skSeed : Bytes) (adrs : Address) (index : Nat) : Bytes :=
  H.f (adrs.setLast 0 (UInt32.ofNat index)) (secret H skSeed adrs (UInt32.ofNat index))

/-- The number of the first leaf of a tree. -/
def firstLeaf (p : Params) (tree : Nat) : Nat := tree * 2 ^ p.a.toNat

/-- A node of a tree of the forest. -/
def treeNode (H : TweakableHash) (p : Params) (skSeed : Bytes) (adrs : Address) (tree : Nat) :
    (level index : Nat) → Bytes :=
  MerkleTree.node H adrs (firstLeaf p tree) fun i => leafOf H skSeed adrs (firstLeaf p tree + i)

/-- The root of a tree of the forest. -/
def rootOf (H : TweakableHash) (p : Params) (skSeed : Bytes) (adrs : Address) (tree : Nat) : Bytes :=
  treeNode H p skSeed adrs tree p.a.toNat 0

/-- The path of a leaf in a tree of the forest. -/
def pathOf (H : TweakableHash) (p : Params) (skSeed : Bytes) (adrs : Address)
    (tree leafIndex : Nat) : List Bytes :=
  MerkleTree.pathFrom H adrs (firstLeaf p tree)
    (fun i => leafOf H skSeed adrs (firstLeaf p tree + i)) leafIndex 0 p.a.toNat

/-- What a signature holds for a selected leaf of a tree: its secret and its path. -/
def segmentOf (H : TweakableHash) (p : Params) (skSeed : Bytes) (adrs : Address)
    (tree leafIndex : Nat) : Bytes :=
  secret H skSeed adrs (UInt32.ofNat (firstLeaf p tree + leafIndex)) ++
    (pathOf H p skSeed adrs tree leafIndex).flatten

/-- The public value of the forest at an address. -/
def publicValue (H : TweakableHash) (p : Params) (skSeed : Bytes) (adrs : Address) : Bytes :=
  compress H adrs ((List.range p.k.toNat).map (rootOf H p skSeed adrs))

/-- What a segment for a leaf of a tree climbs to. -/
def climbed (H : TweakableHash) (p : Params) (adrs : Address) (tree leafIndex : Nat)
    (segment : Bytes) : Bytes :=
  MerkleTree.ascent H adrs (firstLeaf p tree) leafIndex 0
    (H.f (adrs.setLast 0 (UInt32.ofNat (firstLeaf p tree + leafIndex))) (segment.take p.n.toNat))
    (Bytes.blocks p.n.toNat p.a.toNat (segment.drop p.n.toNat))

theorem secret_congr (alike : adrs.Alike adrs') (skSeed : Bytes) (index : UInt32) :
    secret H skSeed adrs index = secret H skSeed adrs' index := by
  rw [secret, secret, secretAddress, secretAddress, alike.setType, alike.keyPair]

theorem leafOf_congr (alike : adrs.Alike adrs') (skSeed : Bytes) :
    leafOf H skSeed adrs = leafOf H skSeed adrs' := by
  funext index
  rw [leafOf, leafOf, alike.setLast, secret_congr alike]

theorem rootOf_congr (alike : adrs.Alike adrs') (skSeed : Bytes) :
    rootOf H p skSeed adrs = rootOf H p skSeed adrs' := by
  funext tree
  rw [rootOf, rootOf, treeNode, treeNode, leafOf_congr alike, MerkleTree.node_congr alike]

theorem segmentOf_congr (alike : adrs.Alike adrs') (skSeed : Bytes) (tree leafIndex : Nat) :
    segmentOf H p skSeed adrs tree leafIndex = segmentOf H p skSeed adrs' tree leafIndex := by
  rw [segmentOf, segmentOf, pathOf, pathOf, secret_congr alike, leafOf_congr alike,
    MerkleTree.pathFrom_congr alike]

theorem climbed_congr (alike : adrs.Alike adrs') (tree leafIndex : Nat) (segment : Bytes) :
    climbed H p adrs tree leafIndex segment = climbed H p adrs' tree leafIndex segment := by
  rw [climbed, climbed, alike.setLast, MerkleTree.ascent_congr alike]

theorem compress_congr (alike : adrs.Alike adrs') (roots : List Bytes) :
    compress H adrs roots = compress H adrs' roots := by
  rw [compress, compress, alike.setType, alike.keyPair]

theorem length_leafOf (skSeed : Bytes) (adrs : Address) (index : Nat) :
    (leafOf H skSeed adrs index).length = H.n :=
  H.length_f_of_length_eq _ (H.length_prf _ _)

theorem length_of_mem_pathOf {skSeed : Bytes} {tree leafIndex : Nat} {block : Bytes}
    (member : block ∈ pathOf H p skSeed adrs tree leafIndex) : block.length = H.n :=
  MerkleTree.length_of_mem_pathFrom (fun _ => length_leafOf _ _ _) member

theorem length_segmentOf (width : H.n = p.n.toNat) (skSeed : Bytes) (adrs : Address)
    (tree leafIndex : Nat) :
    (segmentOf H p skSeed adrs tree leafIndex).length = (p.a.toNat + 1) * p.n.toNat := by
  rw [segmentOf, List.length_append, pathOf,
    MerkleTree.length_flatten_pathFrom fun _ => length_leafOf _ _ _, secret, H.length_prf, width,
    Nat.succ_mul, Nat.add_comm]

/-- The segment of a leaf climbs to the root of its tree. -/
theorem climbed_segmentOf (width : H.n = p.n.toNat) (skSeed : Bytes) (adrs : Address) (tree : Nat)
    {leafIndex : Nat} (inside : leafIndex < 2 ^ p.a.toNat) :
    climbed H p adrs tree leafIndex (segmentOf H p skSeed adrs tree leafIndex) =
      rootOf H p skSeed adrs tree := by
  have secret_length :
      (secret H skSeed adrs (UInt32.ofNat (firstLeaf p tree + leafIndex))).length = p.n.toNat :=
    (H.length_prf _ _).trans width
  have blocks : Bytes.blocks p.n.toNat p.a.toNat (pathOf H p skSeed adrs tree leafIndex).flatten =
      pathOf H p skSeed adrs tree leafIndex := by
    rw [← width]
    exact MerkleTree.blocks_pathFrom (fun _ => length_leafOf _ _ _) _ _ _
  rw [climbed, segmentOf, List.take_left' secret_length, List.drop_left' secret_length, blocks]
  exact MerkleTree.ascent_path adrs (fun i => leafOf H skSeed adrs (firstLeaf p tree + i))
    (Nat.dvd_mul_left _ _) inside

/-! ## Selected leaves -/

/-- The leaf that a digest selects in each tree. -/
def selected (p : Params) (digest : Bytes) : List UInt32 :=
  (List.range p.k.toNat).map fun i =>
    UInt32.ofNat (Bytes.field digest (i * p.a.toNat) p.a.toNat)

@[simp] theorem length_selected (p : Params) (digest : Bytes) :
    (selected p digest).length = p.k.toNat := by simp [selected]

theorem indices_eq (sound : p.Sound) (digest : Bytes) :
    indices p digest = .ok (selected p digest) := by
  have := sound.forest_le; have := sound.trees_le
  rw [indices, Nat.mod_eq_of_lt (show p.a.toNat < 2 ^ 32 by omega),
    base2b_eq digest (by omega) (by rw [digitWidth, maxBuffer]; omega), selected]

theorem lt_of_mem_selected (sound : p.Sound) {digest : Bytes} {index : UInt32}
    (member : index ∈ selected p digest) : index.toNat < 2 ^ p.a.toNat := by
  obtain ⟨i, -, rfl⟩ := List.mem_map.1 member
  have narrow := sound.forest_le
  rw [Bytes.toNat_ofNat_field _ _ (by omega)]
  exact Bytes.field_lt _ _ _

/-- Every tree of the forest fits the common numbering. -/
theorem firstLeaf_add_le (sound : p.Sound) {tree : Nat} (inside : tree < p.k.toNat) :
    firstLeaf p tree + 2 ^ p.a.toNat ≤ 2 ^ 32 := by
  rw [firstLeaf, ← Nat.succ_mul]
  exact Nat.le_trans (Nat.mul_le_mul_right _ inside) sound.leaves

theorem treeOffset_eq (sound : p.Sound) {tree : Nat} (inside : tree < p.k.toNat) :
    ∃ offset, treeOffset p tree = .ok offset ∧ offset.toNat = firstLeaf p tree := by
  have le := firstLeaf_add_le sound inside
  have pos := Nat.two_pow_pos p.a.toNat
  have few := sound.trees_le
  have small : (UInt32.ofNat tree).toNat = tree := by
    rw [UInt32.toNat_ofNat', Nat.mod_eq_of_lt (by omega)]
  rw [firstLeaf] at le
  obtain ⟨offset, shifted, offset_eq⟩ := shl32_eq (UInt32.ofNat tree)
    (show p.a.toNat < 32 by have := sound.forest_le; omega) (by rw [small]; omega)
  exact ⟨offset, shifted, by rw [offset_eq, small, firstLeaf]⟩

/-- The common number of a leaf of a tree. -/
theorem add32_firstLeaf (sound : p.Sound) {tree : Nat} (inside : tree < p.k.toNat)
    {offset index : UInt32} (offset_eq : offset.toNat = firstLeaf p tree)
    (lt : index.toNat < 2 ^ p.a.toNat) :
    add32 offset index = .ok (UInt32.ofNat (firstLeaf p tree + index.toNat)) := by
  have ends := firstLeaf_add_le sound inside
  rw [add32_of_lt (by omega), UInt32.ofNat_add, ← offset_eq, UInt32.ofNat_toNat,
    UInt32.ofNat_toNat]

theorem toNat_ofNat_leaf (sound : p.Sound) {i : Nat} (lt : i < 2 ^ p.a.toNat) :
    (UInt32.ofNat i).toNat = i := by
  have power : 2 ^ p.a.toNat ≤ 2 ^ 24 := Nat.pow_le_pow_right (by decide) sound.forest_le
  rw [UInt32.toNat_ofNat', Nat.mod_eq_of_lt (by omega)]

/-! ## Lengths -/

theorem checkLength_of (sound : p.Sound) {length : Nat}
    (full : length = p.k.toNat * ((p.a.toNat + 1) * p.n.toNat)) : checkLength p length = .ok () := by
  rw [checkLength, sound.forestSize_eq, ok_bind, if_pos full, pure_eq_ok]

theorem checkLength_of_ne (sound : p.Sound) {length : Nat}
    (other : length ≠ p.k.toNat * ((p.a.toNat + 1) * p.n.toNat)) :
    checkLength p length = refuse (.invalidLength "FORS signature"
      (p.k.toNat * ((p.a.toNat + 1) * p.n.toNat)) length) := by
  rw [checkLength, sound.forestSize_eq, ok_bind, if_neg other]

/-! ## Signing -/

theorem leaf_eq (sound : p.Sound) (skSeed : Bytes) (adrs : Address) {tree : Nat}
    (inside : tree < p.k.toNat) {offset : UInt32} (offset_eq : offset.toNat = firstLeaf p tree)
    {i : Nat} (lt : i < 2 ^ p.a.toNat) :
    leaf H skSeed adrs offset (UInt32.ofNat i) =
      .ok (leafOf H skSeed adrs (firstLeaf p tree + i)) := by
  have small := toNat_ofNat_leaf sound lt
  rw [leaf, add32_firstLeaf sound inside offset_eq (by rwa [small]), ok_bind, pure_eq_ok, small]
  rfl

/-- A tree is built in place for every leaf. -/
theorem buildTree_eq (sound : p.Sound) (width : H.n = p.n.toNat) (skSeed : Bytes) (adrs : Address)
    {tree : Nat} (inside : tree < p.k.toNat) {leafIndex : UInt32}
    (leaf_lt : leafIndex.toNat < 2 ^ p.a.toNat) (room : Option Nat)
    (asked : ∀ length, room = some length → length = p.a.toNat * p.n.toNat) :
    ∃ left, buildTree H p skSeed adrs tree leafIndex room =
      .ok ⟨rootOf H p skSeed adrs tree, if room.isSome then
        (pathOf H p skSeed adrs tree leafIndex.toNat).flatten else [], left⟩ ∧ left.Alike adrs := by
  obtain ⟨offset, shifted, offset_eq⟩ := treeOffset_eq sound inside
  have ends := firstLeaf_add_le sound inside
  obtain ⟨left, built, alike⟩ := MerkleTree.build_eq (H := H) offset leafIndex room
    (show p.a.toNat ≤ 31 by have := sound.forest_le; omega) leaf_lt (by rw [offset_eq]; exact ends)
    (by rw [width]; exact sound.n_pos) (by rw [width]; exact sound.n_le)
    (fun length some => by rw [width]; exact asked length some)
    (fun i lt => leaf_eq (H := H) sound skSeed adrs inside offset_eq lt) adrs
  refine ⟨left, ?_, alike⟩
  rw [buildTree, shifted, ok_bind, built, offset_eq]
  rfl

theorem rootsFrom_eq (sound : p.Sound) (width : H.n = p.n.toNat) (skSeed : Bytes) (more tree : Nat)
    (inside : tree + more ≤ p.k.toNat) (adrs : Address) :
    ∃ left, rootsFrom H p skSeed more tree adrs =
      .ok ((List.range' tree more).map (rootOf H p skSeed adrs), left) ∧ left.Alike adrs := by
  induction more generalizing tree adrs with
  | zero => exact ⟨adrs, rfl, rfl⟩
  | succ more ih =>
      obtain ⟨between, built, alike⟩ := buildTree_eq (H := H) sound width skSeed adrs
        (show tree < p.k.toNat by omega) (show (0 : UInt32).toNat < 2 ^ p.a.toNat from
          Nat.two_pow_pos _) none (by simp)
      obtain ⟨left, others, alike'⟩ := ih (tree + 1) (by omega) between
      refine ⟨left, ?_, alike'.trans alike⟩
      rw [rootsFrom, built, ok_bind]
      simp only []
      rw [others, ok_bind, pure_eq_ok, rootOf_congr alike, List.range'_succ, List.map_cons]

/-- Key generation returns the public value of the forest. -/
theorem publicKey_eq (sound : p.Sound) (width : H.n = p.n.toNat) (skSeed : Bytes)
    (adrs : Address) :
    ∃ left, publicKey H p skSeed adrs = .ok (publicValue H p skSeed adrs, left) ∧
      left.Alike adrs := by
  have roots := Nat.mul_le_mul sound.trees_le sound.n_le
  obtain ⟨left, made, alike⟩ := rootsFrom_eq (H := H) sound width skSeed p.k.toNat 0 (by omega) adrs
  refine ⟨left, ?_, alike⟩
  rw [publicKey, buffer_of_le (by rw [maxBuffer]; omega), ok_bind,
    ensure_of sound.n_pos64, ok_bind, made, ok_bind,
    ← List.range_eq_range']
  simp only [pure_eq_ok, compress_congr alike]
  rfl

theorem signFrom_eq (sound : p.Sound) (width : H.n = p.n.toNat) (skSeed : Bytes)
    (indices : List UInt32) (tree : Nat) (inside : tree + indices.length ≤ p.k.toNat)
    (leaves_lt : ∀ index ∈ indices, index.toNat < 2 ^ p.a.toNat) (adrs : Address) :
    ∃ left, signFrom H p skSeed (p.a.toNat * p.n.toNat) tree adrs indices =
      .ok ((indices.zipIdx tree).map fun (index, j) => segmentOf H p skSeed adrs j index.toNat,
        (List.range' tree indices.length).map (rootOf H p skSeed adrs), left) ∧
        left.Alike adrs := by
  induction indices generalizing tree adrs with
  | nil => exact ⟨adrs, rfl, rfl⟩
  | cons index rest ih =>
      rw [List.length_cons] at inside
      obtain ⟨leaf_lt, leaves_lt⟩ := List.forall_mem_cons.1 leaves_lt
      obtain ⟨offset, shifted, offset_eq⟩ := treeOffset_eq sound (show tree < p.k.toNat by omega)
      obtain ⟨between, built, alike⟩ := buildTree_eq (H := H) sound width skSeed adrs
        (show tree < p.k.toNat by omega) leaf_lt (some (p.a.toNat * p.n.toNat))
        (fun length some => (Option.some.inj some).symm)
      obtain ⟨left, signed, alike'⟩ := ih (tree + 1) (by omega) leaves_lt between
      refine ⟨left, ?_, alike'.trans alike⟩
      rw [signFrom, shifted, ok_bind,
        add32_firstLeaf sound (show tree < p.k.toNat by omega) offset_eq leaf_lt, ok_bind, built,
        ok_bind]
      simp only []
      rw [signed, ok_bind]
      simp only [segmentOf_congr alike, rootOf_congr alike, List.zipIdx_cons, List.map_cons,
        List.length_cons, List.range'_succ, pure_eq_ok, Option.isSome_some, if_true]
      rfl

/-- The segments of a signature of a digest. -/
def segmentsOf (H : TweakableHash) (p : Params) (skSeed : Bytes) (adrs : Address)
    (digest : Bytes) : List Bytes :=
  (selected p digest).zipIdx.map fun (index, j) => segmentOf H p skSeed adrs j index.toNat

@[simp] theorem length_segmentsOf (skSeed : Bytes) (adrs : Address) (digest : Bytes) :
    (segmentsOf H p skSeed adrs digest).length = p.k.toNat := by simp [segmentsOf]

theorem length_of_mem_segmentsOf (width : H.n = p.n.toNat) {skSeed digest segment : Bytes}
    (member : segment ∈ segmentsOf H p skSeed adrs digest) :
    segment.length = (p.a.toNat + 1) * p.n.toNat := by
  obtain ⟨_, -, rfl⟩ := List.mem_map.1 member
  exact length_segmentOf width _ _ _ _

theorem length_flatten_segmentsOf (width : H.n = p.n.toNat) (skSeed : Bytes) (adrs : Address)
    (digest : Bytes) :
    (segmentsOf H p skSeed adrs digest).flatten.length =
      p.k.toNat * ((p.a.toNat + 1) * p.n.toNat) := by
  rw [Bytes.length_flatten_of fun segment => length_of_mem_segmentsOf width, length_segmentsOf]

/-- A signature is cut into its segments. -/
theorem blocks_segmentsOf (width : H.n = p.n.toNat) (skSeed : Bytes) (adrs : Address)
    (digest : Bytes) :
    Bytes.blocks ((p.a.toNat + 1) * p.n.toNat) p.k.toNat
        (segmentsOf H p skSeed adrs digest).flatten = segmentsOf H p skSeed adrs digest :=
  Bytes.blocks_flatten (length_segmentsOf _ _ _) fun _ => length_of_mem_segmentsOf width

/-- The segment of a tree reveals the leaf that the tree's field of the digest says. -/
theorem getElem?_segmentsOf (sound : p.Sound) (skSeed : Bytes) (adrs : Address) (digest : Bytes)
    {tree : Nat} (inside : tree < p.k.toNat) :
    (segmentsOf H p skSeed adrs digest)[tree]? = some (segmentOf H p skSeed adrs tree
      (Bytes.field digest (tree * p.a.toNat) p.a.toNat)) := by
  have index := toNat_ofNat_leaf sound (Bytes.field_lt digest (tree * p.a.toNat) p.a.toNat)
  simp [segmentsOf, selected, inside, index]

/-- Signing a digest reveals the selected leaves, and gives the public value of the forest. -/
theorem sign_eq (sound : p.Sound) (width : H.n = p.n.toNat) (digest skSeed : Bytes)
    (adrs : Address) :
    ∃ left, sign H p digest skSeed adrs (p.k.toNat * ((p.a.toNat + 1) * p.n.toNat)) =
      .ok ⟨(segmentsOf H p skSeed adrs digest).flatten, publicValue H p skSeed adrs, left⟩ ∧
        left.Alike adrs := by
  obtain ⟨left, signed, alike⟩ := signFrom_eq (H := H) sound width skSeed
    (selected p digest) 0 (by simp)
    (fun index member => lt_of_mem_selected sound member) adrs
  have roots := Nat.mul_le_mul sound.trees_le sound.n_le
  have total := sound.forestSize_le
  have path_room : (p.a.toNat + 1) * p.n.toNat - p.n.toNat = p.a.toNat * p.n.toNat := by
    rw [Nat.succ_mul, Nat.add_sub_cancel]
  refine ⟨left, ?_, alike⟩
  rw [sign, buffer_of_le (by rw [maxBuffer]; omega), ok_bind, checkLength_of sound rfl, ok_bind,
    indices_eq sound, ok_bind, buffer_of_le (by rw [maxBuffer]; omega), ok_bind,
    sound.segmentSize_eq, ok_bind, ensure_of sound.n_pos64, ok_bind,
    less_of_le (by rw [Nat.succ_mul]; omega), ok_bind, path_room, signed, ok_bind]
  simp only [pure_eq_ok, length_selected, ← List.range_eq_range', compress_congr alike]
  rfl

/-- No signature of another length is made. -/
theorem sign_of_ne (sound : p.Sound) (digest skSeed : Bytes) (adrs : Address) {room : Nat}
    (fits : room ≤ maxBuffer) (other : room ≠ p.k.toNat * ((p.a.toNat + 1) * p.n.toNat)) :
    sign H p digest skSeed adrs room = refuse (.invalidLength "FORS signature"
      (p.k.toNat * ((p.a.toNat + 1) * p.n.toNat)) room) := by
  rw [sign, buffer_of_le fits, ok_bind, checkLength_of_ne sound other, refuse_bind]

/-! ## Verifying -/

/-- What the segments of a signature climb to, tree by tree. -/
def climbedRoots (H : TweakableHash) (p : Params) (adrs : Address)
    (tree : Nat) (segments : List (Bytes × UInt32)) : List Bytes :=
  (segments.zipIdx tree).map fun ((segment, index), j) => climbed H p adrs j index.toNat segment

/-- The tree of a segment of the right length has a root. -/
theorem climbed_eq (sound : p.Sound) (width : H.n = p.n.toNat) (adrs : Address) {tree : Nat}
    (inside : tree < p.k.toNat) {offset index : UInt32} (offset_eq : offset.toNat = firstLeaf p tree)
    (leaf_lt : index.toNat < 2 ^ p.a.toNat) {segment : Bytes}
    (length : segment.length = (p.a.toNat + 1) * p.n.toNat) :
    ∃ left, MerkleTree.rootOf H (adrs.setLast 0 (UInt32.ofNat (firstLeaf p tree + index.toNat)))
        p.a.toNat offset index
        (H.f (adrs.setLast 0 (UInt32.ofNat (firstLeaf p tree + index.toNat)))
          (segment.take p.n.toNat)) (segment.drop p.n.toNat) =
      .ok (climbed H p adrs tree index.toNat segment, left) ∧ left.Alike adrs := by
  have ends := firstLeaf_add_le sound inside
  rw [Nat.succ_mul] at length
  have revealed : (segment.take p.n.toNat).length = H.n := by
    rw [List.length_take, width]; omega
  generalize leaf_eq : adrs.setLast 0 (UInt32.ofNat (firstLeaf p tree + index.toNat)) = leafAdrs
  obtain ⟨left, reached, alike⟩ := MerkleTree.rootOf_eq (H := H) offset index
    (H.f leafAdrs (segment.take p.n.toNat)) (segment.drop p.n.toNat)
    (show p.a.toNat ≤ 31 by have := sound.forest_le; omega) leaf_lt
    (by rw [offset_eq]; exact ends) (by rw [width]; exact sound.n_pos)
    (by rw [width]; exact sound.n_le) (H.length_f_of_length_eq _ revealed)
    (by rw [List.length_drop, width]; omega) leafAdrs
  have same : leafAdrs.Alike adrs := leaf_eq ▸ Address.alike_setLast _ _ _
  refine ⟨left, ?_, alike.trans same⟩
  rw [reached, climbed, MerkleTree.ascent_congr same, leaf_eq, offset_eq, width]

theorem rootsOf_eq (sound : p.Sound) (width : H.n = p.n.toNat)
    (segments : List (Bytes × UInt32)) (tree : Nat) (inside : tree + segments.length ≤ p.k.toNat)
    (full : ∀ pair ∈ segments, pair.1.length = (p.a.toNat + 1) * p.n.toNat)
    (leaves_lt : ∀ pair ∈ segments, pair.2.toNat < 2 ^ p.a.toNat) (adrs : Address) :
    ∃ left, rootsOf H p tree adrs segments = .ok (climbedRoots H p adrs tree segments, left) ∧
      left.Alike adrs := by
  induction segments generalizing tree adrs with
  | nil => exact ⟨adrs, rfl, rfl⟩
  | cons pair rest ih =>
      obtain ⟨segment, index⟩ := pair
      rw [List.length_cons] at inside
      have here : tree < p.k.toNat := by omega
      obtain ⟨length, full⟩ := List.forall_mem_cons.1 full
      obtain ⟨leaf_lt, leaves_lt⟩ := List.forall_mem_cons.1 leaves_lt
      simp only [] at length leaf_lt
      have reaches : p.n.toNat ≤ segment.length :=
        length ▸ Nat.le_mul_of_pos_left _ (Nat.succ_pos p.a.toNat)
      obtain ⟨offset, shifted, offset_eq⟩ := treeOffset_eq sound here
      obtain ⟨between, reached, alike⟩ :=
        climbed_eq (H := H) sound width adrs here offset_eq leaf_lt length
      obtain ⟨left, others, alike'⟩ := ih (tree + 1) (by omega) full leaves_lt between
      refine ⟨left, ?_, alike'.trans alike⟩
      rw [rootsOf, shifted, ok_bind, cut_of_le reaches, ok_bind]
      simp only []
      rw [add32_firstLeaf sound here offset_eq leaf_lt, ok_bind, leafAddress,
        Address.setTreeHeight_setTreeIndex, reached, ok_bind]
      simp only []
      rw [others, ok_bind, pure_eq_ok]
      simp only [climbedRoots, List.zipIdx_cons, List.map_cons, climbed_congr alike]

/-- Verifying compresses what the segments climb to. -/
theorem publicKeyOf_eq (sound : p.Sound) (width : H.n = p.n.toNat) (signature : Bytes)
    (length : signature.length = p.k.toNat * ((p.a.toNat + 1) * p.n.toNat)) (digest : Bytes)
    (adrs : Address) :
    ∃ left, publicKeyOf H p signature digest adrs = .ok (compress H adrs
      (climbedRoots H p adrs 0 ((Bytes.blocks ((p.a.toNat + 1) * p.n.toNat) p.k.toNat signature).zip
        (selected p digest))), left) ∧ left.Alike adrs := by
  obtain ⟨left, reached, alike⟩ := rootsOf_eq (H := H) sound width
    ((Bytes.blocks ((p.a.toNat + 1) * p.n.toNat) p.k.toNat signature).zip
      (selected p digest)) 0 (by simp)
    (fun pair member => Bytes.length_of_mem_blocks (Nat.le_of_eq length.symm)
      (List.of_mem_zip member).1)
    (fun pair member => lt_of_mem_selected sound (List.of_mem_zip member).2) adrs
  have roots := Nat.mul_le_mul sound.trees_le sound.n_le
  refine ⟨left, ?_, alike⟩
  rw [publicKeyOf, checkLength_of sound length, ok_bind, indices_eq sound, ok_bind,
    buffer_of_le (by rw [maxBuffer]; omega), ok_bind, sound.segmentSize_eq, ok_bind,
    ensure_of sound.n_pos64, ok_bind]
  simp only []
  rw [reached, ok_bind, compress_congr alike.symm]
  rfl

/-- A signature of another length has no public value. -/
theorem publicKeyOf_of_ne (sound : p.Sound) {signature : Bytes} (digest : Bytes) (adrs : Address)
    (other : signature.length ≠ p.k.toNat * ((p.a.toNat + 1) * p.n.toNat)) :
    publicKeyOf H p signature digest adrs = refuse (.invalidLength "FORS signature"
      (p.k.toNat * ((p.a.toNat + 1) * p.n.toNat)) signature.length) := by
  rw [publicKeyOf, checkLength_of_ne sound other, refuse_bind]

/-- The segments of a digest climb to the roots of all trees. -/
theorem climbedRoots_segmentsOf (sound : p.Sound) (width : H.n = p.n.toNat) (skSeed digest : Bytes)
    (adrs : Address) :
    climbedRoots H p adrs 0 ((segmentsOf H p skSeed adrs digest).zip (selected p digest)) =
      (List.range p.k.toNat).map (rootOf H p skSeed adrs) := by
  apply List.ext_getElem?
  intro j
  by_cases inside : j < p.k.toNat
  · obtain ⟨index, index_eq⟩ : ∃ index, (selected p digest)[j]? = some index :=
      ⟨_, List.getElem?_eq_getElem (by simpa using inside)⟩
    have leaf_lt := lt_of_mem_selected sound (List.mem_of_getElem? index_eq)
    have segment_eq : (segmentsOf H p skSeed adrs digest)[j]? =
        some (segmentOf H p skSeed adrs j index.toNat) := by simp [segmentsOf, index_eq]
    have pair : ((segmentsOf H p skSeed adrs digest).zip (selected p digest))[j]? =
        some (segmentOf H p skSeed adrs j index.toNat, index) :=
      List.getElem?_zip_eq_some.2 ⟨segment_eq, index_eq⟩
    rw [climbedRoots, List.getElem?_map, List.getElem?_zipIdx, pair, List.getElem?_map,
      List.getElem?_range inside]
    simp only [Option.map_some, Nat.zero_add, climbed_segmentOf width skSeed adrs j leaf_lt]
  · simp [climbedRoots, inside]

end HashSignature.Forest
