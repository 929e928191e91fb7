/-
# HashSignature.Proofs.Tamper — a second signature needs a collision

Verification is a program, and its calls are those of the values that it recomputes. So two accepted
signatures of one message under one randomizer that differ anywhere behind it contain, among the calls
of their two verifications, a collision of one of the hash functions, or the second undercuts the
first on some layer.

* `calls_verifyProgram` — the calls of a verification are `bodyCalls`.
* `tampering_needs_collision` — the reduction, for all hash functions and for those of an instance.
-/
import HashSignature.Proofs.Collision

namespace HashSignature

set_option autoImplicit false

open Outcome HashProgram

variable {H : TweakableHash} {adrs adrs' : Address} {p : Params}

/-! ## One-time signatures -/

namespace OneTime

open Winternitz

theorem walkCalls_toEnd {blocks : List Bytes} {digits : List UInt32}
    (small : ∀ digit ∈ digits, digit.toNat ≤ 15) (adrs : Address) :
    walkCalls H adrs 0 ((blocks.zip digits).map toEnd) = topsCalls H adrs blocks digits := by
  simp only [walkCalls, topsCalls, List.zipIdx_map, List.flatMap_def, List.map_map]
  congr 1
  apply List.map_congr_left
  rintro ⟨revealed, i⟩ member
  have inside := List.mem_of_getElem? (List.mem_zipIdx_iff_getElem?.1 member)
  have le := small revealed.2 (List.of_mem_zip inside).2
  simp only [Function.comp_apply, Prod.map_apply, id_eq, toEnd, toNat_maxDigit_sub le]

theorem answer_mapM_toEnd (blocks : List Bytes) {digits : List UInt32}
    (small : ∀ digit ∈ digits, digit.toNat ≤ 15) :
    ((blocks.zip digits).mapM (fun revealed => do
      return Stretch.mk revealed.1 revealed.2 (← sub32 maxDigit revealed.2)) :
      HashProgram (List Stretch)).answer H = .ok ((blocks.zip digits).map toEnd) := by
  simp only [answer_mapM, answer_bind, answer_lift]
  exact mapM_toEnd blocks small

theorem calls_mapM_toEnd (blocks : List Bytes) {digits : List UInt32}
    (small : ∀ digit ∈ digits, digit.toNat ≤ 15) :
    ((blocks.zip digits).mapM (fun revealed => do
      return Stretch.mk revealed.1 revealed.2 (← sub32 maxDigit revealed.2)) :
      HashProgram (List Stretch)).calls H = [] := by
  apply calls_mapM_eq_nil
  intro revealed inside
  exact calls_lift_bind (sub32_of_le (le_maxDigit (small revealed.2 (List.of_mem_zip inside).2)))

/-- A one-time verification makes the steps to the ends of the chains, and compresses the ends. -/
theorem calls_publicKeyOfProgram {count : Nat} (enough : Params.checksumDigits ≤ count)
    (few : count ≤ Params.maxChains) (pos : 0 < H.n) (le : H.n ≤ Params.maxDigest)
    (signature : Bytes) (long : count * H.n ≤ signature.length) (message : Bytes)
    (adrs : Address) :
    (publicKeyOfProgram H.n count signature message adrs).calls H =
      completionCalls H adrs (Bytes.blocks H.n count signature) (signedDigits count message) := by
  have small (digit : UInt32) (member : digit ∈ signedDigits count message) :=
    le_of_mem_signedDigits few member
  have full (block : Bytes) (member : block ∈ Bytes.blocks H.n count signature) :
      block.length = H.n := Bytes.length_of_mem_blocks long member
  obtain ⟨left, walked, alike⟩ := walkAll_toEnd (H := H) full small adrs
  have room : (ensureRoomProgram H.n count).answer H = .ok () := by
    rw [ensureRoomProgram, answer_bind, answer_lift, ensure_of (Nat.mul_le_mul few le), ok_bind,
      answer_lift, ensure_of pos]
  have room_calls : (ensureRoomProgram H.n count).calls H = [] :=
    calls_lift_bind (ensure_of (Nat.mul_le_mul few le))
  rw [publicKeyOfProgram, calls_lift_bind (digits_eq enough few message), calls_bind room,
    room_calls, List.nil_append, calls_lift_bind (cut_of_le long)]
  simp only [Bytes.blocks_take]
  have listed := answer_mapM_toEnd (H := H) (Bytes.blocks H.n count signature) small
  have no_calls := calls_mapM_toEnd (H := H) (Bytes.blocks H.n count signature) small
  have answered := (answer_walkAllProgram (H := H)
    (fun _ member => (walkable_of_mem_toEnd full small member).2) 0 adrs).trans walked
  have walk_calls := calls_walkAllProgram _ 0 (fun _ => walkable_of_mem_toEnd full small) adrs
  rw [calls_bind listed, no_calls, List.nil_append, calls_bind answered, compressProgram,
    calls_ask_bind]
  rw [show (0 : UInt32) = UInt32.ofNat 0 from rfl, walk_calls, walkCalls_toEnd small, alike.setType,
    alike.keyPair]
  rfl

/-! A block that leads up to another one: the steps between them as a run of the chain, and the
last of them as a preimage. -/

section Leads

variable {index digit digit' : UInt32} {block block' : Bytes} (lower : digit' < digit)
  (le : digit.toNat ≤ 15)
  (leads : chainValue H adrs index (digit.toNat - digit'.toNat) digit'.toNat block' = block)

include lower le leads

theorem chain_of_leads (length : block'.length = H.n) :
    ∃ left, chain H (adrs.setChain index) block' digit' (digit - digit') = .ok (block, left) := by
  have steps : (digit - digit').toNat = digit.toNat - digit'.toNat :=
    UInt32.toNat_sub_of_le _ _ (UInt32.le_of_lt lower)
  have few : digit'.toNat + (digit - digit').toNat < 2 ^ 32 := by
    have := UInt32.lt_iff_toNat_lt.1 lower
    omega
  obtain ⟨left, walked, -⟩ := chain_eq (H := H) few length adrs index
  rw [steps, leads] at walked
  exact ⟨left, walked⟩

theorem preimage_of_leads :
    ∃ stepAdrs preimage,
      HashCall.f stepAdrs preimage ∈
          chainCalls H adrs index (15 - digit'.toNat) digit'.toNat block' ∧
        H.f stepAdrs preimage = block := by
  have some_step := UInt32.lt_iff_toNat_lt.1 lower
  obtain ⟨stepAdrs, preimage, member, takes⟩ := preimage_mem_chainCalls (H := H) adrs index
    (show 0 < digit.toNat - digit'.toNat by omega)
    (show digit.toNat - digit'.toNat ≤ 15 - digit'.toNat by omega) digit'.toNat block'
  exact ⟨stepAdrs, preimage, member, takes.trans leads⟩

end Leads

end OneTime

/-! ## Paths -/

namespace MerkleTree

theorem calls_followProgram {offset leafIndex globalIndex : UInt32}
    (global : globalIndex.toNat = offset.toNat + leafIndex.toNat) (path : List Bytes) (level : Nat)
    (low : level + path.length ≤ 31) (node : Bytes) (adrs : Address) :
    (followProgram leafIndex globalIndex level adrs node path).calls H =
      ascentCalls H adrs offset.toNat leafIndex.toNat level node path := by
  induction path generalizing level node adrs with
  | nil => rfl
  | cons beside path ih =>
      rw [List.length_cons] at low
      obtain ⟨index, shifted, index_eq⟩ := shr32_eq globalIndex (show level + 1 < 32 by omega)
      obtain ⟨position, shifted', position_eq⟩ := shr32_eq leafIndex (show level < 32 by omega)
      have index_word : index = UInt32.ofNat ((offset.toNat + leafIndex.toNat) / 2 ^ (level + 1)) := by
        rw [← global, ← index_eq, UInt32.ofNat_toNat]
      have turn := even_position position_eq
      rw [followProgram, calls_lift_bind shifted, Address.setTreeHeight_setTreeIndex]
      simp only []
      rw [calls_lift_bind shifted', calls_ask_bind, ih (level + 1) (by omega),
        ascentCalls_congr (Address.alike_setLast _ _ _), ascentCalls, ascentCall]
      simp only [turn, index_word]

theorem calls_rootOfProgram {height : Nat} (offset leafIndex : UInt32) (leaf path : Bytes)
    (low : height ≤ 31) (inside : leafIndex.toNat < 2 ^ height)
    (ends : offset.toNat + 2 ^ height ≤ 2 ^ 32) (pos : 0 < H.n) (small : H.n ≤ 32)
    (length : leaf.length = H.n) (path_length : path.length = height * H.n) (adrs : Address) :
    (rootOfProgram H.n adrs height offset leafIndex leaf path).calls H =
      ascentCalls H adrs offset.toNat leafIndex.toNat 0 leaf (Bytes.blocks H.n height path) := by
  have width : height * H.n ≤ 31 * 32 := Nat.mul_le_mul low small
  have sum : (offset + leafIndex).toNat = offset.toNat + leafIndex.toNat := by
    rw [UInt32.toNat_add, Nat.mod_eq_of_lt (by omega)]
  rw [rootOfProgram, calls_lift_bind (checkBounds_of low inside ends),
    calls_lift_bind (checkPath_of (by omega) path_length), calls_lift_bind (ensure_of pos),
    calls_lift_bind (exactly_of_eq length), calls_lift_bind (add32_of_lt (by omega))]
  exact calls_followProgram sum _ 0 (by rw [Bytes.length_blocks]; omega) leaf adrs

end MerkleTree

/-! ## Layers -/

namespace Layer

theorem calls_rootOfProgram (sound : p.Sound) (width : H.n = p.n.toNat) {index : UInt32}
    (inside : index.toNat < 2 ^ p.hp.toNat) {segment : Bytes}
    (length : segment.length = (p.len.toNat + p.hp.toNat) * p.n.toNat) (message : Bytes)
    (adrs : Address) :
    (rootOfProgram H.n p index segment message adrs).calls H =
      climbedCalls H p adrs index segment message := by
  have low := sound.layer_le
  have power : 2 ^ p.hp.toNat ≤ 2 ^ 20 := Nat.pow_le_pow_right (by decide) low
  rw [Nat.add_mul] at length
  obtain ⟨between, made, alike⟩ := completed_eq (H := H) sound width index
    (show p.len.toNat * p.n.toNat ≤ segment.length by omega) message adrs
  have answered := (OneTime.answer_publicKeyOfProgram (H := H) p.len.toNat
    (segment.take (p.len.toNat * p.n.toNat)) message (keyAddress adrs index)).trans made
  have front := OneTime.calls_publicKeyOfProgram (H := H) (enough_chains sound) sound.chains_le
    (by rw [width]; exact sound.n_pos) (by rw [width]; exact sound.n_le)
    (segment.take (p.len.toNat * p.n.toNat)) (by rw [width, List.length_take]; omega) message
    (keyAddress adrs index)
  have back := MerkleTree.calls_rootOfProgram (H := H) 0 index
    (completed H p adrs index segment message) (segment.drop (p.len.toNat * p.n.toNat))
    (show p.hp.toNat ≤ 31 by omega) inside (by rw [UInt32.toNat_zero]; omega)
    (by rw [width]; exact sound.n_pos) (by rw [width]; exact sound.n_le) (H.length_t _ _)
    (by rw [List.length_drop, width]; omega) (adrs.setType .tree)
  rw [width, Bytes.blocks_take] at front
  rw [width] at back
  rw [rootOfProgram, calls_lift_bind sound.oneTimeSize_eq, calls_lift_bind (cut_of_le (by omega))]
  simp only []
  rw [calls_bind answered, width, front]
  simp only []
  rw [alike.setType, keyAddress_setType', back]
  rfl

end Layer

/-! ## The hypertree -/

namespace Hypertree

theorem calls_nodeFromProgram (sound : p.Sound) (width : H.n = p.n.toNat) (tree : UInt64)
    {leaf : UInt32} (inside : leaf.toNat < 2 ^ p.hp.toNat) {segments : List Bytes}
    (full : ∀ segment ∈ segments,
      segment.length = (p.len.toNat + p.hp.toNat) * p.n.toNat) (layer : Nat) (node : Bytes) :
    (nodeFromProgram H.n p layer (treeAt p tree (layer - 1)) (leafAt p tree leaf (layer - 1)) node
      segments).calls H = climbedCallsFrom H p tree leaf layer node segments := by
  induction segments generalizing layer node with
  | nil => rfl
  | cons segment rest ih =>
      obtain ⟨length, full⟩ := List.forall_mem_cons.1 full
      obtain ⟨left, reached⟩ := Layer.rootUnder_eq (H := H) sound width
        (leafAt_lt sound tree inside layer) length node (addressAt p tree layer)
      have answered := (Layer.answer_rootOfProgram (H := H) (leafAt p tree leaf layer) segment node
        (addressAt p tree layer)).trans reached
      rw [nodeFromProgram, calls_lift_bind (position_eq sound tree leaf layer)]
      simp only []
      rw [← addressAt, calls_bind answered, Layer.calls_rootOfProgram sound width
        (leafAt_lt sound tree inside layer) length, climbedCallsFrom]
      congr 1
      exact ih full (layer + 1) _

theorem calls_verifyProgram (sound : p.Sound) (width : H.n = p.n.toNat) (tree : UInt64)
    {leaf : UInt32} (inside : leaf.toNat < 2 ^ p.hp.toNat) (message signature : Bytes)
    (length : message.length = p.n.toNat)
    (full : signature.length = p.d.toNat * ((p.len.toNat + p.hp.toNat) * p.n.toNat))
    (root : Bytes) :
    (verifyProgram H.n p message signature tree leaf root).calls H =
      climbedCallsFrom H p tree leaf 0 message
        (Bytes.blocks ((p.len.toNat + p.hp.toNat) * p.n.toNat) p.d.toNat signature) := by
  have segment_full (segment : Bytes) (member : segment ∈ Bytes.blocks
      ((p.len.toNat + p.hp.toNat) * p.n.toNat) p.d.toNat signature) :=
    Bytes.length_of_mem_blocks (Nat.le_of_eq full.symm) member
  have calls := calls_nodeFromProgram sound width tree inside segment_full 0 message
  have reached := nodeFrom_eq (H := H) sound width tree inside segment_full 0 message
  rw [Nat.zero_sub, treeAt_zero] at calls reached
  have answered := (answer_nodeFromProgram (H := H) (p := p) 0 tree leaf message _).trans reached
  rw [verifyProgram, calls_lift_bind (checkLength_of sound full),
    calls_lift_bind (exactly_of_eq length), calls_lift_bind sound.layerSize_eq,
    calls_lift_bind (ensure_of sound.layerSize_pos), calls_bind_pure _ answered]
  exact calls

end Hypertree

/-! ## Forests -/

namespace Forest

theorem climbedRootsCalls_congr (alike : adrs.Alike adrs') (tree : Nat)
    (segments : List (Bytes × UInt32)) : climbedRootsCalls H p adrs tree segments =
      climbedRootsCalls H p adrs' tree segments := by
  simp only [climbedRootsCalls, climbedCalls, revealedCall, alike.setLast,
    MerkleTree.ascentCalls_congr alike]

/-- The calls above the leaf that a segment reveals. -/
theorem calls_climbed (sound : p.Sound) (width : H.n = p.n.toNat) (adrs : Address) {tree : Nat}
    (inside : tree < p.k.toNat) {offset index : UInt32} (offset_eq : offset.toNat = firstLeaf p tree)
    (leaf_lt : index.toNat < 2 ^ p.a.toNat) {segment : Bytes}
    (length : segment.length = (p.a.toNat + 1) * p.n.toNat) :
    revealedCall p adrs tree index.toNat segment ::
      (MerkleTree.rootOfProgram H.n
        (adrs.setLast 0 (UInt32.ofNat (firstLeaf p tree + index.toNat))) p.a.toNat offset index
        ((revealedCall p adrs tree index.toNat segment).reply H) (segment.drop p.n.toNat)).calls H =
      climbedCalls H p adrs tree index.toNat segment := by
  have ends := firstLeaf_add_le sound inside
  rw [Nat.succ_mul] at length
  have revealed : (segment.take p.n.toNat).length = H.n := by
    rw [List.length_take, width]; omega
  have calls := MerkleTree.calls_rootOfProgram (H := H) offset index
    ((revealedCall p adrs tree index.toNat segment).reply H) (segment.drop p.n.toNat)
    (show p.a.toNat ≤ 31 by have := sound.forest_le; omega) leaf_lt
    (by rw [offset_eq]; exact ends) (by rw [width]; exact sound.n_pos)
    (by rw [width]; exact sound.n_le) (H.length_f_of_length_eq _ revealed)
    (by rw [List.length_drop, width]; omega)
    (adrs.setLast 0 (UInt32.ofNat (firstLeaf p tree + index.toNat)))
  rw [calls, MerkleTree.ascentCalls_congr (Address.alike_setLast _ _ _), offset_eq, width]
  rfl

theorem calls_rootsOfProgram (sound : p.Sound) (width : H.n = p.n.toNat)
    (segments : List (Bytes × UInt32)) (tree : Nat) (inside : tree + segments.length ≤ p.k.toNat)
    (full : ∀ pair ∈ segments, pair.1.length = (p.a.toNat + 1) * p.n.toNat)
    (leaves_lt : ∀ pair ∈ segments, pair.2.toNat < 2 ^ p.a.toNat) (adrs : Address) :
    (rootsOfProgram H.n p tree adrs segments).calls H =
      climbedRootsCalls H p adrs tree segments := by
  induction segments generalizing tree adrs with
  | nil => rfl
  | cons pair rest ih =>
      obtain ⟨segment, index⟩ := pair
      rw [List.length_cons] at inside
      have here : tree < p.k.toNat := by omega
      obtain ⟨length, full⟩ := List.forall_mem_cons.1 full
      obtain ⟨leaf_lt, leaves_lt⟩ := List.forall_mem_cons.1 leaves_lt
      simp only [] at length leaf_lt
      have reaches : p.n.toNat ≤ segment.length :=
        length ▸ Nat.le_mul_of_pos_left _ (Nat.succ_pos p.a.toNat)
      obtain ⟨offset, shifted, offset_eq⟩ := treeOffset_eq sound here
      obtain ⟨between, reached, alike⟩ :=
        climbed_eq (H := H) sound width adrs here offset_eq leaf_lt length
      obtain ⟨left, others, -⟩ := rootsOf_eq (H := H) sound width rest (tree + 1) (by omega) full
        leaves_lt between
      have answered := (MerkleTree.answer_rootOfProgram (H := H) _ p.a.toNat offset index _
        _).trans reached
      have answered' := (answer_rootsOfProgram (H := H) (p := p) (tree + 1) between rest).trans others
      have path := calls_climbed (H := H) sound width adrs here offset_eq leaf_lt length
      rw [rootsOfProgram, calls_lift_bind shifted, calls_lift_bind (cut_of_le reaches)]
      simp only []
      rw [calls_lift_bind (add32_firstLeaf sound here offset_eq leaf_lt), leafAddress,
        Address.setTreeHeight_setTreeIndex, calls_ask_bind]
      refine Eq.trans (congrArg (List.cons _) ((calls_bind answered).trans (congrArg _ ?_)))
        (congrArg (· ++ climbedRootsCalls H p adrs (tree + 1) rest) path)
      have rest_calls := ih (tree + 1) (by omega) full leaves_lt between
      exact (calls_bind_pure _ answered').trans
        (rest_calls.trans (climbedRootsCalls_congr alike (tree + 1) rest))

theorem calls_publicKeyOfProgram (sound : p.Sound) (width : H.n = p.n.toNat) (signature : Bytes)
    (length : signature.length = p.k.toNat * ((p.a.toNat + 1) * p.n.toNat)) (digest : Bytes)
    (adrs : Address) :
    (publicKeyOfProgram H.n p signature digest adrs).calls H =
      climbedRootsCalls H p adrs 0 ((Bytes.blocks ((p.a.toNat + 1) * p.n.toNat) p.k.toNat
          signature).zip (selected p digest)) ++
        [.t ((adrs.setType .forsRoots).setKeyPair adrs.keyPair)
          (climbedRoots H p adrs 0 ((Bytes.blocks ((p.a.toNat + 1) * p.n.toNat) p.k.toNat
            signature).zip (selected p digest))).flatten] := by
  have roots := Nat.mul_le_mul sound.trees_le sound.n_le
  have full (pair : Bytes × UInt32) (member : pair ∈ (Bytes.blocks ((p.a.toNat + 1) * p.n.toNat)
      p.k.toNat signature).zip (selected p digest)) :=
    Bytes.length_of_mem_blocks (Nat.le_of_eq length.symm) (List.of_mem_zip member).1
  have leaves_lt (pair : Bytes × UInt32) (member : pair ∈ (Bytes.blocks
      ((p.a.toNat + 1) * p.n.toNat) p.k.toNat signature).zip (selected p digest)) :=
    lt_of_mem_selected sound (List.of_mem_zip member).2
  obtain ⟨left, reached, alike⟩ := rootsOf_eq (H := H) sound width
    ((Bytes.blocks ((p.a.toNat + 1) * p.n.toNat) p.k.toNat signature).zip
      (selected p digest)) 0 (by simp) full leaves_lt adrs
  have calls := calls_rootsOfProgram (H := H) sound width
    ((Bytes.blocks ((p.a.toNat + 1) * p.n.toNat) p.k.toNat signature).zip
      (selected p digest)) 0 (by simp) full leaves_lt adrs
  have answered := (answer_rootsOfProgram (H := H) (p := p) 0 adrs _).trans reached
  rw [publicKeyOfProgram, calls_lift_bind (checkLength_of sound length),
    calls_lift_bind (indices_eq sound digest),
    calls_lift_bind (buffer_of_le (by rw [maxBuffer]; omega)), calls_lift_bind sound.segmentSize_eq,
    calls_lift_bind (ensure_of sound.n_pos64)]
  simp only []
  rw [calls_bind answered, calls, compressProgram, calls_ask_bind, alike.setType, alike.keyPair]
  rfl

end Forest

/-! ## Verification -/

namespace Signing

/-- Verifying a signature of a message as a program. -/
def verificationProgram (H : TweakableHash) (p : Params) (pkRoot message signature : Bytes) :
    HashProgram Bool :=
  verifyProgram H.n p pkRoot (fun randomizer => H.hMsg randomizer pkRoot message p.m.toNat)
    signature

/-- The calls of a verification are those of what the body climbs to. -/
theorem calls_verifyProgram (sound : p.Sound) (width : H.n = p.n.toNat) {signature : Bytes}
    (length : signature.length = p.n.toNat + bodyWidth p) (pkRoot message : Bytes) :
    (verificationProgram H p pkRoot message signature).calls H =
      bodyCalls H p (routeOf H p (signature.take p.n.toNat) pkRoot message)
        (signature.drop p.n.toNat) := by
  generalize route_eq : routeOf H p (signature.take p.n.toNat) pkRoot message = route
  generalize body_eq : signature.drop p.n.toNat = body
  have inside : route.leaf.toNat < 2 ^ p.hp.toNat := route_eq ▸ Route.toNat_leaf_lt sound _
  have body_length : body.length = bodyWidth p := by rw [← body_eq, List.length_drop]; omega
  have read : Route.ofDigest p (H.hMsg (signature.take p.n.toNat) pkRoot message p.m.toNat) =
      .ok route := by rw [Route.ofDigest_eq sound (H.length_hMsg _ _ _ _), ← route_eq, routeOf]
  obtain ⟨left, forest⟩ := forestNode_eq (H := H) sound width route body body_length
  have answered := (Forest.answer_publicKeyOfProgram (H := H) (p := p) _ _ _).trans forest
  rw [bodyWidth] at body_length
  have front := Forest.calls_publicKeyOfProgram (H := H) sound width (body.take (forestWidth p))
    (by rw [List.length_take, ← forestWidth]; omega) route.forest
    (forestAddress route.tree route.leaf)
  have back := Hypertree.calls_verifyProgram (H := H) sound width route.tree inside
    (forestNode H p route body) (body.drop (forestWidth p)) ((H.length_t _ _).trans width)
    (by rw [List.length_drop, ← layerWidth]; omega) pkRoot
  rw [verificationProgram, verifyProgram, calls_lift_bind (cut_of_le (by omega)), body_eq]
  simp only []
  rw [calls_lift_bind sound.forestSize_eq, ← forestWidth, calls_lift_bind (cut_of_le (by omega))]
  simp only []
  rw [calls_lift_bind (ensure_of (show p.m.toNat ≤ Params.maxMessageDigest from sound.message_le)),
    calls_lift_bind read, calls_bind answered, front]
  exact congrArg (_ ++ ·) back

/-! ## Undercut signatures in the bytes of a signature -/

/-- Where a block of a layer's one-time signature stands in a signature. -/
def blockAt (p : Params) (layer chain : Nat) (signature : Bytes) : Bytes :=
  Bytes.slice (p.n.toNat + (forestWidth p + (layer * layerWidth p + chain * p.n.toNat))) p.n.toNat
    signature

/-- The address of the key pair that signs on a layer. -/
def keyAddressAt (p : Params) (route : Route) (layer : Nat) : Address :=
  Layer.keyAddress (Hypertree.addressAt p route.tree layer)
    (Hypertree.leafAt p route.tree route.leaf layer)

/-- The node that a verification signs on a layer: what the forest and the layers below lead to. -/
def nodeAt (H : TweakableHash) (p : Params) (route : Route) (signature : Bytes) (layer : Nat) :
    Outcome Bytes := do
  let body := signature.drop p.n.toNat
  let (node, _) ← Forest.publicKeyOf H p (body.take (forestWidth p)) route.forest
    (forestAddress route.tree route.leaf)
  Hypertree.nodeFrom H p 0 route.tree route.leaf node ((layerSegments p body).take layer)

/-- The verifications of two signatures sign different nodes on a layer, and in a chain there the
second signature reveals a value below that of the first: its chain leads from it exactly to that. The
last step is a call of the second verification, and takes a preimage of the revealed block. -/
def UndercutsAt (H : TweakableHash) (p : Params) (pkRoot message : Bytes) (route : Route)
    (signature signature' : Bytes) (layer chain : Nat) : Prop :=
  ∃ (node node' : Bytes) (digits digits' : List UInt32) (digit digit' : UInt32),
    nodeAt H p route signature layer = .ok node ∧ nodeAt H p route signature' layer = .ok node' ∧
      node ≠ node' ∧
    Winternitz.digits p.len.toNat node = .ok digits ∧
      Winternitz.digits p.len.toNat node' = .ok digits' ∧
      digits[chain]? = some digit ∧ digits'[chain]? = some digit' ∧ digit' < digit ∧
    (∃ left, OneTime.chain H ((keyAddressAt p route layer).setChain (UInt32.ofNat chain))
      (blockAt p layer chain signature') digit' (digit - digit') =
        .ok (blockAt p layer chain signature, left)) ∧
    ∃ adrs preimage,
      HashCall.f adrs preimage ∈ (verificationProgram H p pkRoot message signature').calls H ∧
        H.f adrs preimage = blockAt p layer chain signature

/-- Two signatures break the hash functions: calls of their verifications collide, or the second
undercuts the first. -/
def Breaks (H : TweakableHash) (p : Params) (pkRoot message signature signature' : Bytes) : Prop :=
  Collision H ((verificationProgram H p pkRoot message signature).calls H)
      ((verificationProgram H p pkRoot message signature').calls H) ∨
    ∃ route, digestOf H p (signature.take p.n.toNat) pkRoot message = .ok route ∧
      ∃ layer < p.d.toNat, ∃ chain < p.len.toNat,
        UndercutsAt H p pkRoot message route signature signature' layer chain

/-- A signature of the right length passes verification with given hash functions. -/
structure Accepts (H : TweakableHash) (p : Params) (pkRoot message signature : Bytes) : Prop where
  checked : p.check = .ok ()
  width : H.n = p.n.toNat
  length : p.signatureSize = .ok signature.length
  verdict : verifyWith H p pkRoot message signature = .ok true

theorem eq_of_rejectFaults_eq_true {verdict : Outcome Bool}
    (accepted : rejectFaults verdict = .ok true) : verdict = .ok true := by
  cases verdict with
  | ok b => exact accepted
  | error stop =>
      cases stop with
      | fault cause => exact absurd (Except.ok.inj accepted) Bool.false_ne_true
      | broken => exact absurd accepted (broken_ne_ok true)

theorem Accepts.of_verify {pkSeed pkRoot message signature : Bytes}
    (accepted : verify p pkSeed pkRoot message signature = .ok true) :
    ∃ H, p.hash pkSeed = .ok H ∧ Accepts H p pkRoot message signature := by
  have inner := eq_of_rejectFaults_eq_true accepted
  obtain ⟨_, checked, inner⟩ := bind_eq_ok.1 inner
  obtain ⟨total, sized, inner⟩ := bind_eq_ok.1 inner
  split at inner
  · rename_i lengths
    obtain ⟨H, hashed, verdict⟩ := bind_eq_ok.1 inner
    exact ⟨H, hashed, checked, width_of_hash hashed, lengths.1 ▸ sized, verdict⟩
  · exact absurd (Except.ok.inj inner) Bool.false_ne_true

theorem Accepts.length_eq {pkRoot message signature : Bytes}
    (accepts : Accepts H p pkRoot message signature) :
    signature.length = p.n.toNat + bodyWidth p := by
  have sized := accepts.length
  rw [(Params.sound_of_check accepts.checked).signatureSize_eq, Except.ok.injEq] at sized
  rw [← sized, bodyWidth, forestWidth, layerWidth, Nat.add_assoc]

/-- An accepted signature's body climbs to the root. -/
theorem Accepts.topOf_eq {pkRoot message signature : Bytes}
    (accepts : Accepts H p pkRoot message signature) :
    topOf H p (routeOf H p (signature.take p.n.toNat) pkRoot message)
      (signature.drop p.n.toNat) = pkRoot := by
  have verdict := accepts.verdict
  rw [verifyWith_eq (Params.sound_of_check accepts.checked) accepts.width accepts.length_eq,
    Except.ok.injEq] at verdict
  exact beq_iff_eq.1 verdict

theorem nodeAt_eq (sound : p.Sound) (width : H.n = p.n.toNat) {route : Route}
    (inside : route.leaf.toNat < 2 ^ p.hp.toNat) {signature : Bytes}
    (length : signature.length = p.n.toNat + bodyWidth p) (layer : Nat) :
    nodeAt H p route signature layer =
      .ok (Hypertree.climbedFrom H p route.tree route.leaf 0
        (forestNode H p route (signature.drop p.n.toNat))
        ((layerSegments p (signature.drop p.n.toNat)).take layer)) := by
  have body_length : (signature.drop p.n.toNat).length = bodyWidth p := by
    rw [List.length_drop]; omega
  obtain ⟨left, forest⟩ := forestNode_eq (H := H) sound width route (signature.drop p.n.toNat)
    body_length
  have full (segment : Bytes)
      (member : segment ∈ (layerSegments p (signature.drop p.n.toNat)).take layer) :=
    length_of_mem_layerSegments body_length (List.mem_of_mem_take member)
  have reached := Hypertree.nodeFrom_eq (H := H) sound width route.tree inside full 0
    (forestNode H p route (signature.drop p.n.toNat))
  rw [Nat.zero_sub, Hypertree.treeAt_zero] at reached
  rw [nodeAt, forest, ok_bind]
  exact reached

/-- The blocks of a layer's one-time signature stand one behind the other in a signature. -/
theorem blockAt_eq {signature segment block : Bytes} {layer chain : Nat}
    (found : (layerSegments p (signature.drop p.n.toNat))[layer]? = some segment)
    (revealed : (Layer.revealed p segment)[chain]? = some block) :
    blockAt p layer chain signature = block := by
  obtain ⟨-, rfl⟩ := Bytes.getElem?_blocks_eq_some.1 found
  obtain ⟨inside, rfl⟩ := Bytes.getElem?_blocks_eq_some.1 revealed
  have reaches := Nat.mul_le_mul_right p.n.toNat (show chain + 1 ≤ p.len.toNat from inside)
  rw [Nat.succ_mul] at reaches
  rw [Bytes.slice_slice _ _ (by rw [layerWidth, Nat.add_mul]; omega), Bytes.slice_drop,
    Bytes.slice_drop, blockAt]

/-- A verification makes the steps of every chain of every layer. -/
theorem chainCalls_subset_verification (sound : p.Sound) (width : H.n = p.n.toNat)
    {pkRoot message signature segment block : Bytes} {route : Route}
    (route_eq : routeOf H p (signature.take p.n.toNat) pkRoot message = route)
    (length : signature.length = p.n.toNat + bodyWidth p) {layer chain : Nat} {digit : UInt32}
    (found : (layerSegments p (signature.drop p.n.toNat))[layer]? = some segment)
    (revealed : (Layer.revealed p segment)[chain]? = some block)
    (at_digit : (Winternitz.signedDigits p.len.toNat (Hypertree.climbedFrom H p route.tree
      route.leaf 0 (forestNode H p route (signature.drop p.n.toNat))
      ((layerSegments p (signature.drop p.n.toNat)).take layer)))[chain]? = some digit) :
    OneTime.chainCalls H (keyAddressAt p route layer) (UInt32.ofNat chain) (15 - digit.toNat)
        digit.toNat block ⊆ (verificationProgram H p pkRoot message signature).calls H := by
  rw [calls_verifyProgram sound width length, route_eq]
  have in_layer := Hypertree.climbedCalls_subset (H := H) (p := p) route.tree route.leaf 0
    (forestNode H p route (signature.drop p.n.toNat)) found
  rw [Nat.zero_add] at in_layer
  intro c member
  apply List.mem_append_right
  apply in_layer
  apply List.mem_append_left
  apply List.mem_append_left
  exact OneTime.chainCalls_subset revealed at_digit member

/-- Segments that undercut others do so at a place in the bytes of the signatures. -/
theorem undercutsAt_of_undercutsFrom (sound : p.Sound) (width : H.n = p.n.toNat)
    {pkRoot message signature signature' : Bytes} {route : Route}
    (route_eq : routeOf H p (signature'.take p.n.toNat) pkRoot message = route)
    (length : signature.length = p.n.toNat + bodyWidth p)
    (length' : signature'.length = p.n.toNat + bodyWidth p)
    (undercuts : Hypertree.UndercutsFrom H p route.tree route.leaf 0
      (forestNode H p route (signature.drop p.n.toNat))
      (layerSegments p (signature.drop p.n.toNat))
      (forestNode H p route (signature'.drop p.n.toNat))
      (layerSegments p (signature'.drop p.n.toNat))) :
    ∃ layer < p.d.toNat, ∃ chain < p.len.toNat,
      UndercutsAt H p pkRoot message route signature signature' layer chain := by
  obtain ⟨layer, segment, segment', found, found', nodes, undercuts⟩ := undercuts
  obtain ⟨chain, block, block', digit, digit', revealed, at_digit, revealed', at_digit', lower,
    leads⟩ := undercuts
  rw [Nat.zero_add] at leads
  have inside : route.leaf.toNat < 2 ^ p.hp.toNat := route_eq ▸ Route.toNat_leaf_lt sound _
  have layer_lt : layer < p.d.toNat := (Bytes.getElem?_blocks_eq_some.1 found).1
  have chain_lt : chain < p.len.toNat := (Bytes.getElem?_blocks_eq_some.1 revealed).1
  have small : digit.toNat ≤ 15 :=
    Winternitz.le_of_mem_signedDigits sound.chains_le (List.mem_of_getElem? at_digit)
  have block_length : block'.length = H.n := by
    have body_length : (signature'.drop p.n.toNat).length = bodyWidth p := by
      rw [List.length_drop]; omega
    have full := length_of_mem_layerSegments body_length (List.mem_of_getElem? found')
    exact (Layer.length_of_mem_revealed full (List.mem_of_getElem? revealed')).trans width.symm
  have digits_of := Winternitz.digits_eq (Layer.enough_chains sound) sound.chains_le
  obtain ⟨left, walked⟩ := OneTime.chain_of_leads lower small leads block_length
  obtain ⟨adrs, preimage, member, takes⟩ := OneTime.preimage_of_leads lower small leads
  have called := chainCalls_subset_verification sound width route_eq length' found' revealed'
    at_digit' member
  rw [← blockAt_eq found revealed] at walked takes
  rw [← blockAt_eq found' revealed'] at walked
  exact ⟨layer, layer_lt, chain, chain_lt, _, _, _, _, digit, digit',
    nodeAt_eq sound width inside length layer, nodeAt_eq sound width inside length' layer, nodes,
    digits_of _, digits_of _, at_digit, at_digit', lower, ⟨left, walked⟩, adrs, preimage, called,
    takes⟩

/-- Two signatures that are accepted with one randomizer are one signature, or break the hash
functions: what both climb to is the root. -/
theorem Accepts.breaks {pkRoot message signature signature' : Bytes}
    (accepts : Accepts H p pkRoot message signature)
    (accepts' : Accepts H p pkRoot message signature')
    (front : signature.take p.n.toNat = signature'.take p.n.toNat)
    (distinct : signature ≠ signature') : Breaks H p pkRoot message signature signature' := by
  have sound := Params.sound_of_check accepts.checked
  have width := accepts.width
  have length := accepts.length_eq
  have length' := accepts'.length_eq
  have top := accepts.topOf_eq
  have top' := accepts'.topOf_eq
  have calls := calls_verifyProgram sound width length pkRoot message
  have calls' := calls_verifyProgram sound width length' pkRoot message
  rw [← front] at top' calls'
  generalize route_eq : routeOf H p (signature.take p.n.toNat) pkRoot message = route at *
  rcases topOf_binds sound width (by rw [List.length_drop]; omega)
    (by rw [List.length_drop]; omega) (top.trans top'.symm) with bodies | met | undercuts
  · exact absurd (Bytes.eq_of_take_drop_eq front bodies) distinct
  · refine .inl ?_
    rw [calls, calls']
    exact met
  · refine .inr ⟨route, ?_, ?_⟩
    · rw [digestOf_eq sound, route_eq]
    · exact undercutsAt_of_undercutsFrom sound width (front ▸ route_eq) length length' undercuts

/-- A second signature needs a collision, or undercuts the first. Let two different signatures of one
message, with one randomizer, be accepted under one root. Then the hash functions are broken among
the calls of their two verifications. This holds for all hash functions with digests of the right
length, so for those of an instance. -/
theorem tampering_needs_collision (p : Params) :
    (∀ H pkRoot message signature, (verificationProgram H p pkRoot message signature).answer H =
      verifyWith H p pkRoot message signature) ∧
    (∀ H pkRoot message signature signature', Accepts H p pkRoot message signature →
      Accepts H p pkRoot message signature' →
      signature.take p.n.toNat = signature'.take p.n.toNat → signature ≠ signature' →
        Breaks H p pkRoot message signature signature') ∧
    ∀ pkSeed pkRoot message signature signature',
      verify p pkSeed pkRoot message signature = .ok true →
      verify p pkSeed pkRoot message signature' = .ok true →
      signature.take p.n.toNat = signature'.take p.n.toNat → signature ≠ signature' →
        ∃ H, p.hash pkSeed = .ok H ∧ Breaks H p pkRoot message signature signature' := by
  refine ⟨?_, ?_, ?_⟩
  · intro H pkRoot message signature
    exact answer_verifyProgram pkRoot message signature
  · intro H pkRoot message signature signature' accepts accepts' front distinct
    exact accepts.breaks accepts' front distinct
  · intro pkSeed pkRoot message signature signature' accepted accepted' front distinct
    obtain ⟨H, hashed, accepts⟩ := Accepts.of_verify accepted
    obtain ⟨H', hashed', accepts'⟩ := Accepts.of_verify accepted'
    obtain rfl : H = H' := Except.ok.inj (hashed.symm.trans hashed')
    exact ⟨H, hashed, accepts.breaks accepts' front distinct⟩

/-- Hash functions that reply the same to every call. -/
def constantHash : TweakableHash where
  n := 16
  prf _ _ := Bytes.zeros 16
  takes _ := true
  f _ block := Bytes.zeros block.length
  h _ _ _ := Bytes.zeros 16
  t _ _ := Bytes.zeros 16
  prfMsg _ _ _ := Bytes.zeros 16
  hMsg _ _ _ length := Bytes.zeros length
  takes_n := rfl
  length_prf _ _ := Bytes.length_zeros _
  length_f _ _ _ := Bytes.length_zeros _
  length_h _ _ _ := Bytes.length_zeros _
  length_t _ _ := Bytes.length_zeros _
  length_prfMsg _ _ _ := Bytes.length_zeros _
  length_hMsg _ _ _ _ := Bytes.length_zeros _

/-- With constant hash functions every signature of the right length is accepted. -/
theorem accepts_constantHash {signature : Bytes} (length : signature.length = 624) :
    Accepts constantHash (.ofBase .shake 16 1 1 1 1) (Bytes.zeros 16) [] signature where
  checked := rfl
  width := rfl
  length := by rw [length]; rfl
  verdict := by
    have top (route : Route) (body : Bytes) :
        topOf constantHash (.ofBase .shake 16 1 1 1 1) route body = Bytes.zeros 16 := by
      change (if _ then Bytes.zeros 16 else Bytes.zeros 16) = Bytes.zeros 16
      split <;> rfl
    rw [verifyWith_eq (Params.sound_of_check rfl) rfl (by rw [length]; rfl), top]
    rfl

/-- Signatures that differ in their last byte under constant hash functions, which are broken. -/
theorem tampering_needs_collision_constant :
    ∃ signature signature' : Bytes, signature ≠ signature' ∧
      Breaks constantHash (.ofBase .shake 16 1 1 1 1) (Bytes.zeros 16) [] signature signature' := by
  have distinct : Bytes.zeros 623 ++ [0] ≠ Bytes.zeros 623 ++ [1] := by
    intro same
    exact absurd (List.append_cancel_left same) (by decide)
  have front : (Bytes.zeros 623 ++ [0]).take 16 = (Bytes.zeros 623 ++ [1]).take 16 := by
    rw [List.take_append_of_le_length (by simp), List.take_append_of_le_length (by simp)]
  refine ⟨_, _, distinct, ?_⟩
  exact (tampering_needs_collision (.ofBase .shake 16 1 1 1 1)).2.1 constantHash (Bytes.zeros 16) []
    _ _ (accepts_constantHash (by simp)) (accepts_constantHash (by simp)) front distinct

end Signing

end HashSignature
