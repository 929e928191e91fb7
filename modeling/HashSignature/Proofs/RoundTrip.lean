/-
# HashSignature.Proofs.RoundTrip — what a signer makes leads its verifier back to the same value

A signature is made and followed back on five levels: the chains of one key pair, the path of a leaf
in one tree, the segment of one layer, the segments of all layers, and the segments of the forest. On
each level the two sides
are loops of their own, which name the nodes by different numbers and leave different words behind
in their addresses. Here each level is closed: both sides end with a value, the two values are the
same, and what is out of range or of another length is refused for its own cause. The trees of a
layer and of the forest are the same if one address is handed on from leaf to leaf.

* `OneTime.signature_leads_to_key` — the values that a signature reveals lead to the public key.
* `MerkleTree.path_leads_to_root` — a leaf and its path lead to the root of an aligned tree.
* `Layer.segment_leads_to_root` — the segment of any key pair leads to the one root of its layer.
* `Hypertree.segments_lead_to_top` — the segments of all layers lead to the root on top.
* `Forest.segments_lead_to_public_value` — the segments of a digest lead to the public value, which
  is the same for all digests.
-/
import HashSignature.Proofs.AddressHistory
import HashSignature.Proofs.Carrying
import HashSignature.Proofs.InPlace
import HashSignature.Proofs.PlainSigning

namespace HashSignature

set_option autoImplicit false

open Outcome

/-! ## One key pair -/

namespace OneTime

open Winternitz

variable {H : TweakableHash} {adrs adrs' : Address}

/-- A chain whose signer walks `digit` steps from its start to the revealed block, and whose verifier
walks the others from there to its top. -/
structure SplitsAt (H : TweakableHash) (adrs : Address) (index digit : UInt32)
    (start block top : Bytes) : Prop where
  whole : ∃ left, chain H (adrs.setChain index) start 0 15 = .ok (top, left)
  front : ∃ left, chain H (adrs.setChain index) start 0 digit = .ok (block, left)
  back : ∃ left, chain H (adrs.setChain index) block digit (15 - digit) = .ok (top, left)
  lowest : digit = 0 → block = start
  highest : digit = 15 → block = top

/-- Every digit splits a chain. -/
theorem splitsAt_chainValue (adrs : Address) (index : UInt32) {digit : UInt32}
    (small : digit.toNat ≤ 15) {start : Bytes} (length : start.length = H.n) :
    SplitsAt H adrs index digit start (chainValue H adrs index digit.toNat 0 start)
      (chainValue H adrs index 15 0 start) where
  whole := by
    have fits : (0 : UInt32).toNat + (15 : UInt32).toNat < 2 ^ 32 := by decide
    obtain ⟨left, walked, -⟩ := chain_eq fits length adrs index
    exact ⟨left, walked⟩
  front := by
    have fits : (0 : UInt32).toNat + digit.toNat < 2 ^ 32 := Nat.zero_add _ ▸ digit.toNat_lt
    obtain ⟨left, walked, -⟩ := chain_eq fits length adrs index
    exact ⟨left, walked⟩
  back := by
    have rest : (15 - digit).toNat = 15 - digit.toNat := toNat_maxDigit_sub small
    have fits : digit.toNat + (15 - digit).toNat < 2 ^ 32 := by omega
    obtain ⟨left, walked, -⟩ :=
      chain_eq fits (length_chainValue adrs index digit.toNat 0 length) adrs index
    have joined := chainValue_add (H := H) adrs index digit.toNat (15 - digit.toNat) 0 start
    rw [Nat.zero_add, Nat.add_sub_cancel' small] at joined
    rw [rest, joined] at walked
    exact ⟨left, walked⟩
  lowest := by rintro rfl; rfl
  highest := by rintro rfl; rfl

theorem blocksOf_congr (alike : adrs.Alike adrs') (skSeed : Bytes) (digits : List UInt32) :
    blocksOf H skSeed adrs digits = blocksOf H skSeed adrs' digits := by
  simp only [blocksOf, chainValue_congr alike, secret_congr alike]

theorem keyOf_congr (alike : adrs.Alike adrs') (count : Nat) (skSeed : Bytes) :
    keyOf H count skSeed adrs = keyOf H count skSeed adrs' := by
  rw [keyOf, keyOf, blocksOf_congr alike, compress_congr alike]

/-- The revealed values of a message lead to the public key from every address that is alike. -/
theorem publicKeyOf_blocksOf {count : Nat} (enough : Params.checksumDigits ≤ count)
    (few : count ≤ Params.maxChains) (pos : 0 < H.n) (le : H.n ≤ Params.maxDigest)
    (message skSeed : Bytes) (alike : adrs'.Alike adrs) :
    ∃ left, publicKeyOf H count (blocksOf H skSeed adrs (signedDigits count message)).flatten message
        adrs' = .ok (keyOf H count skSeed adrs, left) ∧ left.Alike adrs' := by
  have length := length_flatten_signed (H := H) enough message skSeed adrs'
  obtain ⟨left, recovered, alike'⟩ := publicKeyOf_eq enough few pos le
    (blocksOf H skSeed adrs' (signedDigits count message)).flatten (Nat.le_of_eq length.symm) message
    adrs'
  rw [blocks_signed enough, compress_topsOf_signed enough few, blocksOf_congr alike,
    keyOf_congr alike] at recovered
  exact ⟨left, recovered, alike'⟩

/-- A signature leads to the public key. Generating the key, signing any message and recovering the
key from the signature all succeed, whatever chain and step stand in the address at the start; the
address that is left behind differs in nothing else. The signature reveals one block of each chain, as
many steps above its secret as its digit says, and the rest of the fifteen steps end at the top that
the key was made from: a lowest digit reveals the secret, a highest one the top. -/
theorem signature_leads_to_key (H : TweakableHash) (supported : H.n = 16 ∨ H.n = 24 ∨ H.n = 32)
    (skSeed : Bytes) (adrs : Address) :
    ∃ (key : Bytes) (tops : List Bytes),
      key = compress H adrs tops ∧ tops.length = 2 * H.n + 3 ∧
      (∀ adrs' : Address, adrs'.bytes.take 24 = adrs.bytes.take 24 →
        ∃ left, publicKey H (2 * H.n + 3) skSeed adrs' = .ok (key, left) ∧
          left.bytes.take 24 = adrs.bytes.take 24) ∧
      ∀ message : Bytes, ∃ (signature : Bytes) (digits : List UInt32),
        (∀ adrs' : Address, adrs'.bytes.take 24 = adrs.bytes.take 24 →
          ∃ left, sign H (2 * H.n + 3) message skSeed adrs' = .ok (signature, left) ∧
            left.bytes.take 24 = adrs.bytes.take 24) ∧
        (∀ adrs' : Address, adrs'.bytes.take 24 = adrs.bytes.take 24 →
          ∃ left, publicKeyOf H (2 * H.n + 3) signature message adrs' = .ok (key, left) ∧
            left.bytes.take 24 = adrs.bytes.take 24) ∧
        signature.length = (2 * H.n + 3) * H.n ∧
        Winternitz.digits (2 * H.n + 3) message = .ok digits ∧ digits.length = 2 * H.n + 3 ∧
        ∀ (i : Nat) (digit : UInt32), digits[i]? = some digit →
          digit ≤ 15 ∧ ∃ top, tops[i]? = some top ∧
            SplitsAt H adrs (UInt32.ofNat i) digit (secret H skSeed adrs (UInt32.ofNat i))
              (Bytes.slice (i * H.n) H.n signature) top := by
  have pos : 0 < H.n := by omega
  have le : H.n ≤ Params.maxDigest := by rw [Params.maxDigest]; omega
  have enough : Params.checksumDigits ≤ 2 * H.n + 3 := Nat.le_add_left _ _
  have few := signed_le_maxChains le
  have left_same {adrs' left : Address} (same : adrs'.bytes.take 24 = adrs.bytes.take 24)
      (alike : left.Alike adrs') : left.bytes.take 24 = adrs.bytes.take 24 :=
    (Address.take_of_alike alike).trans same
  refine ⟨keyOf H (2 * H.n + 3) skSeed adrs, _, rfl, by simp, ?_, fun message => ?_⟩
  · intro adrs' same
    obtain ⟨left, generated, alike⟩ := publicKey_eq (H := H) (2 * H.n + 3) (Nat.mul_le_mul few le)
      pos skSeed adrs'
    rw [keyOf_congr (Address.alike_of_take same)] at generated
    exact ⟨left, generated, left_same same alike⟩
  · have counted := length_signedDigits enough message
    refine ⟨(blocksOf H skSeed adrs (signedDigits (2 * H.n + 3) message)).flatten,
      signedDigits (2 * H.n + 3) message, ?_, ?_, ?_, digits_eq enough few message, counted, ?_⟩
    · intro adrs' same
      obtain ⟨left, signed, alike⟩ := sign_eq (H := H) enough few pos le message skSeed adrs'
      rw [blocksOf_congr (Address.alike_of_take same)] at signed
      exact ⟨left, signed, left_same same alike⟩
    · intro adrs' same
      obtain ⟨left, recovered, alike⟩ := publicKeyOf_blocksOf (H := H) enough few pos le message
        skSeed (Address.alike_of_take same)
      exact ⟨left, recovered, left_same same alike⟩
    · exact length_flatten_signed enough message skSeed adrs
    · intro i digit at_digit
      have small := le_of_mem_signedDigits few (List.mem_of_getElem? at_digit)
      have inside := (List.getElem?_eq_some_iff.1 at_digit).1
      rw [counted] at inside
      have revealed := getElem?_blocksOf (H := H) skSeed adrs (signedDigits (2 * H.n + 3) message) i
      rw [at_digit, Option.map_some] at revealed
      rw [Bytes.slice_flatten (fun _ => length_of_mem_blocksOf) revealed]
      refine ⟨UInt32.le_iff_toNat_le.2 small, _, ?_, splitsAt_chainValue adrs _ small
        (H.length_prf _ _)⟩
      rw [getElem?_blocksOf, List.getElem?_replicate, if_pos inside]
      rfl

/-- A message with lowest and highest digits, also in its checksum, and three addresses that differ
in their chain and step. -/
theorem signature_leads_to_key_extremes :
    ∃ key signature : Bytes,
      (∃ left, publicKey (.shake 16 (Bytes.zeros 16)) 35 [] .zero = .ok (key, left)) ∧
      (∃ left, sign (.shake 16 (Bytes.zeros 16)) 35
        (Bytes.zeros 8 ++ [0x0F] ++ List.replicate 7 0xFF) [] (Address.zero.setLast 7 9) =
          .ok (signature, left)) ∧
      (∃ left, publicKeyOf (.shake 16 (Bytes.zeros 16)) 35 signature
        (Bytes.zeros 8 ++ [0x0F] ++ List.replicate 7 0xFF) (Address.zero.setLast 34 15) =
          .ok (key, left)) ∧
      Bytes.slice 0 16 signature = secret (.shake 16 (Bytes.zeros 16)) [] .zero 0 ∧
      Bytes.slice 512 16 signature = secret (.shake 16 (Bytes.zeros 16)) [] .zero 32 ∧
      ∃ left, chain (.shake 16 (Bytes.zeros 16)) (Address.zero.setChain 33)
        (secret (.shake 16 (Bytes.zeros 16)) [] .zero 33) 0 15 =
          .ok (Bytes.slice 528 16 signature, left) := by
  obtain ⟨key, tops, -, -, generated, signs⟩ := signature_leads_to_key
    (.shake 16 (Bytes.zeros 16)) (.inl rfl) [] .zero
  obtain ⟨signature, digits, signed, recovered, -, cut, -, chains⟩ :=
    signs (Bytes.zeros 8 ++ [0x0F] ++ List.replicate 7 0xFF)
  obtain rfl := Except.ok.inj ((digits_eq (by decide) (by decide) _).symm.trans cut)
  obtain ⟨left, made, -⟩ := generated .zero rfl
  obtain ⟨left', made', -⟩ := signed (Address.zero.setLast 7 9) rfl
  obtain ⟨left'', made'', -⟩ := recovered (Address.zero.setLast 34 15) rfl
  obtain ⟨-, _, -, first⟩ := chains 0 0 (by decide)
  obtain ⟨-, _, -, low⟩ := chains 32 0 (by decide)
  obtain ⟨-, _, -, high⟩ := chains 33 15 (by decide)
  refine ⟨key, signature, ⟨left, made⟩, ⟨left', made'⟩, ⟨left'', made''⟩, first.lowest rfl,
    low.lowest rfl, ?_⟩
  obtain ⟨left, walked⟩ := high.whole
  exact ⟨left, (high.highest rfl).symm ▸ walked⟩

end OneTime

/-! ## One tree -/

namespace MerkleTree

variable {H : TweakableHash} {adrs adrs' : Address}

/-- The path of a leaf leads to the root from every address that is alike. -/
theorem rootOf_path {leaf : Nat → Bytes} (full : ∀ i, (leaf i).length = H.n) (pos : 0 < H.n)
    (small : H.n ≤ 32) {height : Nat} (low : height ≤ 31) {offset leafIndex : UInt32}
    (aligned : 2 ^ height ∣ offset.toNat) (ends : offset.toNat + 2 ^ height ≤ 2 ^ 32)
    (inside : leafIndex.toNat < 2 ^ height) (alike : adrs.Alike adrs') :
    ∃ left, rootOf H adrs' height offset leafIndex (leaf leafIndex.toNat)
        (pathFrom H adrs offset.toNat leaf leafIndex.toNat 0 height).flatten =
      .ok (node H adrs offset.toNat leaf height 0, left) := by
  obtain ⟨left, reached, -⟩ := rootOf_eq (H := H) offset leafIndex (leaf leafIndex.toNat)
    (pathFrom H adrs offset.toNat leaf leafIndex.toNat 0 height).flatten low inside ends pos small
    (full _) (length_flatten_pathFrom full _ _ _) adrs'
  rw [blocks_pathFrom full, ← ascent_congr alike, ascent_path adrs leaf aligned inside] at reached
  exact ⟨left, reached⟩

/-- Every path leads back to the root. In a tree that starts at a multiple of its width and ends
within the numbering, both builders give one root and one path for a leaf, whatever the buffers held
before. From that leaf the path leads to that root, also if the height and the index in the address
were others at the start. -/
theorem path_leads_to_root (H : TweakableHash) (pos : 0 < H.n) (small : H.n ≤ 32)
    (leaf : UInt32 → Bytes) (full : ∀ i, (leaf i).length = H.n) (height : Nat) (low : height ≤ 31)
    (offset : UInt32) (aligned : 2 ^ height ∣ offset.toNat)
    (ends : offset.toNat + 2 ^ height ≤ 2 ^ 32) (leafIndex : UInt32)
    (inside : leafIndex.toNat < 2 ^ height) (adrs adrs' : Address)
    (same : adrs.bytes.take 24 = adrs'.bytes.take 24) :
    ∃ root path : Bytes,
      (∃ left, build H adrs height offset leafIndex (some (height * H.n)) (fun i => .ok (leaf i)) =
        .ok ⟨root, path, left⟩) ∧
      (∀ rootRoom pathRoom arena : Bytes, rootRoom.length = H.n →
        pathRoom.length = height * H.n →
          ∃ left after, buildIn H height offset leafIndex (fun i => .ok (leaf i))
              ⟨adrs, rootRoom, some pathRoom, arena⟩ =
            (.ok ⟨⟩, ⟨left, root, some path, after⟩)) ∧
      ∃ left, rootOf H adrs' height offset leafIndex (leaf leafIndex) path = .ok (root, left) := by
  let value (i : Nat) : Bytes := leaf (UInt32.ofNat i)
  have value_full (i : Nat) : (value i).length = H.n := full _
  obtain ⟨left, made, -⟩ : ∃ left, build H adrs height offset leafIndex (some (height * H.n))
        (fun i => .ok (leaf i)) = .ok ⟨node H adrs offset.toNat value height 0, _, left⟩ ∧
      left.Alike adrs :=
    build_eq offset leafIndex _ low inside ends pos small
      (fun length asked => (Option.some.inj asked).symm) (fun _ _ => rfl) adrs
  obtain ⟨left', reached⟩ := rootOf_path value_full pos small low aligned ends inside
    (Address.alike_of_take same)
  refine ⟨_, _, ⟨left, made⟩, ?_, left', ?_⟩
  · intro rootRoom pathRoom arena root_length path_length
    obtain ⟨after, written⟩ := buildIn_eq (fun i block made => Except.ok.inj made ▸ full i) small
      ⟨adrs, rootRoom, some pathRoom, arena⟩ root_length
      (by rw [Option.map_some, path_length]; exact made)
    exact ⟨left, after, written⟩
  · rw [← reached]
    simp only [value, UInt32.ofNat_toNat, Option.isSome_some, if_true]

/-- The last leaf of the last tree of the numbering, from an address with other words at the end. -/
theorem path_leads_to_root_last :
    2 ^ 2 ∣ (4294967292 : UInt32).toNat ∧ (4294967292 : UInt32).toNat + 2 ^ 2 = 2 ^ 32 ∧
    ∃ root path : Bytes,
      (∃ left, build (.shake 16 (Bytes.zeros 16)) .zero 2 4294967292 3 (some 32)
        (fun i => .ok (List.replicate 16 i.toUInt8)) = .ok ⟨root, path, left⟩) ∧
      ∃ left, rootOf (.shake 16 (Bytes.zeros 16)) (Address.zero.setLast 7 9) 2 4294967292 3
        (List.replicate 16 3) path = .ok (root, left) := by
  obtain ⟨root, path, made, -, reached⟩ := path_leads_to_root (.shake 16 (Bytes.zeros 16))
    (by decide) (by decide) (fun i => List.replicate 16 i.toUInt8)
    (fun _ => List.length_replicate) 2 (by decide) 4294967292 (by decide) (by decide) 3 (by decide)
    .zero (Address.zero.setLast 7 9) rfl
  exact ⟨by decide, by decide, root, path, made, reached⟩

end MerkleTree

/-! ## One layer -/

namespace Layer

variable {H : TweakableHash} {p : Params} {adrs adrs' : Address}

/-- The address of a tree is that of any history with its layer and tree, up to what a change of the
kind clears. -/
theorem setType_address (updates : List Address.Update) (kind : AddressType) :
    (address (Address.after updates).layer (Address.after updates).tree).setType kind =
      (Address.after updates).setType kind := by
  generalize layer_eq : (Address.after updates).layer = layer
  generalize tree_eq : (Address.after updates).tree = tree
  have address_eq : address layer tree = Address.after [.layer layer, .tree tree] := rfl
  rw [address_eq]
  apply Address.setType_after_congr
  · rw [layer_eq, ← Address.Fields.encode_after]
    exact Address.Fields.layer_encode _
  · rw [tree_eq, ← Address.Fields.encode_after]
    exact Address.Fields.tree_encode _

/-- The segment of a message leads to the root from every address of the same tree. -/
theorem rootOf_segmentOf (sound : p.Sound) (width : H.n = p.n.toNat) (skSeed : Bytes)
    {index : UInt32} (inside : index.toNat < 2 ^ p.hp.toNat) (message : Bytes)
    (same : ∀ kind, adrs'.setType kind = adrs.setType kind) :
    ∃ left, rootOf H p index (segmentOf H p skSeed adrs index message) message adrs' =
      .ok (treeRoot H p skSeed adrs, left) := by
  obtain ⟨left, reached⟩ := rootUnder_eq (H := H) sound width inside
    (length_segmentOf sound width skSeed adrs index message) message adrs'
  rw [climbed_congr same, climbed_segmentOf sound width skSeed adrs inside] at reached
  exact ⟨left, reached⟩

/-- The leaves of a tree, with one address handed on from leaf to leaf. -/
theorem each_leafIn (sound : p.Sound) (width : H.n = p.n.toNat) (skSeed : Bytes) (adrs : Address) :
    Carrying.each (leafIn H p skSeed) (2 ^ p.hp.toNat) (adrs.setType .wotsHash) =
      .ok ((List.range (2 ^ p.hp.toNat)).map (keyOf H p skSeed adrs)) := by
  rw [leaves_eq]
  apply mapM_eq_ok
  intro i member
  have inside := List.mem_range.1 member
  have power : 2 ^ p.hp.toNat ≤ 2 ^ 20 := Nat.pow_le_pow_right (by decide) sound.layer_le
  rw [leaf_eq sound width, UInt32.toNat_ofNat', Nat.mod_eq_of_lt (by omega)]

/-- A layer is consistent. The library makes addresses by operations on the zero address only; after
any history of them there is one tree of nodes: its leaf `i` is the one-time public key of key pair
`i`, also where one address is handed on from leaf to leaf, a node is the digest of its two
children, and its root is the root of the layer and the tree that the address names.
Signing any message with any key pair of the tree returns this root and the one-time signature in
front of the path of the key pair; from every address with the same layer and tree the segment leads
back to the root, and signing in place makes it. A key pair outside the tree is refused on both
sides. -/
theorem segment_leads_to_root (p : Params) (accepted : p.check = .ok ()) (H : TweakableHash)
    (width : H.n = p.n.toNat) (skSeed : Bytes) (updates : List Address.Update) :
    ∃ M : (z i : Nat) → Bytes,
      (∀ i, ∃ left, OneTime.publicKey H p.len.toNat skSeed
          (((Address.after updates).setType .wotsHash).setKeyPair (UInt32.ofNat i)) =
        .ok (M 0 i, left)) ∧
      Carrying.each (leafIn H p skSeed) (2 ^ p.hp.toNat)
          ((Address.after updates).setType .wotsHash) =
        .ok ((List.range (2 ^ p.hp.toNat)).map (M 0)) ∧
      (∀ z i, M (z + 1) i = H.h ((((Address.after updates).setType .tree).setTreeHeight
        (UInt32.ofNat (z + 1))).setTreeIndex (UInt32.ofNat i)) (M z (2 * i)) (M z (2 * i + 1))) ∧
      root H p skSeed (Address.after updates).layer (Address.after updates).tree =
        .ok (M p.hp.toNat 0) ∧
      ∀ (index : UInt32) (message : Bytes),
        (index.toNat < 2 ^ p.hp.toNat →
          ∃ oneTime path : Bytes,
            (∃ left, sign H p message skSeed index (Address.after updates) =
              .ok ⟨oneTime ++ path, M p.hp.toNat 0, left⟩) ∧
            (∃ left, OneTime.sign H p.len.toNat message skSeed
                (((Address.after updates).setType .wotsHash).setKeyPair index) =
              .ok (oneTime, left)) ∧
            path.length = p.hp.toNat * p.n.toNat ∧
            (∀ z < p.hp.toNat,
              Bytes.slice (z * p.n.toNat) p.n.toNat path = M z ((index.toNat >>> z) ^^^ 1)) ∧
            ∀ other : List Address.Update,
              (Address.after other).layer = (Address.after updates).layer →
              (Address.after other).tree = (Address.after updates).tree →
                (∃ left, rootOf H p index (oneTime ++ path) message (Address.after other) =
                  .ok (M p.hp.toNat 0, left)) ∧
                (signIn H p message skSeed index (Address.after other)).1 =
                  .ok (oneTime ++ path, M p.hp.toNat 0) ∧
                (rootOfIn H p index (oneTime ++ path) message (Address.after other)).1 =
                  .ok (M p.hp.toNat 0)) ∧
        (2 ^ p.hp.toNat ≤ index.toNat →
          (sign H p message skSeed index (Address.after updates) =
            refuse (.invalidTree (UInt32.ofNat p.hp.toNat) index.toUInt64) ∧
          ∀ segment : Bytes, p.len.toNat * p.n.toNat ≤ segment.length →
            rootOf H p index segment message (Address.after updates) =
              refuse (.invalidTree (UInt32.ofNat p.hp.toNat) index.toUInt64)) ∧
          (signIn H p message skSeed index (Address.after updates)).1 =
            refuse (.invalidTree (UInt32.ofNat p.hp.toNat) index.toUInt64) ∧
          ∀ segment : Bytes, p.len.toNat * p.n.toNat ≤ segment.length →
            (rootOfIn H p index segment message (Address.after updates)).1 =
              refuse (.invalidTree (UInt32.ofNat p.hp.toNat) index.toUInt64)) := by
  have sound := Params.sound_of_check accepted
  have key_full (i : Nat) : (keyOf H p skSeed (Address.after updates) i).length = H.n :=
    length_keyOf _ _ _
  refine ⟨MerkleTree.node H ((Address.after updates).setType .tree) 0
    (keyOf H p skSeed (Address.after updates)), ?_, ?_, ?_, ?_, ?_⟩
  · intro i
    exact publicKey_eq sound width skSeed _ i
  · exact each_leafIn sound width skSeed _
  · intro z i
    rw [MerkleTree.node, Nat.zero_div, Nat.zero_add]
    rfl
  · rw [root_eq sound width, treeRoot_congr (setType_address updates), treeRoot]
  · intro index message
    refine ⟨fun inside => ?_, fun outside => ?_⟩
    · obtain ⟨left, signed⟩ := sign_eq (H := H) sound width message skSeed inside
        (Address.after updates)
      obtain ⟨left', oneTime, -⟩ := OneTime.sign_eq (H := H) (enough_chains sound)
        sound.chains_le (by rw [width]; exact sound.n_pos) (by rw [width]; exact sound.n_le)
        message skSeed (keyAddress (Address.after updates) index)
      refine ⟨_, _, ⟨left, signed⟩, ⟨left', oneTime⟩, ?_, ?_, ?_⟩
      · rw [length_flatten_pathOf, width]
      · intro z below
        rw [← width]
        exact MerkleTree.slice_path key_full _ index.toNat below
      · intro other layer tree
        have same := (Address.sameTree_after_iff other updates).2 ⟨layer, tree⟩
        obtain ⟨last, led⟩ :=
          rootOf_segmentOf (H := H) sound width skSeed inside message same.setType
        refine ⟨⟨last, led⟩, ?_, ?_⟩
        · rw [signIn_eq message skSeed index same, signed]
          rfl
        · exact (rootOfIn_eq index _ message (.refl _)).trans (led ▸ rfl)
    · have signed := sign_of_outside (H := H) sound message skSeed outside (Address.after updates)
      have led {segment : Bytes} (long : p.len.toNat * p.n.toNat ≤ segment.length) :=
        rootUnder_of_outside (H := H) sound width outside long message (Address.after updates)
      refine ⟨⟨signed, fun segment long => led long⟩, ?_, fun segment long => ?_⟩
      · rw [signIn_eq message skSeed index (.refl _), signed]
        rfl
      · rw [rootOfIn_eq index segment message (.refl _), led long]
        rfl

/-- Tree 5 of layer 3 from an address that was used for a forest, with the last key pair, the first
one that does not exist, and a fresh address on the other side. In place, the two change roles. -/
theorem segment_leads_to_root_stale :
    (Params.ofBase .shake 16 4 2 2 3).check = .ok () ∧
    ∃ root oneTime path : Bytes,
      Layer.root (.shake 16 (Bytes.zeros 16)) (.ofBase .shake 16 4 2 2 3) [] 3 5 = .ok root ∧
      (∃ left, sign (.shake 16 (Bytes.zeros 16)) (.ofBase .shake 16 4 2 2 3) [1] [] 3
        (.after [.layer 3, .tree 5, .type .forsRoots, .keyPair 9, .chain 1]) =
          .ok ⟨oneTime ++ path, root, left⟩) ∧
      (∃ left, rootOf (.shake 16 (Bytes.zeros 16)) (.ofBase .shake 16 4 2 2 3) 3 (oneTime ++ path)
        [1] (address 3 5) = .ok (root, left)) ∧
      (signIn (.shake 16 (Bytes.zeros 16)) (.ofBase .shake 16 4 2 2 3) [1] [] 3 (address 3 5)).1 =
        .ok (oneTime ++ path, root) ∧
      (rootOfIn (.shake 16 (Bytes.zeros 16)) (.ofBase .shake 16 4 2 2 3) 3 (oneTime ++ path) [1]
        (.after [.layer 3, .tree 5, .type .forsRoots, .keyPair 9, .chain 1])).1 = .ok root ∧
      sign (.shake 16 (Bytes.zeros 16)) (.ofBase .shake 16 4 2 2 3) [1] [] 4
        (.after [.layer 3, .tree 5, .type .forsRoots, .keyPair 9, .chain 1]) =
          refuse (.invalidTree 2 4) := by
  obtain ⟨M, -, -, -, rooted, tree⟩ := segment_leads_to_root (.ofBase .shake 16 4 2 2 3) rfl
    (.shake 16 (Bytes.zeros 16)) rfl [] [.layer 3, .tree 5, .type .forsRoots, .keyPair 9, .chain 1]
  obtain ⟨oneTime, path, signed, -, -, -, leads⟩ := (tree 3 [1]).1 (by decide)
  obtain ⟨led, signed', -⟩ := leads [.layer 3, .tree 5] (by decide) (by decide)
  obtain ⟨-, -, led'⟩ := leads [.layer 3, .tree 5, .type .forsRoots, .keyPair 9, .chain 1] rfl rfl
  exact ⟨rfl, M 2 0, oneTime, path, rooted, signed, led, signed', led',
    ((tree 4 [1]).2 (by decide)).1.1⟩

end Layer

/-! ## All layers -/

namespace Hypertree

variable {H : TweakableHash} {p : Params}

/-- The tree on top is found by one shift, and its root is the root of the top layer. -/
theorem root_top (sound : p.Sound) (width : H.n = p.n.toNat) (skSeed : Bytes) (tree : UInt64) :
    Layer.root H p skSeed (UInt32.ofNat (p.d.toNat - 1))
        (UInt64.ofNat (tree.toNat >>> ((p.d.toNat - 1) * p.hp.toNat))) =
      .ok (rootAt H p skSeed tree (p.d.toNat - 1)) := by
  rw [Layer.root_eq sound width, Nat.shiftRight_eq_div_pow]
  rfl

/-- The segments of a message lead to the root on top and to no other. -/
theorem verify_segments (sound : p.Sound) (width : H.n = p.n.toNat) (skSeed : Bytes)
    (tree : UInt64) {leaf : UInt32} (inside : leaf.toNat < 2 ^ p.hp.toNat) {message : Bytes}
    (length : message.length = p.n.toNat) (root : Bytes) :
    verify H p message (segments H p skSeed tree leaf message).flatten tree leaf root =
      .ok (decide (root = rootAt H p skSeed tree (p.d.toNat - 1))) := by
  rw [verify_eq sound width tree inside message _ length
      (length_flatten_segments sound width skSeed tree leaf message),
    blocks_segments sound width, climbedFrom_segments sound width skSeed tree inside,
    BEq.comm, Bool.beq_eq_decide_eq]

/-- The segments of all layers lead to the root on top, from every tree number of 64 bits, also if
the layers have no tree with that number. A leaf of the tree signs, and then its signature is valid
under the root on top and under no other; every other signature of the right length has a verdict
too. A leaf that the tree does not have is refused on both sides, whatever the signature holds, and
so is another length. No buffer has more than `maxBuffer` bytes. -/
theorem segments_lead_to_top (p : Params) (accepted : p.check = .ok ()) (H : TweakableHash)
    (width : H.n = p.n.toNat) (skSeed message : Bytes) (length : message.length = p.n.toNat)
    (tree : UInt64) (leaf : UInt32) :
    ∃ (size : Nat) (top : Bytes),
      p.hypertreeSize = .ok size ∧
      Layer.root H p skSeed (UInt32.ofNat (p.d.toNat - 1))
        (UInt64.ofNat (tree.toNat >>> ((p.d.toNat - 1) * p.hp.toNat))) = .ok top ∧
      (leaf.toNat < 2 ^ p.hp.toNat →
        (∃ signature, sign H p message skSeed tree leaf size = .ok signature ∧
          signature.length = size ∧
          ∀ root, verify H p message signature tree leaf root = .ok (decide (root = top))) ∧
        ∀ signature root : Bytes, signature.length = size →
          ∃ verdict, verify H p message signature tree leaf root = .ok verdict) ∧
      (2 ^ p.hp.toNat ≤ leaf.toNat →
        sign H p message skSeed tree leaf size =
          refuse (.invalidTree (UInt32.ofNat p.hp.toNat) leaf.toUInt64) ∧
        ∀ signature root : Bytes, signature.length = size →
          verify H p message signature tree leaf root =
            refuse (.invalidTree (UInt32.ofNat p.hp.toNat) leaf.toUInt64)) ∧
      (∀ room ≤ maxBuffer, room ≠ size → sign H p message skSeed tree leaf room =
        refuse (.invalidLength "hypertree signature" size room)) ∧
      ∀ signature root : Bytes, signature.length ≠ size →
        verify H p message signature tree leaf root =
          refuse (.invalidLength "hypertree signature" size signature.length) := by
  have sound := Params.sound_of_check accepted
  refine ⟨_, _, sound.hypertreeSize_eq, root_top sound width skSeed tree, ?_, ?_, ?_, ?_⟩
  · intro inside
    refine ⟨⟨_, sign_eq sound width skSeed tree inside message length,
      length_flatten_segments sound width skSeed tree leaf message, fun root =>
        verify_segments sound width skSeed tree inside length root⟩, ?_⟩
    intro signature root full
    exact ⟨_, verify_eq sound width tree inside message signature length full root⟩
  · intro outside
    refine ⟨sign_of_outside sound skSeed tree outside message length, ?_⟩
    intro signature root full
    exact verify_of_outside sound width tree outside message length full root
  · intro room fits other
    exact sign_of_ne sound message skSeed tree leaf fits other
  · intro signature root other
    exact verify_of_ne sound message tree leaf other root

/-- Two layers of height 2 under the highest tree number, with the last leaf, the first one that
does not exist, and an empty buffer. -/
theorem segments_lead_to_top_highest :
    (Params.ofBase .shake 16 4 2 2 3).check = .ok () ∧
    (Params.ofBase .shake 16 4 2 2 3).hypertreeSize = .ok 1184 ∧
    ∃ top signature : Bytes,
      Layer.root (.shake 16 (Bytes.zeros 16)) (.ofBase .shake 16 4 2 2 3) [] 1
        4611686018427387903 = .ok top ∧
      sign (.shake 16 (Bytes.zeros 16)) (.ofBase .shake 16 4 2 2 3) (Bytes.zeros 16) []
        18446744073709551615 3 1184 = .ok signature ∧
      verify (.shake 16 (Bytes.zeros 16)) (.ofBase .shake 16 4 2 2 3) (Bytes.zeros 16) signature
        18446744073709551615 3 top = .ok true ∧
      sign (.shake 16 (Bytes.zeros 16)) (.ofBase .shake 16 4 2 2 3) (Bytes.zeros 16) []
        18446744073709551615 4 1184 = refuse (.invalidTree 2 4) ∧
      verify (.shake 16 (Bytes.zeros 16)) (.ofBase .shake 16 4 2 2 3) (Bytes.zeros 16) []
        18446744073709551615 4 top = refuse (.invalidLength "hypertree signature" 1184 0) := by
  have sized : (Params.ofBase .shake 16 4 2 2 3).hypertreeSize = .ok 1184 := rfl
  obtain ⟨size, top, sized', rooted, within, -⟩ := segments_lead_to_top
    (.ofBase .shake 16 4 2 2 3) rfl (.shake 16 (Bytes.zeros 16)) rfl [] (Bytes.zeros 16) rfl
    18446744073709551615 3
  obtain ⟨_, _, sized'', -, -, beyond, -, short⟩ := segments_lead_to_top
    (.ofBase .shake 16 4 2 2 3) rfl (.shake 16 (Bytes.zeros 16)) rfl [] (Bytes.zeros 16) rfl
    18446744073709551615 4
  obtain rfl : 1184 = size := Except.ok.inj (sized.symm.trans sized')
  obtain rfl := Except.ok.inj (sized.symm.trans sized'')
  obtain ⟨⟨signature, signed, -, led⟩, -⟩ := within (by decide)
  refine ⟨rfl, rfl, top, signature, rooted, signed, ?_, (beyond (by decide)).1, short [] top ?_⟩
  · rw [led, decide_eq_true rfl]
  · decide

end Hypertree

/-! ## The forest -/

namespace Forest

variable {H : TweakableHash} {p : Params} {adrs adrs' : Address}

theorem publicValue_congr (alike : adrs.Alike adrs') (skSeed : Bytes) :
    publicValue H p skSeed adrs = publicValue H p skSeed adrs' := by
  rw [publicValue, publicValue, rootOf_congr alike, compress_congr alike]

/-- The segments of a digest lead to the public value from every address that is alike. -/
theorem publicKeyOf_segmentsOf (sound : p.Sound) (width : H.n = p.n.toNat) (skSeed digest : Bytes)
    (alike : adrs'.Alike adrs) :
    ∃ left, publicKeyOf H p (segmentsOf H p skSeed adrs digest).flatten digest adrs' =
      .ok (publicValue H p skSeed adrs, left) := by
  obtain ⟨left, reached, -⟩ := publicKeyOf_eq (H := H) sound width
    (segmentsOf H p skSeed adrs digest).flatten
    (length_flatten_segmentsOf width skSeed adrs digest) digest adrs'
  have climbed (segments : List (Bytes × UInt32)) :
      climbedRoots H p adrs' 0 segments = climbedRoots H p adrs 0 segments := by
    simp only [climbedRoots, climbed_congr alike]
  rw [blocks_segmentsOf width, climbed, climbedRoots_segmentsOf sound width,
    compress_congr alike] at reached
  exact ⟨left, reached⟩

/-- The segment of a tree is the secret of the leaf that the digest selects, in front of the nodes
beside the way up. -/
theorem slice_segmentsOf (sound : p.Sound) (width : H.n = p.n.toNat) (skSeed : Bytes)
    (adrs : Address) (digest : Bytes) {tree : Nat} (inside : tree < p.k.toNat) :
    Bytes.slice (tree * ((p.a.toNat + 1) * p.n.toNat)) ((p.a.toNat + 1) * p.n.toNat)
        (segmentsOf H p skSeed adrs digest).flatten =
      (Plain.forestSegment H p skSeed adrs tree
        (Bytes.field digest (tree * p.a.toNat) p.a.toNat)).encode := by
  rw [Bytes.slice_flatten (fun segment => length_of_mem_segmentsOf width)
    (getElem?_segmentsOf sound skSeed adrs digest inside), Plain.forestSegment_eq]
  rfl

/-- The tree of a segment, with one address handed on from leaf to leaf, from every address that is
alike. -/
theorem buildTreeOver_eq_ok (sound : p.Sound) (width : H.n = p.n.toNat) (skSeed : Bytes)
    (alike : adrs'.Alike adrs) {tree : Nat} (inside : tree < p.k.toNat) {leafIndex : UInt32}
    (leaf_lt : leafIndex.toNat < 2 ^ p.a.toNat) (room : Option Nat)
    (asked : ∀ length, room = some length → length = p.a.toNat * p.n.toNat) :
    ∃ left, buildTreeOver H p skSeed adrs' tree leafIndex room =
      .ok ⟨rootOf H p skSeed adrs tree, if room.isSome then
        (Plain.forestSegment H p skSeed adrs tree leafIndex.toNat).path.flatten else [], left⟩ := by
  obtain ⟨left, built, -⟩ := buildTree_eq (H := H) sound width skSeed adrs' inside leaf_lt room asked
  rw [rootOf_congr alike, pathOf, leafOf_congr alike, MerkleTree.pathFrom_congr alike, ← pathOf]
    at built
  exact ⟨left, by rw [buildTreeOver_eq, built, Plain.forestSegment_eq]⟩

/-- The segments of a digest lead to the public value, which is the same for all digests. Key
generation and signing return it, and following the segments returns it, from every address of the
same forest, whatever height and index it holds. Segment `j` is that of leaf `i` of tree `j`, where
`i` is read from the bits of the digest behind those of the trees before; a digest that is too short
goes on with zeros. No leaf of the forest has a number outside 32 bits. The public value is made from
the roots of the trees, and a tree has the same root and path if one address is handed on from leaf
to leaf. Another length is refused on both sides. No buffer has more than `maxBuffer` bytes. -/
theorem segments_lead_to_public_value (p : Params) (accepted : p.check = .ok ())
    (H : TweakableHash) (width : H.n = p.n.toNat) (skSeed : Bytes) (adrs : Address) :
    ∃ (size : Nat) (value : Bytes) (roots : Nat → Bytes),
      p.forestSize = .ok size ∧
      value = compress H adrs ((List.range p.k.toNat).map roots) ∧
      (∀ adrs' : Address, adrs'.bytes.take 24 = adrs.bytes.take 24 →
        (∃ left, publicKey H p skSeed adrs' = .ok (value, left)) ∧
        ∀ tree < p.k.toNat, ∃ left,
          buildTreeOver H p skSeed adrs' tree 0 none = .ok ⟨roots tree, [], left⟩) ∧
      (∀ digest : Bytes, ∃ signature : Bytes,
        (∃ left, sign H p digest skSeed adrs size = .ok ⟨signature, value, left⟩) ∧
        (∀ adrs' : Address, adrs'.bytes.take 24 = adrs.bytes.take 24 →
          ∃ left, publicKeyOf H p signature digest adrs' = .ok (value, left)) ∧
        signature.length = size ∧
        ∀ tree < p.k.toNat,
          tree * 2 ^ p.a.toNat + Bytes.field digest (tree * p.a.toNat) p.a.toNat < 2 ^ 32 ∧
          Bytes.slice (tree * ((p.a.toNat + 1) * p.n.toNat)) ((p.a.toNat + 1) * p.n.toNat)
              signature =
            (Plain.forestSegment H p skSeed adrs tree
              (Bytes.field digest (tree * p.a.toNat) p.a.toNat)).encode ∧
          ∀ adrs' : Address, adrs'.bytes.take 24 = adrs.bytes.take 24 →
            ∃ left, buildTreeOver H p skSeed adrs' tree
                (UInt32.ofNat (Bytes.field digest (tree * p.a.toNat) p.a.toNat))
                (some (p.a.toNat * p.n.toNat)) =
              .ok ⟨roots tree, (Plain.forestSegment H p skSeed adrs tree
                (Bytes.field digest (tree * p.a.toNat) p.a.toNat)).path.flatten, left⟩) ∧
      (∀ (digest : Bytes), ∀ room ≤ maxBuffer, room ≠ size → sign H p digest skSeed adrs room =
        refuse (.invalidLength "FORS signature" size room)) ∧
      ∀ digest signature : Bytes, signature.length ≠ size →
        publicKeyOf H p signature digest adrs =
          refuse (.invalidLength "FORS signature" size signature.length) := by
  have sound := Params.sound_of_check accepted
  refine ⟨_, publicValue H p skSeed adrs, rootOf H p skSeed adrs, sound.forestSize_eq, rfl, ?_, ?_,
    ?_, ?_⟩
  · intro adrs' same
    have alike := Address.alike_of_take same
    obtain ⟨left, generated, -⟩ := publicKey_eq (H := H) sound width skSeed adrs'
    rw [publicValue_congr alike] at generated
    refine ⟨⟨left, generated⟩, fun tree inside => ?_⟩
    exact buildTreeOver_eq_ok sound width skSeed alike inside (Nat.two_pow_pos _) none (by simp)
  · intro digest
    obtain ⟨left, signed, -⟩ := sign_eq (H := H) sound width digest skSeed adrs
    refine ⟨_, ⟨left, signed⟩, fun adrs' same => ?_,
      length_flatten_segmentsOf width skSeed adrs digest, fun tree inside => ⟨?_, ?_, ?_⟩⟩
    · exact publicKeyOf_segmentsOf sound width skSeed digest (Address.alike_of_take same)
    · have ends := firstLeaf_add_le sound inside
      have selected := Bytes.field_lt digest (tree * p.a.toNat) p.a.toNat
      rw [firstLeaf] at ends
      omega
    · exact slice_segmentsOf sound width skSeed adrs digest inside
    · intro adrs' same
      have selected := Bytes.field_lt digest (tree * p.a.toNat) p.a.toNat
      have small := toNat_ofNat_leaf sound selected
      obtain ⟨left, built⟩ := buildTreeOver_eq_ok (H := H) sound width skSeed
        (Address.alike_of_take same) inside (small ▸ selected) (some (p.a.toNat * p.n.toNat))
        (fun length asked => (Option.some.inj asked).symm)
      rw [small] at built
      exact ⟨left, built⟩
  · intro digest room fits other
    exact sign_of_ne sound digest skSeed adrs fits other
  · intro digest signature other
    exact publicKeyOf_of_ne sound digest adrs other

/-- Five trees of height 2 under a digest of one byte, which ends in front of the last tree; the
forest of an address, and the same with another height and index. -/
theorem segments_lead_to_public_value_short :
    (Params.ofBase .shake 16 4 2 2 5).check = .ok () ∧
    (Params.ofBase .shake 16 4 2 2 5).forestSize = .ok 240 ∧
    ∃ value signature root : Bytes,
      (∃ left, publicKey (.shake 16 (Bytes.zeros 16)) (.ofBase .shake 16 4 2 2 5) []
        (Address.zero.setLast 7 9) = .ok (value, left)) ∧
      (∃ left, sign (.shake 16 (Bytes.zeros 16)) (.ofBase .shake 16 4 2 2 5) [0xE4] [] .zero 240 =
        .ok ⟨signature, value, left⟩) ∧
      (∃ left, publicKeyOf (.shake 16 (Bytes.zeros 16)) (.ofBase .shake 16 4 2 2 5) signature [0xE4]
        (Address.zero.setLast 7 9) = .ok (value, left)) ∧
      Bytes.slice 0 48 signature = (Plain.forestSegment (.shake 16 (Bytes.zeros 16))
        (.ofBase .shake 16 4 2 2 5) [] .zero 0 3).encode ∧
      Bytes.slice 192 48 signature = (Plain.forestSegment (.shake 16 (Bytes.zeros 16))
        (.ofBase .shake 16 4 2 2 5) [] .zero 4 0).encode ∧
      (∃ left, buildTreeOver (.shake 16 (Bytes.zeros 16)) (.ofBase .shake 16 4 2 2 5) []
        (Address.zero.setLast 7 9) 4 0 (some 32) =
          .ok ⟨root, (Plain.forestSegment (.shake 16 (Bytes.zeros 16)) (.ofBase .shake 16 4 2 2 5) []
            .zero 4 0).path.flatten, left⟩) ∧
      publicKeyOf (.shake 16 (Bytes.zeros 16)) (.ofBase .shake 16 4 2 2 5) [] [0xE4] .zero =
        refuse (.invalidLength "FORS signature" 240 0) := by
  have sized : (Params.ofBase .shake 16 4 2 2 5).forestSize = .ok 240 := rfl
  obtain ⟨size, value, roots, sized', -, generated, signs, -, short⟩ :=
    segments_lead_to_public_value (.ofBase .shake 16 4 2 2 5) rfl (.shake 16 (Bytes.zeros 16)) rfl
      [] .zero
  obtain rfl : 240 = size := Except.ok.inj (sized.symm.trans sized')
  obtain ⟨signature, signed, led, -, segments⟩ := signs [0xE4]
  obtain ⟨-, last, built⟩ := segments 4 (by decide)
  exact ⟨rfl, rfl, value, signature, roots 4, (generated _ rfl).1, signed, led _ rfl,
    (segments 0 (by decide)).2.1, last, built _ rfl, short [0xE4] [] (by decide)⟩

end Forest

end HashSignature
