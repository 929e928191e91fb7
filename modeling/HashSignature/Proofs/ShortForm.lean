/-
# HashSignature.Proofs.ShortForm — the short form loses nothing that is used

The short form of an address leaves out ten of its 32 bytes. Seven of them are zero in every address
that setters can reach: the four between layer and tree, and three of the kind. The other three are
the upper bytes of the layer, and an instance has too few layers to need them, though nothing checks
their number itself: it is bounded by the bits that are left for the number of a tree.

* `compressed_eq_iff` — two short forms are equal if and only if the addresses agree in all fields,
  the layers up to their lowest byte.
* `Address.Below` — an address that setters reach, with a layer below a bound. The calls of key
  generation, signing and verification are all under such addresses (`Signing.Makes.below`).
* `Signing.answers` — the programs that make these calls answer as the operations do.
* `short_form_keeps_what_is_used` — so the short form tells all addresses of an instance apart.
-/
import HashSignature.Proofs.AddressHistory
import HashSignature.Proofs.Tags
import HashSignature.Proofs.Tamper

namespace HashSignature

set_option autoImplicit false

open Outcome HashProgram

variable {H : TweakableHash} {p : Params} {bound : Nat}

/-! ## What the short form tells apart -/

namespace Address

/-- Two addresses agree in everything but the upper bytes of the layer. -/
structure AgreeInShort (a b : Address) : Prop where
  layer : a.layer.toNat % 256 = b.layer.toNat % 256
  tree : a.tree = b.tree
  kind : a.type? = b.type?
  keyPair : a.keyPair = b.keyPair
  chain : a.chain = b.chain
  hash : a.hash = b.hash

/-- Two short forms are equal if and only if the addresses agree in all fields, the layers up to
their lowest byte. -/
theorem compressed_eq_iff (updates others : List Update) :
    (after updates).compressed = (after others).compressed ↔
      AgreeInShort (after updates) (after others) := by
  rw [← Fields.encode_after, ← Fields.encode_after, Fields.compressed_encode,
    Fields.compressed_encode, Fields.short_eq_iff]
  constructor
  · rintro ⟨layer, tree, kind, keyPair, high, low⟩
    constructor
    case layer => rwa [Fields.layer_encode, Fields.layer_encode]
    case tree => rwa [Fields.tree_encode, Fields.tree_encode]
    case kind => rw [Fields.type?_encode, Fields.type?_encode, kind]
    case keyPair => rwa [Fields.keyPair_encode, Fields.keyPair_encode]
    case chain => rwa [Fields.chain_encode, Fields.chain_encode]
    case hash => rwa [Fields.hash_encode, Fields.hash_encode]
  · rintro ⟨layer, tree, kind, keyPair, high, low⟩
    rw [Fields.layer_encode, Fields.layer_encode] at layer
    rw [Fields.tree_encode, Fields.tree_encode] at tree
    rw [Fields.type?_encode, Fields.type?_encode] at kind
    rw [Fields.keyPair_encode, Fields.keyPair_encode] at keyPair
    rw [Fields.chain_encode, Fields.chain_encode] at high
    rw [Fields.hash_encode, Fields.hash_encode] at low
    exact ⟨layer, tree, Option.some.inj kind, keyPair, high, low⟩

/-- Layers that fit one byte are kept whole, and then the whole address is. -/
theorem eq_of_compressed_eq {updates others : List Update}
    (low : (after updates).layer.toNat < 256) (low' : (after others).layer.toNat < 256)
    (same : (after updates).compressed = (after others).compressed) :
    after updates = after others := by
  rw [← Fields.encode_after updates] at low same ⊢
  rw [← Fields.encode_after others] at low' same ⊢
  rw [Fields.layer_encode] at low low'
  rw [Fields.eq_of_compressed_eq low low' same]

/-! ## Addresses with a layer below a bound -/

/-- Setters reach the address, and its layer is below a bound. -/
def Below (bound : Nat) (adrs : Address) : Prop :=
  ∃ fields : Fields, adrs = fields.encode ∧ fields.layer.toNat < bound

namespace Below

variable {adrs : Address}

theorem layer_lt (below : Below bound adrs) : adrs.layer.toNat < bound := by
  obtain ⟨fields, rfl, low⟩ := below
  rwa [Fields.layer_encode]

/-- The setters that write all fields of a record lead to its address. -/
theorem reached (below : Below bound adrs) : ∃ updates, adrs = after updates := by
  obtain ⟨fields, rfl, -⟩ := below
  refine ⟨[.layer fields.layer, .tree fields.tree, .type fields.kind, .keyPair fields.keyPair,
    .chain fields.high, .hash fields.low], ?_⟩
  rw [← Fields.encode_after]
  rfl

theorem setType (below : Below bound adrs) (kind : AddressType) :
    Below bound (adrs.setType kind) := by
  obtain ⟨fields, rfl, low⟩ := below
  exact ⟨_, fields.encode_setType kind, low⟩

theorem setKeyPair (below : Below bound adrs) (keyPair : UInt32) :
    Below bound (adrs.setKeyPair keyPair) := by
  obtain ⟨fields, rfl, low⟩ := below
  exact ⟨_, fields.encode_setKeyPair keyPair, low⟩

theorem setLast (below : Below bound adrs) (high low : UInt32) :
    Below bound (adrs.setLast high low) := by
  obtain ⟨fields, rfl, inside⟩ := below
  exact ⟨_, fields.encode_setLast high low, inside⟩

end Below

end Address

open Address

/-! ## The calls of a verification -/

section Verification

variable {adrs : Address} {c : HashCall}

theorem OneTime.below_chainCalls (below : Below bound adrs) {index : UInt32} {steps start : Nat}
    {block : Bytes} (member : c ∈ chainCalls H adrs index steps start block) :
    Below bound c.adrs := by
  induction steps generalizing start block with
  | zero => exact absurd member List.not_mem_nil
  | succ steps ih =>
      rcases List.mem_cons.1 member with rfl | later
      · exact below.setLast _ _
      · exact ih later

theorem OneTime.below_completionCalls (below : Below bound adrs) {blocks : List Bytes}
    {digits : List UInt32} (member : c ∈ completionCalls H adrs blocks digits) :
    Below bound c.adrs := by
  rcases List.mem_append.1 member with walking | compressing
  · obtain ⟨revealed, -, walking⟩ := List.mem_flatMap.1 walking
    exact below_chainCalls below walking
  · obtain rfl := List.mem_singleton.1 compressing
    exact (below.setType _).setKeyPair _

theorem MerkleTree.below_ascentCalls (below : Below bound adrs) {offset leafIndex level : Nat}
    {node : Bytes} {path : List Bytes}
    (member : c ∈ ascentCalls H adrs offset leafIndex level node path) : Below bound c.adrs := by
  induction path generalizing level node with
  | nil => exact absurd member List.not_mem_nil
  | cons beside path ih =>
      rcases List.mem_cons.1 member with rfl | later
      · rw [ascentCall, apply_ite HashCall.adrs]
        exact (ite_self _).symm ▸ below.setLast _ _
      · exact ih later

theorem Layer.below_climbedCalls (below : Below bound adrs) {keyPair : UInt32}
    {segment message : Bytes} (member : c ∈ climbedCalls H p adrs keyPair segment message) :
    Below bound c.adrs := by
  rcases List.mem_append.1 member with completing | climbing
  · exact OneTime.below_completionCalls ((below.setType _).setKeyPair _) completing
  · exact MerkleTree.below_ascentCalls (below.setType _) climbing

theorem Layer.below_address {layer : Nat} (inside : layer < bound) (small : bound ≤ 2 ^ 32)
    (tree : UInt64) : Below bound (address (UInt32.ofNat layer) tree) := by
  refine ⟨⟨.ofNat layer, tree, .wotsHash, 0, 0, 0⟩, ?_, ?_⟩
  · simp [address, ← Fields.encode_none, Fields.none]
  · rwa [Tag.toNat_ofNat32 (Nat.lt_of_lt_of_le inside small)]

/-- The layers that are climbed are counted up from the first. -/
theorem Hypertree.below_climbedCallsFrom (small : bound ≤ 2 ^ 32) {tree : UInt64} {leaf : UInt32}
    {segments : List Bytes} {layer : Nat} (inside : layer + segments.length ≤ bound) {node : Bytes}
    (member : c ∈ climbedCallsFrom H p tree leaf layer node segments) : Below bound c.adrs := by
  induction segments generalizing layer node with
  | nil => exact absurd member List.not_mem_nil
  | cons segment rest ih =>
      rw [List.length_cons] at inside
      rcases List.mem_append.1 member with here | above
      · exact Layer.below_climbedCalls (Layer.below_address (by omega) small _) here
      · exact ih (by omega) above

theorem Forest.below_climbedRootsCalls (below : Below bound adrs) {tree : Nat}
    {segments : List (Bytes × UInt32)} (member : c ∈ climbedRootsCalls H p adrs tree segments) :
    Below bound c.adrs := by
  obtain ⟨segment, -, member⟩ := List.mem_flatMap.1 member
  rcases List.mem_cons.1 member with rfl | climbing
  · exact below.setLast _ _
  · exact MerkleTree.below_ascentCalls below climbing

end Verification

/-! ## The calls of the scheme -/

namespace Signing

/-- A call that the scheme makes. A signature of another length is rejected before any call. -/
inductive Makes (H : TweakableHash) (p : Params) : HashCall → Prop
  | generatingOrSigning {skSeed : Bytes} {c : HashCall} (called : Called H p skSeed c) : Makes H p c
  | verifying {pkRoot message signature : Bytes} {c : HashCall}
    (full : p.signatureSize = .ok signature.length)
    (member : c ∈ (verificationProgram H p pkRoot message signature).calls H) : Makes H p c

/-- The programs that make these calls answer as the operations do: with the root, the signature and
the verdict that the operations compute, and that key generation, signing and verifying return. -/
structure Answers (H : TweakableHash) (p : Params) : Prop where
  root : ∀ skSeed, (rootProgram H.n p skSeed).answer H =
    Layer.root H p skSeed (UInt32.ofNat (p.d.toNat - 1)) 0
  signature : ∀ key message optRand, (messageProgram H p key message optRand).answer H =
    signWith H p key message optRand
  verdict : ∀ pkRoot message signature, (verificationProgram H p pkRoot message signature).answer H =
    verifyWith H p pkRoot message signature
  generated : ∀ skSeed skPrf pkSeed slot, p.hash pkSeed = .ok H →
    publicRoot p skSeed skPrf pkSeed = .ok slot →
      (rootProgram H.n p skSeed).answer H = .ok (slot.front p.n.toNat)
  signed : ∀ key message optRand signature, p.hash key.pkSeed = .ok H →
    sign p key message optRand = .ok signature →
      (messageProgram H p key message optRand).answer H = .ok signature
  verified : ∀ pkSeed pkRoot message signature, p.hash pkSeed = .ok H →
    verify p pkSeed pkRoot message signature = .ok true →
      (verificationProgram H p pkRoot message signature).answer H = .ok true

theorem answers (sound : p.Sound) : Answers H p where
  root skSeed := answer_rootProgram_eq sound skSeed
  signature key message optRand := answer_signProgram key message optRand
  verdict pkRoot message signature := answer_verifyProgram pkRoot message signature
  generated skSeed skPrf pkSeed slot hashed made :=
    (answer_rootProgram_eq sound skSeed).trans (root_of_publicRoot hashed made)
  signed key message optRand signature hashed made :=
    (answer_signProgram key message optRand).trans (signWith_of_sign hashed made)
  verified pkSeed pkRoot message signature hashed accepted := by
    obtain ⟨H', hashed', accepts⟩ := Accepts.of_verify accepted
    obtain rfl : H = H' := Except.ok.inj (hashed.symm.trans hashed')
    exact (answer_verifyProgram pkRoot message signature).trans accepts.verdict

/-- The forest stands below the lowest layer, whose number its address holds. -/
theorem below_forestAddress (layers : 0 < bound) (tree : UInt64) (leaf : UInt32) :
    Below bound (forestAddress tree leaf) := by
  refine ⟨⟨0, tree, .forsTree, leaf, 0, 0⟩, ?_, layers⟩
  simp [forestAddress, ← Fields.encode_none, Fields.none]

theorem below_bodyCalls (sound : p.Sound) {route : Route} {body : Bytes} {c : HashCall}
    (member : c ∈ bodyCalls H p route body) : Below p.d.toNat c.adrs := by
  have layers := sound.layers
  have few := sound.layers_le
  have below := below_forestAddress layers route.tree route.leaf
  rcases List.mem_append.1 member with forest | climbing
  · rcases List.mem_append.1 forest with climbing | compressing
    · exact Forest.below_climbedRootsCalls below climbing
    · obtain rfl := List.mem_singleton.1 compressing
      exact (below.setType _).setKeyPair _
  · refine Hypertree.below_climbedCallsFrom (by omega) ?_ climbing
    exact Nat.le_of_eq ((Nat.zero_add _).trans (Bytes.length_blocks _ _ _))

/-- The tag of a place names a layer of the instance. -/
theorem layer_tag_lt {place : Place} (legal : place.Legal p) :
    (place.tag p).layer < p.d.toNat := by
  cases place with
  | chainSecret => exact legal.1.1
  | chainStep => exact legal.1.1
  | oneTimeKey => exact legal.1.1
  | node => exact legal.1.1
  | forestSecret => exact legal.1.1
  | forestLeaf => exact legal.1.1
  | forestNode => exact legal.1.1
  | forestKey => exact legal.1.1

/-- All calls of an instance are under addresses of its layers. -/
theorem Makes.below (sound : p.Sound) (width : H.n = p.n.toNat) {c : HashCall}
    (makes : Makes H p c) : Below p.d.toNat c.adrs := by
  have few := sound.layers_le
  cases makes with
  | generatingOrSigning called =>
      obtain ⟨place, legal, rfl⟩ := called.inTable sound width
      have layer := layer_tag_lt legal
      refine ⟨_, place.adrs_call _, ?_⟩
      rwa [Tag.fields, Tag.toNat_ofNat32 (by omega)]
  | verifying full member =>
      rw [sound.signatureSize_eq, Except.ok.injEq] at full
      rw [calls_verifyProgram sound width (by rw [← full, bodyWidth, forestWidth, layerWidth]; omega)]
        at member
      exact below_bodyCalls sound member

end Signing

/-- Two addresses that setters reach have one short form if and only if they agree in all fields, the
layers up to their lowest byte; so with layers below 256 only if they are equal. An accepted instance
has at most 65 layers. Its key generation, signing and verification are programs, and every call of
theirs is made under an address that setters reach, with the number of one of these layers. So among
the addresses of an instance the short form loses nothing. -/
theorem short_form_keeps_what_is_used :
    (∀ updates others : List Update,
      (after updates).compressed = (after others).compressed ↔
        AgreeInShort (after updates) (after others)) ∧
    (∀ updates others : List Update, (after updates).layer.toNat < 256 →
      (after others).layer.toNat < 256 →
        (after updates).compressed = (after others).compressed → after updates = after others) ∧
    ∀ p : Params, p.check = .ok () → p.d.toNat ≤ 65 ∧
      ∀ H : TweakableHash, H.n = p.n.toNat → Signing.Answers H p ∧
        ∀ c, Signing.Makes H p c →
          ((∃ updates, c.adrs = after updates) ∧ c.adrs.layer.toNat < p.d.toNat) ∧
          ∀ c', Signing.Makes H p c' → c.adrs.compressed = c'.adrs.compressed →
            c.adrs = c'.adrs := by
  refine ⟨compressed_eq_iff, ?_, ?_⟩
  · intro updates others low low' same
    exact eq_of_compressed_eq low low' same
  · intro p accepted
    have sound := Params.sound_of_check accepted
    refine ⟨sound.layers_le, ?_⟩
    intro H width
    refine ⟨Signing.answers sound, fun c makes => ?_⟩
    have few := sound.layers_le
    have below := makes.below sound width
    have low := below.layer_lt
    refine ⟨⟨below.reached, low⟩, ?_⟩
    intro c' makes' same
    have below' := makes'.below sound width
    have low' := below'.layer_lt
    obtain ⟨updates, reached⟩ := below.reached
    obtain ⟨others, reached'⟩ := below'.reached
    rw [reached] at low same ⊢
    rw [reached'] at low' same ⊢
    exact eq_of_compressed_eq (by omega) (by omega) same

/-- A layer that needs a second byte is confused with one that does not, the largest that fits one
byte is not, and key generation makes a call on one of two layers, the one whose root it returns. -/
theorem short_form_keeps_what_is_used_two_layers :
    (after [.layer 256, .tree 7]).compressed = (after [.tree 7]).compressed ∧
    ¬ (after [.layer 255, .tree 7]).compressed = (after [.tree 7]).compressed ∧
    (Signing.rootProgram 16 (.ofBase .shake 16 4 2 2 3) (List.replicate 16 1)).answer
        (.shake 16 (Bytes.zeros 16)) =
      Layer.root (.shake 16 (Bytes.zeros 16)) (.ofBase .shake 16 4 2 2 3) (List.replicate 16 1) 1
        0 ∧
    ∃ c, Signing.Makes (.shake 16 (Bytes.zeros 16)) (.ofBase .shake 16 4 2 2 3) c ∧
      c.adrs.layer.toNat < 2 := by
  obtain ⟨agree, whole, calls⟩ := short_form_keeps_what_is_used
  obtain ⟨-, calls⟩ := calls (.ofBase .shake 16 4 2 2 3) rfl
  obtain ⟨answers, below⟩ := calls (.shake 16 (Bytes.zeros 16)) rfl
  refine ⟨?_, fun same => ?_, answers.root _, ?_⟩
  · exact (agree _ _).2 ⟨by decide, by decide, by decide, by decide, by decide, by decide⟩
  · exact absurd (whole _ _ (by decide) (by decide) same) (by decide)
  · obtain ⟨c, rest, made⟩ : ∃ c rest,
        (Signing.rootProgram (TweakableHash.shake 16 (Bytes.zeros 16)).n (.ofBase .shake 16 4 2 2 3)
          (List.replicate 16 1)).calls (.shake 16 (Bytes.zeros 16)) = c :: rest := ⟨_, _, rfl⟩
    have makes : Signing.Makes (.shake 16 (Bytes.zeros 16)) (.ofBase .shake 16 4 2 2 3) c :=
      .generatingOrSigning (.generating (made ▸ List.mem_cons_self))
    exact ⟨c, makes, (below c makes).1.2⟩

end HashSignature
