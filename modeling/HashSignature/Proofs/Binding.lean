/-
# HashSignature.Proofs.Binding — a root binds its leaves, a one-time key its messages

Whoever recomputes a root from a leaf and a path, or a one-time key from a message and a signature,
learns that these are what the root or the key was made for, up to a collision. Both are statements
on two runs that start from one address and lead to one value: the runs are compared from that value
back, through the calls that they make.

A path leaves no other way out. A one-time signature does: the chains of the second run may be
entered below those of the first, and the checksum only says that this happens somewhere if the
messages differ.

* `MerkleTree.root_binds_leaf` — one root at one position has one leaf and one path, or on some
  level the two runs hash different pairs to one node.
* `OneTime.key_binds_message` — one key has one message and one signature, or steps or compressions
  of the two runs collide, or the second signature leads up to the first.
-/
import HashSignature.Proofs.Tamper

namespace HashSignature

set_option autoImplicit false

open Outcome

variable {H : TweakableHash} {adrs : Address}

/-! ## Paths -/

namespace MerkleTree

/-- The address of the node that a path leads to above a level. -/
def aboveAddress (adrs : Address) (offset leafIndex : UInt32) (level : Nat) : Address :=
  (adrs.setTreeHeight (UInt32.ofNat (level + 1))).setTreeIndex
    (UInt32.ofNat ((offset.toNat + leafIndex.toNat) / 2 ^ (level + 1)))

/-- The calls that two runs make on a level hash different pairs to one node, under one address. -/
def CollideAt (H : TweakableHash) (calls calls' : List HashCall) (level : Nat)
    (nodeAdrs : Address) : Prop :=
  ∃ left right left' right',
    calls[level]? = some (.h nodeAdrs left right) ∧
      calls'[level]? = some (.h nodeAdrs left' right') ∧ (left, right) ≠ (left', right') ∧
        H.h nodeAdrs left right = H.h nodeAdrs left' right'

/-- A call of an ascent hashes a pair, under the address of the node above its level. -/
theorem eq_of_getElem?_ascentCalls {offset leafIndex level z : Nat} {node : Bytes}
    {path : List Bytes} {c : HashCall}
    (at_level : (ascentCalls H adrs offset leafIndex level node path)[z]? = some c) :
    z < path.length ∧ ∃ left right, c = .h (adrs.setLast (UInt32.ofNat (level + z + 1))
      (UInt32.ofNat ((offset + leafIndex) / 2 ^ (level + z + 1)))) left right := by
  induction path generalizing level node z with
  | nil => cases at_level
  | cons beside path ih =>
      cases z with
      | zero =>
          obtain rfl := Option.some.inj at_level
          refine ⟨Nat.succ_pos _, ?_⟩
          rw [ascentCall]
          split
          · exact ⟨_, _, rfl⟩
          · exact ⟨_, _, rfl⟩
      | succ z =>
          obtain ⟨inside, pair⟩ := ih at_level
          rw [show level + 1 + z = level + (z + 1) by omega] at pair
          exact ⟨Nat.succ_lt_succ inside, pair⟩

/-- Two climbs to one root start from one leaf with one path, or collide on some level. -/
theorem ascent_binds_level {offset leafIndex : UInt32} {leaf leaf' : Bytes}
    {path path' : List Bytes} (count : path.length = path'.length)
    (same : ascent H adrs offset.toNat leafIndex.toNat 0 leaf path =
      ascent H adrs offset.toNat leafIndex.toNat 0 leaf' path') :
    (leaf = leaf' ∧ path = path') ∨ ∃ z < path.length,
      CollideAt H (ascentCalls H adrs offset.toNat leafIndex.toNat 0 leaf path)
        (ascentCalls H adrs offset.toNat leafIndex.toNat 0 leaf' path') z
        (aboveAddress adrs offset leafIndex z) := by
  rcases ascent_binds count same with equal | ⟨z, c, c', at_level, at_level', collide⟩
  · exact .inl equal
  · obtain ⟨inside, left, right, rfl⟩ := eq_of_getElem?_ascentCalls at_level
    obtain ⟨-, left', right', rfl⟩ := eq_of_getElem?_ascentCalls at_level'
    rw [Nat.zero_add] at at_level at_level' collide
    cases collide with
    | h ne same =>
        exact .inr ⟨z, inside, left, right, left', right', at_level, at_level', ne, same⟩

/-- A root binds the leaf at a position and its path. From a leaf and a path of the right lengths,
at a position in a tree that ends within the numbering, a run gives a root. If two runs at one
position give one root, they have the same leaf and the same path, or on some level they hash
different pairs to one node, under the same address. -/
theorem root_binds_leaf (H : TweakableHash) (pos : 0 < H.n) (small : H.n ≤ 32) (adrs : Address)
    (height : Nat) (low : height ≤ 31) (offset leafIndex : UInt32)
    (inside : leafIndex.toNat < 2 ^ height) (ends : offset.toNat + 2 ^ height ≤ 2 ^ 32)
    (leaf leaf' path path' : Bytes) (length : leaf.length = H.n) (length' : leaf'.length = H.n)
    (path_length : path.length = height * H.n) (path_length' : path'.length = height * H.n) :
    ∃ root root' left left',
      rootOf H adrs height offset leafIndex leaf path = .ok (root, left) ∧
      rootOf H adrs height offset leafIndex leaf' path' = .ok (root', left') ∧
      (rootOfProgram H.n adrs height offset leafIndex leaf path).answer H = .ok (root, left) ∧
      (rootOfProgram H.n adrs height offset leafIndex leaf' path').answer H = .ok (root', left') ∧
      (root = root' → (leaf = leaf' ∧ path = path') ∨ ∃ z < height,
        CollideAt H ((rootOfProgram H.n adrs height offset leafIndex leaf path).calls H)
          ((rootOfProgram H.n adrs height offset leafIndex leaf' path').calls H) z
          (aboveAddress adrs offset leafIndex z)) := by
  obtain ⟨left, reached, -⟩ := rootOf_eq (H := H) offset leafIndex leaf path low inside ends pos
    small length path_length adrs
  obtain ⟨left', reached', -⟩ := rootOf_eq (H := H) offset leafIndex leaf' path' low inside ends pos
    small length' path_length' adrs
  refine ⟨_, _, left, left', reached, reached', (answer_rootOfProgram ..).trans reached,
    (answer_rootOfProgram ..).trans reached', fun same => ?_⟩
  rw [calls_rootOfProgram offset leafIndex leaf path low inside ends pos small length path_length,
    calls_rootOfProgram offset leafIndex leaf' path' low inside ends pos small length' path_length']
  rcases ascent_binds_level (by rw [Bytes.length_blocks, Bytes.length_blocks]) same with
    ⟨leaves, blocks⟩ | ⟨z, below, collide⟩
  · exact .inl ⟨leaves, Bytes.eq_of_blocks_eq path_length path_length' blocks⟩
  · rw [Bytes.length_blocks] at below
    exact .inr ⟨z, below, collide⟩

/-- Two leaves at the last position of the numbering with one root: the digests there are constant.
-/
theorem root_binds_leaf_constant :
    ∃ z < 2, CollideAt Signing.constantHash
      ((rootOfProgram 16 .zero 2 4294967292 3 (Bytes.zeros 16) (Bytes.zeros 32)).calls
        Signing.constantHash)
      ((rootOfProgram 16 .zero 2 4294967292 3 (List.replicate 16 1) (Bytes.zeros 32)).calls
        Signing.constantHash) z (aboveAddress .zero 4294967292 3 z) := by
  obtain ⟨root, root', left, left', reached, reached', -, -, binds⟩ :=
    root_binds_leaf Signing.constantHash (by decide) (by decide) .zero 2 (by decide) 4294967292 3
      (by decide) (by decide) (Bytes.zeros 16) (List.replicate 16 1) (Bytes.zeros 32)
      (Bytes.zeros 32) rfl rfl rfl rfl
  have runs : rootOf Signing.constantHash .zero 2 4294967292 3 (Bytes.zeros 16) (Bytes.zeros 32) =
      rootOf Signing.constantHash .zero 2 4294967292 3 (List.replicate 16 1) (Bytes.zeros 32) := rfl
  have same : root = root' :=
    congrArg Prod.fst (Except.ok.inj (reached.symm.trans (runs.trans reached')))
  rcases binds same with ⟨leaves, -⟩ | collide
  · exact absurd leaves (by decide)
  · exact collide

end MerkleTree

/-! ## One-time signatures -/

namespace OneTime

open Winternitz

/-- Two runs take a step from two blocks to one, or compress two rows of blocks to one, under one
address. -/
def StepsCollide (H : TweakableHash) (calls calls' : List HashCall) : Prop :=
  (∃ adrs block block', .f adrs block ∈ calls ∧ .f adrs block' ∈ calls' ∧ block ≠ block' ∧
    H.f adrs block = H.f adrs block') ∨
  ∃ adrs blocks blocks', .t adrs blocks ∈ calls ∧ .t adrs blocks' ∈ calls' ∧ blocks ≠ blocks' ∧
    H.t adrs blocks = H.t adrs blocks'

/-- In some chain the digit of the second message is below that of the first, and the chain leads
from the block of the second signature in just as many steps to the block of the first. -/
def LeadsUp (H : TweakableHash) (adrs : Address) (signature message signature' message' : Bytes) :
    Prop :=
  ∃ (digits digits' : List UInt32) (i : Nat) (digit digit' : UInt32),
    Winternitz.digits (2 * H.n + 3) message = .ok digits ∧
      Winternitz.digits (2 * H.n + 3) message' = .ok digits' ∧
    digits[i]? = some digit ∧ digits'[i]? = some digit' ∧ digit' < digit ∧
    ∃ left, chain H (adrs.setChain (UInt32.ofNat i)) (Bytes.slice (i * H.n) H.n signature') digit'
      (digit - digit') = .ok (Bytes.slice (i * H.n) H.n signature, left)

theorem eq_f_of_mem_chainCalls {index : UInt32} {steps start : Nat} {block : Bytes} {c : HashCall}
    (member : c ∈ chainCalls H adrs index steps start block) : ∃ stepAdrs x, c = .f stepAdrs x := by
  induction steps generalizing start block with
  | zero => cases member
  | succ steps ih =>
      rcases List.mem_cons.1 member with rfl | later
      · exact ⟨_, _, rfl⟩
      · exact ih later

/-- Completing a one-time signature takes steps and compresses, and hashes no pair of nodes. -/
theorem ne_h_of_mem_completionCalls {blocks : List Bytes} {digits : List UInt32}
    {nodeAdrs : Address} {left right : Bytes} :
    HashCall.h nodeAdrs left right ∉ completionCalls H adrs blocks digits := by
  intro member
  rcases List.mem_append.1 member with step | compression
  · obtain ⟨_, -, inside⟩ := List.mem_flatMap.1 step
    obtain ⟨_, _, impossible⟩ := eq_f_of_mem_chainCalls inside
    cases impossible
  · cases List.mem_singleton.1 compression

theorem stepsCollide_of_collision {blocks blocks' : List Bytes} {digits digits' : List UInt32}
    (met : Collision H (completionCalls H adrs blocks digits)
      (completionCalls H adrs blocks' digits')) :
    StepsCollide H (completionCalls H adrs blocks digits)
      (completionCalls H adrs blocks' digits') := by
  obtain ⟨c, member, c', member', collide⟩ := met
  cases collide with
  | f ne same => exact .inl ⟨_, _, _, member, member', ne, same⟩
  | h ne same => exact absurd member ne_h_of_mem_completionCalls
  | t ne same => exact .inr ⟨_, _, _, member, member', ne, same⟩

/-- A chain that is entered below leads up to the block of the first signature, as it is walked. -/
theorem leadsUp_of_undercuts (le : H.n ≤ Params.maxDigest)
    {signature message signature' message' : Bytes}
    (length' : signature'.length = (2 * H.n + 3) * H.n)
    (undercuts : Undercuts H adrs (Bytes.blocks H.n (2 * H.n + 3) signature)
      (signedDigits (2 * H.n + 3) message) (Bytes.blocks H.n (2 * H.n + 3) signature')
      (signedDigits (2 * H.n + 3) message')) :
    LeadsUp H adrs signature message signature' message' := by
  obtain ⟨i, block, block', digit, digit', revealed, at_digit, revealed', at_digit', lower,
    leads⟩ := undercuts
  have few := signed_le_maxChains le
  have small := le_of_mem_signedDigits few (List.mem_of_getElem? at_digit)
  have full := Bytes.length_of_mem_blocks (Nat.le_of_eq length'.symm)
    (List.mem_of_getElem? revealed')
  have walked := chain_of_leads lower small leads full
  rw [← (Bytes.getElem?_blocks_eq_some.1 revealed).2,
    ← (Bytes.getElem?_blocks_eq_some.1 revealed').2] at walked
  exact ⟨_, _, i, digit, digit', digits_eq (Nat.le_add_left _ _) few message,
    digits_eq (Nat.le_add_left _ _) few message', at_digit, at_digit', lower, walked⟩

/-- A one-time key binds the message and its signature. From a message and a signature of the right
lengths a run recovers a key. If two runs with different inputs recover one key, then two of their
steps or their compressions collide, or the messages differ and the second signature leads up to the
first. -/
theorem key_binds_message (H : TweakableHash) (pos : 0 < H.n) (le : H.n ≤ 32) (adrs : Address)
    (message message' signature signature' : Bytes) (length : message.length = H.n)
    (length' : message'.length = H.n) (full : signature.length = (2 * H.n + 3) * H.n)
    (full' : signature'.length = (2 * H.n + 3) * H.n)
    (distinct : (message, signature) ≠ (message', signature')) :
    ∃ key key' left left',
      publicKeyOf H (2 * H.n + 3) signature message adrs = .ok (key, left) ∧
      publicKeyOf H (2 * H.n + 3) signature' message' adrs = .ok (key', left') ∧
      (publicKeyOfProgram H.n (2 * H.n + 3) signature message adrs).answer H = .ok (key, left) ∧
      (publicKeyOfProgram H.n (2 * H.n + 3) signature' message' adrs).answer H = .ok (key', left') ∧
      (key = key' →
        StepsCollide H ((publicKeyOfProgram H.n (2 * H.n + 3) signature message adrs).calls H)
          ((publicKeyOfProgram H.n (2 * H.n + 3) signature' message' adrs).calls H) ∨
        (message ≠ message' ∧ LeadsUp H adrs signature message signature' message')) := by
  have enough : Params.checksumDigits ≤ 2 * H.n + 3 := Nat.le_add_left _ _
  have few := signed_le_maxChains le
  have reaches := Nat.le_of_eq full.symm
  have reaches' := Nat.le_of_eq full'.symm
  obtain ⟨left, recovered, -⟩ := publicKeyOf_eq (H := H) enough few pos le signature reaches message
    adrs
  obtain ⟨left', recovered', -⟩ := publicKeyOf_eq (H := H) enough few pos le signature' reaches'
    message' adrs
  refine ⟨_, _, left, left', recovered, recovered', (answer_publicKeyOfProgram ..).trans recovered,
    (answer_publicKeyOfProgram ..).trans recovered', fun same => ?_⟩
  rw [calls_publicKeyOfProgram enough few pos le signature reaches message adrs,
    calls_publicKeyOfProgram enough few pos le signature' reaches' message' adrs]
  rcases completion_binds rfl le length length' (Bytes.length_blocks ..) (Bytes.length_blocks ..)
    (fun _ => Bytes.length_of_mem_blocks reaches) (fun _ => Bytes.length_of_mem_blocks reaches')
    same with ⟨blocks, rfl⟩ | met | ⟨messages, undercuts⟩
  · obtain rfl := Bytes.eq_of_blocks_eq full full' blocks
    exact absurd rfl distinct
  · exact .inl (stepsCollide_of_collision met)
  · exact .inr ⟨messages, leadsUp_of_undercuts le full' undercuts⟩

/-- With constant digests every signature recovers one key: two signatures of one message collide,
and so do signatures of two messages, or the second leads up to the first. -/
theorem key_binds_message_constant :
    StepsCollide Signing.constantHash
        ((publicKeyOfProgram 16 35 (Bytes.zeros 560) (Bytes.zeros 16) .zero).calls
          Signing.constantHash)
        ((publicKeyOfProgram 16 35 (List.replicate 560 1) (Bytes.zeros 16) .zero).calls
          Signing.constantHash) ∧
      (StepsCollide Signing.constantHash
          ((publicKeyOfProgram 16 35 (Bytes.zeros 560) (Bytes.zeros 16) .zero).calls
            Signing.constantHash)
          ((publicKeyOfProgram 16 35 (Bytes.zeros 560) (List.replicate 16 1) .zero).calls
            Signing.constantHash) ∨
        (Bytes.zeros 16 ≠ List.replicate 16 1 ∧ LeadsUp Signing.constantHash .zero (Bytes.zeros 560)
          (Bytes.zeros 16) (Bytes.zeros 560) (List.replicate 16 1))) := by
  have constant {message signature key : Bytes} {left : Address}
      (full : signature.length = 560)
      (recovered : publicKeyOf Signing.constantHash 35 signature message .zero = .ok (key, left)) :
      key = Bytes.zeros 16 := by
    obtain ⟨left', value, -⟩ := publicKeyOf_eq (H := Signing.constantHash)
      (show Params.checksumDigits ≤ 35 by decide) (by decide) (by decide) (by decide) signature
      (Nat.le_of_eq full.symm) message .zero
    exact congrArg Prod.fst (Except.ok.inj (recovered.symm.trans value))
  have zeros : (Bytes.zeros 560).length = 560 := Bytes.length_zeros 560
  have ones : (List.replicate 560 (1 : UInt8)).length = 560 := List.length_replicate
  have differ : Bytes.zeros 560 ≠ List.replicate 560 1 := by
    intro same
    exact absurd (congrArg List.head? same) (by decide)
  constructor
  · obtain ⟨key, key', left, left', recovered, recovered', -, -, binds⟩ := key_binds_message
      Signing.constantHash (by decide) (by decide) .zero (Bytes.zeros 16) (Bytes.zeros 16) _ _
      rfl rfl zeros ones (fun same => differ (congrArg Prod.snd same))
    have same := (constant zeros recovered).trans (constant ones recovered').symm
    exact (binds same).resolve_right fun other => other.1 rfl
  · obtain ⟨key, key', left, left', recovered, recovered', -, -, binds⟩ := key_binds_message
      Signing.constantHash (by decide) (by decide) .zero (Bytes.zeros 16) (List.replicate 16 1) _ _
      rfl rfl zeros zeros (fun same => absurd (congrArg Prod.fst same) (by decide))
    exact binds ((constant zeros recovered).trans (constant zeros recovered').symm)

end OneTime

end HashSignature
