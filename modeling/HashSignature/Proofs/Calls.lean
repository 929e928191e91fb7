/-
# HashSignature.Proofs.Calls — which hash calls key generation and signing make

A key pair, a layer's tree and a forest each have a fixed set of calls: what is hashed under an
address follows from the secret seed. A signer makes some of these calls and no others, whatever it
signs. `Covers` says that a set of calls has room for all of them, and the lemmas of this file say
that the programs then stay inside that set.

* `OneTime.Covers`, `Layer.Covers`, `Forest.Covers` — the calls of a key pair, a tree, a forest.
* `stays_rootProgram`, `stays_signProgram` — key generation and signing stay inside a set that covers
  every layer's trees and every forest.
-/
import HashSignature.Proofs.Programs
import HashSignature.Proofs.Signing

namespace HashSignature

set_option autoImplicit false

open Outcome HashProgram

variable {H : TweakableHash} {S : HashCall → Prop} {adrs adrs' : Address} {p : Params}

/-! ## Key pairs -/

namespace OneTime

open Winternitz

/-- The call for the secret of a chain. -/
def secretCall (skSeed : Bytes) (adrs : Address) (chain : Nat) : HashCall :=
  .prf ((secretAddress adrs).setChain (UInt32.ofNat chain)) skSeed

/-- The call of a step of a chain, on the value that so many steps lead to from the secret. -/
def stepCall (H : TweakableHash) (skSeed : Bytes) (adrs : Address) (chain step : Nat) : HashCall :=
  .f (adrs.setLast (UInt32.ofNat chain) (UInt32.ofNat step))
    (chainValue H adrs (UInt32.ofNat chain) step 0 (secret H skSeed adrs (UInt32.ofNat chain)))

/-- The call that compresses the ends of all chains. -/
def keyCall (H : TweakableHash) (count : Nat) (skSeed : Bytes) (adrs : Address) : HashCall :=
  .t ((adrs.setType .wotsPk).setKeyPair adrs.keyPair)
    (blocksOf H skSeed adrs (List.replicate count maxDigit)).flatten

/-- A set of calls has those of a key pair of `count` chains. -/
structure Covers (S : HashCall → Prop) (H : TweakableHash) (count : Nat) (skSeed : Bytes)
    (adrs : Address) : Prop where
  secret : ∀ chain < count, S (secretCall skSeed adrs chain)
  step : ∀ chain < count, ∀ step < 15, S (stepCall H skSeed adrs chain step)
  key : S (keyCall H count skSeed adrs)

/-- The calls of a walk of some steps up a chain. -/
def chainCalls (H : TweakableHash) (adrs : Address) (index : UInt32) :
    (steps start : Nat) → Bytes → List HashCall
  | 0, _, _ => []
  | steps + 1, start, block =>
    let step : HashCall := .f (adrs.setLast index (UInt32.ofNat start)) block
    step :: chainCalls H adrs index steps (start + 1) (step.reply H)

@[simp] theorem length_chainCalls (index : UInt32) (steps start : Nat) (block : Bytes) :
    (chainCalls H adrs index steps start block).length = steps := by
  induction steps generalizing start block with
  | zero => rfl
  | succ steps ih => exact congrArg (· + 1) (ih _ _)

/-- A walk makes the calls of its steps, each on the value that the steps before it lead to. -/
theorem getElem?_chainCalls (index : UInt32) {steps step : Nat} (inside : step < steps)
    (start : Nat) (block : Bytes) : (chainCalls H adrs index steps start block)[step]? =
      some (.f (adrs.setLast index (UInt32.ofNat (start + step)))
        (chainValue H adrs index step start block)) := by
  induction steps generalizing start block step with
  | zero => exact absurd inside (Nat.not_lt_zero step)
  | succ steps ih =>
      cases step with
      | zero => rfl
      | succ step =>
          rw [chainCalls, List.getElem?_cons_succ, ih (Nat.lt_of_succ_lt_succ inside),
            show start + 1 + step = start + (step + 1) by omega]
          rfl

theorem chainCalls_congr (alike : adrs.Alike adrs') (index : UInt32) (steps start : Nat)
    (block : Bytes) :
    chainCalls H adrs index steps start block = chainCalls H adrs' index steps start block := by
  induction steps generalizing start block with
  | zero => rfl
  | succ steps ih => rw [chainCalls, chainCalls, alike.setLast, ih]

theorem calls_walkProgram {start index : UInt32} {steps : Nat} (block : Bytes)
    (fits : start.toNat + steps < 2 ^ 32)
    (at_chain : ∀ step, adrs.setHash step = adrs'.setLast index step) :
    (walkProgram steps start adrs block).calls H =
      chainCalls H adrs' index steps start.toNat block := by
  induction steps generalizing start adrs block with
  | zero => rfl
  | succ steps ih =>
      have next : (start + 1).toNat = start.toNat + 1 := by
        rw [UInt32.toNat_add, show (1 : UInt32).toNat = 1 from rfl, Nat.mod_eq_of_lt (by omega)]
      rw [walkProgram, calls_ask_bind, ih _ (by omega) fun step => by
        rw [Address.setHash_setHash, at_chain], next, chainCalls, at_chain, UInt32.ofNat_toNat]

theorem calls_chainProgram {start steps : UInt32} {block : Bytes}
    (fits : start.toNat + steps.toNat < 2 ^ 32) (length : block.length = H.n) (adrs : Address)
    (index : UInt32) :
    (chainProgram H.n (adrs.setChain index) block start steps).calls H =
      chainCalls H adrs index steps.toNat start.toNat block := by
  rw [chainProgram, calls_lift_bind (add32_of_lt fits),
    calls_lift_bind (ensure_of (.inr length))]
  exact calls_walkProgram block fits fun step => Address.setChain_setHash adrs index step

/-- The calls of stretches that begin in chain `index` and its followers. -/
def walkCalls (H : TweakableHash) (adrs : Address) (index : Nat) (stretches : List Stretch) :
    List HashCall :=
  (stretches.zipIdx index).flatMap fun (stretch, i) =>
    chainCalls H adrs (UInt32.ofNat i) stretch.steps.toNat stretch.start.toNat stretch.block

theorem walkCalls_congr (alike : adrs.Alike adrs') (index : Nat) (stretches : List Stretch) :
    walkCalls H adrs index stretches = walkCalls H adrs' index stretches := by
  simp only [walkCalls, chainCalls_congr alike]

theorem calls_walkAllProgram (stretches : List Stretch) (index : Nat)
    (walkable : ∀ stretch ∈ stretches, Walkable H stretch) (adrs : Address) :
    (walkAllProgram H.n (UInt32.ofNat index) adrs stretches).calls H =
      walkCalls H adrs index stretches := by
  induction stretches generalizing index adrs with
  | nil => rfl
  | cons stretch rest ih =>
      obtain ⟨⟨fits, length⟩, rest_walkable⟩ := List.forall_mem_cons.1 walkable
      obtain ⟨between, walked, alike⟩ := chain_eq fits length adrs (UInt32.ofNat index)
      obtain ⟨left, others, -⟩ := walkAll_eq rest (index + 1) rest_walkable between
      have answered := (answer_chainProgram (H := H) (adrs.setChain (UInt32.ofNat index)) length
        stretch.start stretch.steps).trans walked
      have answered' := (answer_walkAllProgram (H := H) (fun other member =>
        (rest_walkable other member).2) (UInt32.ofNat (index + 1)) between).trans others
      have next : UInt32.ofNat index + 1 = UInt32.ofNat (index + 1) := (UInt32.ofNat_add _ _).symm
      rw [walkAllProgram, calls_bind answered, calls_chainProgram fits length, next,
        calls_bind_pure _ answered', ih (index + 1) rest_walkable, walkCalls_congr alike]
      rfl

/-- Walking from the secrets makes calls of the steps below the digits. -/
theorem stays_walkAll_fromSecrets {count : Nat} {skSeed : Bytes}
    (covers : Covers S H count skSeed adrs) {digits : List UInt32} (length : digits.length = count)
    (small : ∀ digit ∈ digits, digit.toNat ≤ 15) :
    Stays H S (walkAllProgram H.n 0 adrs (fromSecrets H skSeed adrs digits)) := by
  intro c member
  rw [show (0 : UInt32) = UInt32.ofNat 0 from rfl,
    calls_walkAllProgram _ 0 fun _ => walkable_of_mem_fromSecrets] at member
  obtain ⟨⟨stretch, i⟩, inside, member⟩ := List.mem_flatMap.1 member
  have found := List.mem_zipIdx_iff_getElem?.1 inside
  simp only [fromSecrets, List.getElem?_map, List.getElem?_zipIdx, Option.map_map] at found
  obtain ⟨digit, at_digit, rfl⟩ := Option.map_eq_some_iff.1 found
  have lt := (List.getElem?_eq_some_iff.1 at_digit).1
  have le := small digit (List.mem_of_getElem? at_digit)
  simp only [Function.comp_apply, Nat.zero_add] at member
  obtain ⟨step, at_step⟩ := List.mem_iff_getElem?.1 member
  have below : step < digit.toNat := by
    simpa using (List.getElem?_eq_some_iff.1 at_step).1
  rw [getElem?_chainCalls _ below, Option.some.injEq] at at_step
  subst at_step
  rw [show (0 : UInt32).toNat = 0 from rfl, Nat.zero_add]
  exact covers.step i (length ▸ lt) step (Nat.lt_of_lt_of_le below le)

theorem stays_fromSecretsProgram {count : Nat} {skSeed : Bytes}
    (covers : Covers S H count skSeed adrs) {digits : List UInt32} (length : digits.length = count) :
    Stays H S (fromSecretsProgram skSeed adrs digits) := by
  apply stays_mapM
  rintro ⟨digit, i⟩ member
  have found := List.mem_zipIdx_iff_getElem?.1 member
  have lt := (List.getElem?_eq_some_iff.1 found).1
  exact stays_ask_bind (covers.secret i (length ▸ lt)) (stays_pure _)

theorem stays_publicKeyProgram {count : Nat} {skSeed : Bytes}
    (covers : Covers S H count skSeed adrs) :
    Stays H S (publicKeyProgram H.n count skSeed adrs) := by
  have length : (List.replicate count maxDigit).length = count := List.length_replicate
  have small : ∀ digit ∈ List.replicate count maxDigit, digit.toNat ≤ 15 := by
    intro digit member
    rw [List.eq_of_mem_replicate member]
    decide
  apply Stays.bind
  · exact (stays_lift _).bind fun _ _ => stays_lift _
  intro _ _
  apply (stays_fromSecretsProgram covers length).bind
  intro stretches listed
  rw [answer_fromSecretsProgram] at listed
  obtain rfl := Except.ok.inj listed
  apply (stays_walkAll_fromSecrets covers length small).bind
  intro reached answered
  rw [answer_walkAllProgram fun _ member => (walkable_of_mem_fromSecrets member).2] at answered
  obtain ⟨left, walked, alike⟩ := walkAll_fromSecrets (H := H) skSeed
    (List.replicate count maxDigit) adrs
  obtain rfl := Except.ok.inj (walked.symm.trans answered)
  refine stays_ask_bind ?_ (stays_pure _)
  rw [alike.setType, alike.keyPair]
  exact covers.key

theorem stays_signProgram {count : Nat} (enough : Params.checksumDigits ≤ count)
    (few : count ≤ Params.maxChains) {skSeed : Bytes} (covers : Covers S H count skSeed adrs)
    (message : Bytes) : Stays H S (signProgram H.n count message skSeed adrs) := by
  apply stays_lift_bind
  intro digits derived
  rw [digits_eq enough few] at derived
  obtain rfl := Except.ok.inj derived
  have length := Winternitz.length_signedDigits enough message
  apply stays_lift_bind
  intro _ _
  apply stays_lift_bind
  intro _ _
  apply (stays_fromSecretsProgram covers length).bind
  intro stretches listed
  rw [answer_fromSecretsProgram] at listed
  obtain rfl := Except.ok.inj listed
  apply (stays_walkAll_fromSecrets covers length
    fun digit member => le_of_mem_signedDigits few member).bind
  intro _ _
  exact stays_pure _

end OneTime

/-! ## Trees -/

namespace MerkleTree

/-- The call for the node above two nodes of a level. -/
def nodeCall (H : TweakableHash) (adrs : Address) (offset : Nat) (leaf : Nat → Bytes)
    (level index : Nat) : HashCall :=
  .h (adrs.setLast (UInt32.ofNat (level + 1)) (UInt32.ofNat (offset / 2 ^ (level + 1) + index)))
    (node H adrs offset leaf level (2 * index)) (node H adrs offset leaf level (2 * index + 1))

theorem nodeCall_congr (alike : adrs.Alike adrs') (offset : Nat) (leaf : Nat → Bytes)
    (level index : Nat) : nodeCall H adrs offset leaf level index =
      nodeCall H adrs' offset leaf level index := by
  rw [nodeCall, nodeCall, alike.setLast, node_congr alike, node_congr alike]

theorem stays_pairUpProgram (f : Nat → Bytes) {base : UInt32} (index count : Nat)
    (fits : base.toNat + index + count ≤ 2 ^ 32) (adrs : Address)
    (each : ∀ i, i < index + count → S (.h (adrs.setTreeIndex (UInt32.ofNat (base.toNat + i)))
      (f (2 * i)) (f (2 * i + 1)))) :
    Stays H S (pairUpProgram base (UInt32.ofNat index) adrs
      ((List.range' (2 * index) (2 * count)).map f)) := by
  induction count generalizing index adrs with
  | zero => exact stays_pure _
  | succ count ih =>
      have index_eq : (UInt32.ofNat index).toNat = index := by
        rw [UInt32.toNat_ofNat', Nat.mod_eq_of_lt (by omega)]
      have sum : base + UInt32.ofNat index = UInt32.ofNat (base.toNat + index) := by
        rw [UInt32.ofNat_add, UInt32.ofNat_toNat]
      have next : UInt32.ofNat index + 1 = UInt32.ofNat (index + 1) := (UInt32.ofNat_add _ _).symm
      rw [show 2 * (count + 1) = 2 * count + 1 + 1 by omega, List.range'_succ, List.range'_succ,
        List.map_cons, List.map_cons, show 2 * index + 1 + 1 = 2 * (index + 1) by omega]
      apply stays_lift_bind
      intro word added
      rw [add32_of_lt (by omega)] at added
      obtain rfl := Except.ok.inj added
      rw [sum, next]
      apply stays_ask_bind (each index (by omega))
      refine (ih (index + 1) (by omega) _ fun i inside => ?_).bind fun _ _ => stays_pure _
      rw [setTreeIndex_setTreeIndex]
      exact each i (by omega)

/-- Climbing from a complete level makes the calls of the nodes above it. -/
theorem stays_climbProgram {offset leafIndex : UInt32} (leaf : Nat → Bytes) (withPath : Bool)
    (more level : Nat) (low : level + more ≤ 31)
    (ends : offset.toNat + 2 ^ (level + more) ≤ 2 ^ 32) (adrs : Address)
    (each : ∀ z, level ≤ z → z < level + more → ∀ index < 2 ^ (level + more - (z + 1)),
      S (nodeCall H adrs offset.toNat leaf z index)) :
    Stays H S (climbProgram offset leafIndex withPath more level adrs
      ((List.range (2 ^ more)).map (node H adrs offset.toNat leaf level))) := by
  induction more generalizing level adrs with
  | zero => exact stays_pure _
  | succ more ih =>
      have height : level + (more + 1) = level + 1 + more := by omega
      rw [height] at ends each
      obtain ⟨base, shifted, base_eq⟩ := shr32_eq offset (show level + 1 < 32 by omega)
      apply stays_lift_bind
      intro _ _
      apply stays_lift_bind
      intro word moved
      obtain rfl := Except.ok.inj (shifted.symm.trans moved)
      apply Stays.bind
      · rw [map_range_pairs]
        refine stays_pairUpProgram _ 0 (2 ^ more) (base_add_le base_eq ends) _ fun i inside => ?_
        rw [Nat.zero_add] at inside
        have here := each level (Nat.le_refl _) (by omega) i
          (by rwa [Nat.add_sub_cancel_left])
        rw [Address.setTreeHeight_setTreeIndex, base_eq]
        exact here
      · intro paired answered
        rw [answer_pairUpProgram] at answered
        obtain ⟨between, made, alike⟩ := pairUp_level (H := H) leaf base_eq ends adrs
        obtain rfl := Except.ok.inj (made.symm.trans answered)
        refine (ih (level + 1) (by omega) ends between fun z high inside index lt => ?_).bind
          fun _ _ => stays_pure _
        rw [nodeCall_congr alike]
        exact each z (by omega) inside index lt

/-- Building a tree makes the calls of its leaves and of its nodes. -/
theorem stays_buildProgram {height : Nat} (offset leafIndex : UInt32) (room : Option Nat)
    {leaf : UInt32 → HashProgram Bytes} (value : Nat → Bytes) (low : height ≤ 31)
    (ends : offset.toNat + 2 ^ height ≤ 2 ^ 32)
    (leaves : ∀ i < 2 ^ height, (leaf (UInt32.ofNat i)).answer H = .ok (value i)) (adrs : Address)
    (leaf_calls : ∀ i < 2 ^ height, Stays H S (leaf (UInt32.ofNat i)))
    (each : ∀ z < height, ∀ index < 2 ^ (height - (z + 1)),
      S (nodeCall H adrs offset.toNat value z index)) :
    Stays H S (buildProgram H.n adrs height offset leafIndex room leaf) := by
  apply stays_lift_bind
  intro _ _
  apply stays_lift_bind
  intro _ _
  apply stays_lift_bind
  intro _ _
  apply stays_lift_bind
  intro _ _
  apply (stays_mapM fun i member => leaf_calls i (List.mem_range.1 member)).bind
  intro level answered
  rw [answer_mapM, mapM_eq_ok fun i member => leaves i (List.mem_range.1 member)] at answered
  obtain rfl := Except.ok.inj answered
  refine stays_climbProgram value room.isSome height 0 (by omega) (by rwa [Nat.zero_add]) adrs ?_
  intro z _ inside index lt
  rw [Nat.zero_add] at inside lt
  exact each z inside index lt

end MerkleTree

/-! ## Layers -/

namespace Layer

/-- A set of calls has those of the tree at an address. -/
structure Covers (S : HashCall → Prop) (H : TweakableHash) (p : Params) (skSeed : Bytes)
    (adrs : Address) : Prop where
  keyPair : ∀ keyPair < 2 ^ p.hp.toNat,
    OneTime.Covers S H p.len.toNat skSeed (keyAddress adrs (UInt32.ofNat keyPair))
  node : ∀ level < p.hp.toNat, ∀ index < 2 ^ (p.hp.toNat - (level + 1)),
    S (MerkleTree.nodeCall H (adrs.setType .tree) 0 (keyOf H p skSeed adrs) level index)

theorem stays_buildProgram (sound : p.Sound) (width : H.n = p.n.toNat) {skSeed : Bytes}
    (covers : Covers S H p skSeed adrs) (leafIndex : UInt32) (room : Option Nat) :
    Stays H S (buildProgram H.n p skSeed adrs leafIndex room) := by
  have low := sound.layer_le
  have power : 2 ^ p.hp.toNat ≤ 2 ^ 20 := Nat.pow_le_pow_right (by decide) low
  refine MerkleTree.stays_buildProgram 0 leafIndex room (keyOf H p skSeed adrs) (by omega)
    (by rw [UInt32.toNat_zero]; omega) (fun i lt => ?_) _ (fun i lt => ?_) covers.node
  · rw [answer_leafProgram, leaf_eq sound width, UInt32.toNat_ofNat', Nat.mod_eq_of_lt (by omega)]
  · exact (OneTime.stays_publicKeyProgram (covers.keyPair i lt)).bind fun _ _ => stays_pure _

theorem stays_rootProgram (sound : p.Sound) (width : H.n = p.n.toNat) {skSeed : Bytes}
    {layer : UInt32} {tree : UInt64} (covers : Covers S H p skSeed (address layer tree)) :
    Stays H S (rootProgram H.n p skSeed layer tree) :=
  (stays_buildProgram sound width covers 0 none).bind fun _ _ => stays_pure _

theorem stays_signProgram (sound : p.Sound) (width : H.n = p.n.toNat) (message : Bytes)
    {skSeed : Bytes} {index : UInt32} (inside : index.toNat < 2 ^ p.hp.toNat)
    (covers : Covers S H p skSeed adrs) :
    Stays H S (signProgram H.n p message skSeed index adrs) := by
  have room : (p.len.toNat + p.hp.toNat) * p.n.toNat - p.len.toNat * p.n.toNat =
      p.hp.toNat * p.n.toNat := by rw [Nat.add_mul, Nat.add_sub_cancel_left]
  apply stays_lift_bind
  intro length sized
  rw [sound.layerSize_eq] at sized
  obtain rfl := Except.ok.inj sized
  apply stays_lift_bind
  intro _ _
  apply stays_lift_bind
  intro front sized
  rw [sound.oneTimeSize_eq] at sized
  obtain rfl := Except.ok.inj sized
  apply stays_lift_bind
  intro left_over subtracted
  obtain ⟨-, rfl⟩ := less_eq_ok.1 subtracted
  apply (stays_buildProgram sound width covers index _).bind
  intro built answered
  rw [answer_buildProgram, room] at answered
  obtain ⟨between, made, alike⟩ := build_eq (H := H) sound width skSeed adrs inside
    (some (p.hp.toNat * p.n.toNat)) fun length some => (Option.some.inj some).symm
  obtain rfl := Except.ok.inj (made.symm.trans answered)
  have key := covers.keyPair index.toNat inside
  rw [UInt32.ofNat_toNat] at key
  simp only []
  rw [keyAddress_congr alike, keyAddress_setType]
  apply (OneTime.stays_signProgram (enough_chains sound) sound.chains_le key message).bind
  intro _ _
  exact stays_pure _

end Layer

/-! ## The hypertree -/

namespace Hypertree

theorem stays_signFromProgram (sound : p.Sound) (width : H.n = p.n.toNat) {skSeed : Bytes}
    (tree : UInt64) {leaf : UInt32} (inside : leaf.toNat < 2 ^ p.hp.toNat) (more layer : Nat)
    (covers : ∀ l < layer + more, Layer.Covers S H p skSeed (addressAt p tree l)) (node : Bytes) :
    Stays H S (signFromProgram H.n p skSeed more layer (treeAt p tree (layer - 1))
      (leafAt p tree leaf (layer - 1)) node) := by
  induction more generalizing layer node with
  | zero => exact stays_pure _
  | succ more ih =>
      apply stays_lift_bind
      intro place reached
      rw [position_eq sound] at reached
      obtain rfl := Except.ok.inj reached
      apply (Layer.stays_signProgram sound width node (leafAt_lt sound tree inside layer)
        (covers layer (by omega))).bind
      intro signed _
      apply (ih (layer + 1) (fun l lt => covers l (by omega)) signed.root).bind
      intro _ _
      exact stays_pure _

theorem stays_signProgram (sound : p.Sound) (width : H.n = p.n.toNat) {skSeed : Bytes}
    (tree : UInt64) {leaf : UInt32} (inside : leaf.toNat < 2 ^ p.hp.toNat)
    (covers : ∀ l < p.d.toNat, Layer.Covers S H p skSeed (addressAt p tree l)) (message : Bytes)
    (room : Nat) : Stays H S (signProgram H.n p message skSeed tree leaf room) := by
  apply stays_lift_bind
  intro _ _
  apply stays_lift_bind
  intro _ _
  apply stays_lift_bind
  intro node _
  apply stays_lift_bind
  intro _ _
  apply stays_lift_bind
  intro _ _
  have layers := stays_signFromProgram sound width tree inside p.d.toNat 0
    (fun l lt => covers l (by omega)) node
  rw [Nat.zero_sub, treeAt_zero] at layers
  exact layers.bind fun _ _ => stays_pure _

end Hypertree

/-! ## Forests -/

namespace Forest

/-- The call for the secret behind a leaf. -/
def secretCall (skSeed : Bytes) (adrs : Address) (index : Nat) : HashCall :=
  .prf ((secretAddress adrs).setTreeIndex (UInt32.ofNat index)) skSeed

/-- The call for a leaf. -/
def leafCall (H : TweakableHash) (skSeed : Bytes) (adrs : Address) (index : Nat) : HashCall :=
  .f (adrs.setLast 0 (UInt32.ofNat index)) (secret H skSeed adrs (UInt32.ofNat index))

/-- The call for the node of a tree above two nodes of a level. -/
def nodeCall (H : TweakableHash) (p : Params) (skSeed : Bytes) (adrs : Address)
    (tree level index : Nat) : HashCall :=
  MerkleTree.nodeCall H adrs (firstLeaf p tree)
    (fun i => leafOf H skSeed adrs (firstLeaf p tree + i)) level index

/-- The call that compresses the roots of all trees. -/
def keyCall (H : TweakableHash) (p : Params) (skSeed : Bytes) (adrs : Address) : HashCall :=
  .t ((adrs.setType .forsRoots).setKeyPair adrs.keyPair)
    ((List.range p.k.toNat).map (rootOf H p skSeed adrs)).flatten

/-- A set of calls has those of the forest at an address. -/
structure Covers (S : HashCall → Prop) (H : TweakableHash) (p : Params) (skSeed : Bytes)
    (adrs : Address) : Prop where
  secret : ∀ tree < p.k.toNat, ∀ i < 2 ^ p.a.toNat,
    S (secretCall skSeed adrs (firstLeaf p tree + i))
  leaf : ∀ tree < p.k.toNat, ∀ i < 2 ^ p.a.toNat,
    S (leafCall H skSeed adrs (firstLeaf p tree + i))
  node : ∀ tree < p.k.toNat, ∀ level < p.a.toNat, ∀ index < 2 ^ (p.a.toNat - (level + 1)),
    S (nodeCall H p skSeed adrs tree level index)
  key : S (keyCall H p skSeed adrs)

/-- The calls of a forest do not depend on the last two words of its address. -/
theorem Covers.congr (alike : adrs'.Alike adrs) {skSeed : Bytes}
    (covers : Covers S H p skSeed adrs) : Covers S H p skSeed adrs' where
  secret tree inside i lt := by
    rw [secretCall, secretAddress, alike.setType, alike.keyPair]
    exact covers.secret tree inside i lt
  leaf tree inside i lt := by
    rw [leafCall, alike.setLast, secret_congr alike]
    exact covers.leaf tree inside i lt
  node tree inside level low index lt := by
    rw [nodeCall, leafOf_congr alike, MerkleTree.nodeCall_congr alike]
    exact covers.node tree inside level low index lt
  key := by
    rw [keyCall, alike.setType, alike.keyPair, rootOf_congr alike]
    exact covers.key

theorem stays_leafProgram (sound : p.Sound) {skSeed : Bytes} (covers : Covers S H p skSeed adrs)
    {tree : Nat} (inside : tree < p.k.toNat) {offset : UInt32}
    (offset_eq : offset.toNat = firstLeaf p tree) {i : Nat} (lt : i < 2 ^ p.a.toNat) :
    Stays H S (leafProgram skSeed adrs offset (UInt32.ofNat i)) := by
  have small := toNat_ofNat_leaf sound lt
  apply stays_lift_bind
  intro index added
  rw [add32_firstLeaf sound inside offset_eq (by rwa [small]), small] at added
  obtain rfl := Except.ok.inj added
  apply stays_ask_bind (covers.secret tree inside i lt)
  exact stays_ask (covers.leaf tree inside i lt)

theorem stays_buildTreeProgram (sound : p.Sound) {skSeed : Bytes}
    (covers : Covers S H p skSeed adrs) {tree : Nat} (inside : tree < p.k.toNat)
    (leafIndex : UInt32) (room : Option Nat) :
    Stays H S (buildTreeProgram H.n p skSeed adrs tree leafIndex room) := by
  apply stays_lift_bind
  intro offset shifted
  obtain ⟨offset', shifted', offset_eq⟩ := treeOffset_eq sound inside
  obtain rfl := Except.ok.inj (shifted'.symm.trans shifted)
  refine MerkleTree.stays_buildProgram offset' leafIndex room
    (fun i => leafOf H skSeed adrs (firstLeaf p tree + i))
    (show p.a.toNat ≤ 31 by have := sound.forest_le; omega)
    (by rw [offset_eq]; exact firstLeaf_add_le sound inside) (fun i lt => ?_) _ (fun i lt => ?_)
    (fun level low index lt => ?_)
  · rw [answer_leafProgram, leaf_eq sound skSeed adrs inside offset_eq lt]
  · exact stays_leafProgram sound covers inside offset_eq lt
  · rw [offset_eq]
    exact covers.node tree inside level low index lt

theorem stays_signFromProgram (sound : p.Sound) (width : H.n = p.n.toNat) {skSeed : Bytes}
    (covers : Covers S H p skSeed adrs) (indices : List UInt32) (tree : Nat)
    (inside : tree + indices.length ≤ p.k.toNat)
    (leaves_lt : ∀ index ∈ indices, index.toNat < 2 ^ p.a.toNat) :
    Stays H S (signFromProgram H.n p skSeed (p.a.toNat * p.n.toNat) tree adrs indices) := by
  induction indices generalizing tree adrs with
  | nil => exact stays_pure _
  | cons index rest ih =>
      rw [List.length_cons] at inside
      have here : tree < p.k.toNat := by omega
      have leaf_lt := leaves_lt index (by simp)
      apply stays_lift_bind
      intro offset shifted
      obtain ⟨offset', shifted', offset_eq⟩ := treeOffset_eq sound here
      obtain rfl := Except.ok.inj (shifted'.symm.trans shifted)
      apply stays_lift_bind
      intro globalIndex added
      rw [add32_firstLeaf sound here offset_eq leaf_lt] at added
      obtain rfl := Except.ok.inj added
      apply (stays_buildTreeProgram sound covers here index _).bind
      intro built answered
      rw [answer_buildTreeProgram] at answered
      obtain ⟨between, made, alike⟩ := buildTree_eq (H := H) sound width skSeed adrs here leaf_lt
        (some (p.a.toNat * p.n.toNat)) fun length some => (Option.some.inj some).symm
      obtain rfl := Except.ok.inj (made.symm.trans answered)
      apply (ih (covers.congr alike) (tree + 1) (by omega)
        fun other member => leaves_lt other (by simp [member])).bind
      intro _ _
      exact stays_ask_bind (covers.secret tree here index.toNat leaf_lt) (stays_pure _)

theorem stays_signProgram (sound : p.Sound) (width : H.n = p.n.toNat) {skSeed : Bytes}
    (covers : Covers S H p skSeed adrs) (digest : Bytes) (room : Nat) :
    Stays H S (signProgram H.n p digest skSeed adrs room) := by
  have path_room : (p.a.toNat + 1) * p.n.toNat - p.n.toNat = p.a.toNat * p.n.toNat := by
    rw [Nat.succ_mul, Nat.add_sub_cancel]
  apply stays_lift_bind
  intro _ _
  apply stays_lift_bind
  intro _ _
  apply stays_lift_bind
  intro indices read
  rw [indices_eq sound] at read
  obtain rfl := Except.ok.inj read
  apply stays_lift_bind
  intro _ _
  apply stays_lift_bind
  intro segment sized
  rw [sound.segmentSize_eq] at sized
  obtain rfl := Except.ok.inj sized
  apply stays_lift_bind
  intro _ _
  apply stays_lift_bind
  intro left_over subtracted
  obtain ⟨-, rfl⟩ := less_eq_ok.1 subtracted
  rw [path_room]
  apply (stays_signFromProgram sound width covers (selected p digest) 0 (by simp)
    fun index member => lt_of_mem_selected sound member).bind
  intro signed answered
  rw [answer_signFromProgram] at answered
  obtain ⟨left, made, alike⟩ := signFrom_eq (H := H) sound width skSeed (selected p digest) 0
    (by simp) (fun index member => lt_of_mem_selected sound member) adrs
  obtain rfl := Except.ok.inj (made.symm.trans answered)
  refine stays_ask_bind ?_ (stays_pure _)
  rw [alike.setType, alike.keyPair, length_selected, ← List.range_eq_range']
  exact covers.key

end Forest

/-! ## Keys and signatures -/

namespace Signing

theorem stays_rootProgram (sound : p.Sound) (width : H.n = p.n.toNat) {skSeed : Bytes}
    (covers : Layer.Covers S H p skSeed (Layer.address (UInt32.ofNat (p.d.toNat - 1)) 0)) :
    Stays H S (rootProgram H.n p skSeed) := by
  apply stays_lift_bind
  intro _ _
  apply stays_lift_bind
  intro _ _
  apply stays_lift_bind
  intro top subtracted
  obtain ⟨-, rfl⟩ := less_eq_ok.1 subtracted
  exact Layer.stays_rootProgram sound width covers

/-- Signing with a digest of the right length. -/
theorem stays_signProgram (sound : p.Sound) (width : H.n = p.n.toNat) {skSeed digest : Bytes}
    (length : digest.length = p.m.toNat) (randomizer : Bytes)
    (forest : Forest.Covers S H p skSeed
      (forestAddress (Route.read p digest).tree (Route.read p digest).leaf))
    (layers : ∀ l < p.d.toNat,
      Layer.Covers S H p skSeed (Hypertree.addressAt p (Route.read p digest).tree l)) :
    Stays H S (signProgram H.n p skSeed randomizer digest) := by
  apply stays_lift_bind
  intro _ _
  apply stays_lift_bind
  intro _ _
  apply stays_lift_bind
  intro _ _
  apply stays_lift_bind
  intro _ _
  apply stays_lift_bind
  intro _ _
  apply stays_lift_bind
  intro route read
  rw [Route.ofDigest_eq sound length] at read
  obtain rfl := Except.ok.inj read
  apply stays_lift_bind
  intro _ _
  apply stays_lift_bind
  intro _ _
  apply (Forest.stays_signProgram sound width forest _ _).bind
  intro signed _
  apply (Hypertree.stays_signProgram sound width _ (Route.toNat_leaf_lt sound digest) layers _
    _).bind
  intro _ _
  exact stays_pure _

end Signing

end HashSignature
