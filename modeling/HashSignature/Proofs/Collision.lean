/-
# HashSignature.Proofs.Collision — two openings of one value are one opening, or collide

Verifying recomputes a value from what a signature reveals. If two signatures lead to one value, then
going back from it they either hash the same inputs, or at some call two different inputs to one
digest. Only a chain can be entered at two different heights: there a signature may undercut the
other, which takes a preimage of a revealed block.

Each value has its calls next to it here, in the order in which they are made: `chainCalls` beside
`chainValue`, `ascentCalls` beside `ascent`, and so on up to `bodyCalls` beside `topOf`. A lemma
`…_binds` goes back from a value through its calls.

* `MerkleTree.ascent_binds`, `OneTime.completion_binds` — for a path and for a one-time signature.
* `Signing.topOf_binds` — for the whole of a signature behind its randomizer.
-/
import HashSignature.Proofs.Calls

namespace HashSignature

set_option autoImplicit false

variable {H : TweakableHash} {adrs adrs' : Address} {p : Params}

/-! ## Collisions -/

/-- Two calls of one function under one address, on different inputs with one digest. -/
inductive HashCall.Collide (H : TweakableHash) : HashCall → HashCall → Prop
  | f {adrs : Address} {block block' : Bytes} (ne : block ≠ block')
    (same : H.f adrs block = H.f adrs block') : Collide H (.f adrs block) (.f adrs block')
  | h {adrs : Address} {left right left' right' : Bytes} (ne : (left, right) ≠ (left', right'))
    (same : H.h adrs left right = H.h adrs left' right') :
    Collide H (.h adrs left right) (.h adrs left' right')
  | t {adrs : Address} {blocks blocks' : Bytes} (ne : blocks ≠ blocks')
    (same : H.t adrs blocks = H.t adrs blocks') : Collide H (.t adrs blocks) (.t adrs blocks')

/-- A call of one list collides with a call of the other. -/
def Collision (H : TweakableHash) (calls calls' : List HashCall) : Prop :=
  ∃ c ∈ calls, ∃ c' ∈ calls', HashCall.Collide H c c'

theorem Collision.mono {calls more calls' more' : List HashCall}
    (met : Collision H calls calls') (sub : calls ⊆ more) (sub' : calls' ⊆ more') :
    Collision H more more' := by
  obtain ⟨c, member, c', member', collide⟩ := met
  exact ⟨c, sub member, c', sub' member', collide⟩

theorem Collision.append_right {calls calls' : List HashCall} (met : Collision H calls calls')
    (more more' : List HashCall) : Collision H (calls ++ more) (calls' ++ more') :=
  met.mono (List.subset_append_left _ _) (List.subset_append_left _ _)

theorem Collision.append_left {calls calls' : List HashCall} (met : Collision H calls calls')
    (more more' : List HashCall) : Collision H (more ++ calls) (more' ++ calls') :=
  met.mono (List.subset_append_right _ _) (List.subset_append_right _ _)

/-- Calls that are made last collide. -/
theorem HashCall.Collide.last {c c' : HashCall} (collide : HashCall.Collide H c c')
    (calls calls' : List HashCall) : Collision H (calls ++ [c]) (calls' ++ [c']) := by
  refine Collision.append_left ?_ calls calls'
  exact ⟨c, List.mem_cons_self, c', List.mem_cons_self, collide⟩

/-- A compression binds the blocks that it compresses. -/
theorem compression_binds {list other : List Bytes}
    (full : ∀ block ∈ list, block.length = H.n) (full' : ∀ block ∈ other, block.length = H.n)
    (count : list.length = other.length)
    (same : H.t adrs list.flatten = H.t adrs other.flatten) :
    list = other ∨ HashCall.Collide H (.t adrs list.flatten) (.t adrs other.flatten) := by
  by_cases inputs : list.flatten = other.flatten
  · exact .inl (Bytes.flatten_inj full full' count inputs)
  · exact .inr (.t inputs same)

/-! ## Paths -/

namespace MerkleTree

/-- The call that combines a node of a level with the node beside it. -/
def ascentCall (adrs : Address) (offset leafIndex level : Nat) (node beside : Bytes) : HashCall :=
  let nodeAdrs := adrs.setLast (UInt32.ofNat (level + 1))
    (UInt32.ofNat ((offset + leafIndex) / 2 ^ (level + 1)))
  if leafIndex / 2 ^ level % 2 = 0 then .h nodeAdrs node beside else .h nodeAdrs beside node

/-- The calls of an ascent, one for each level. -/
def ascentCalls (H : TweakableHash) (adrs : Address) (offset leafIndex : Nat) :
    (level : Nat) → (node : Bytes) → (path : List Bytes) → List HashCall
  | _, _, [] => []
  | level, node, beside :: path =>
    let parent := ascentCall adrs offset leafIndex level node beside
    parent :: ascentCalls H adrs offset leafIndex (level + 1) (parent.reply H) path

theorem ascent_cons (offset leafIndex level : Nat) (node beside : Bytes) (path : List Bytes) :
    ascent H adrs offset leafIndex level node (beside :: path) =
      ascent H adrs offset leafIndex (level + 1)
        ((ascentCall adrs offset leafIndex level node beside).reply H) path := by
  rw [ascent, ascentCall, apply_ite (HashCall.reply H)]
  rfl

theorem ascentCalls_congr (alike : adrs.Alike adrs') (offset leafIndex level : Nat) (node : Bytes)
    (path : List Bytes) : ascentCalls H adrs offset leafIndex level node path =
      ascentCalls H adrs' offset leafIndex level node path := by
  induction path generalizing level node with
  | nil => rfl
  | cons beside path ih => rw [ascentCalls, ascentCalls, ascentCall, ascentCall, alike.setLast, ih]

/-- Two nodes with one parent are one node, with one sibling, or their calls collide. -/
theorem ascentCall_binds {offset leafIndex level : Nat} {node node' beside beside' : Bytes}
    (same : (ascentCall adrs offset leafIndex level node beside).reply H =
      (ascentCall adrs offset leafIndex level node' beside').reply H) :
    (node = node' ∧ beside = beside') ∨
      HashCall.Collide H (ascentCall adrs offset leafIndex level node beside)
        (ascentCall adrs offset leafIndex level node' beside') := by
  by_cases inputs : node = node' ∧ beside = beside'
  · exact .inl inputs
  · refine .inr ?_
    unfold ascentCall at same ⊢
    by_cases even : leafIndex / 2 ^ level % 2 = 0
    · rw [if_pos even] at same ⊢
      rw [if_pos even] at same ⊢
      exact .h (fun pairs => inputs (Prod.mk.inj pairs)) same
    · rw [if_neg even] at same ⊢
      rw [if_neg even] at same ⊢
      exact .h (fun pairs => inputs (Prod.mk.inj pairs).symm) same

/-- Two leaves that climb to one root are one leaf, with one path, or on some level the calls of
the two climbs collide. -/
theorem ascent_binds {offset leafIndex level : Nat} {node node' : Bytes} {path path' : List Bytes}
    (count : path.length = path'.length)
    (same : ascent H adrs offset leafIndex level node path =
      ascent H adrs offset leafIndex level node' path') :
    (node = node' ∧ path = path') ∨ ∃ (z : Nat) (c c' : HashCall),
      (ascentCalls H adrs offset leafIndex level node path)[z]? = some c ∧
        (ascentCalls H adrs offset leafIndex level node' path')[z]? = some c' ∧
          HashCall.Collide H c c' := by
  induction path generalizing level node node' path' with
  | nil =>
      obtain rfl := List.length_eq_zero_iff.1 count.symm
      exact .inl ⟨same, rfl⟩
  | cons beside path ih =>
      obtain ⟨beside', path', rfl⟩ := List.exists_cons_of_length_eq_add_one count.symm
      rw [ascent_cons, ascent_cons] at same
      rcases ih (Nat.succ.inj count) same with ⟨parents, rfl⟩ | ⟨z, c, c', at_level, at_level', collide⟩
      · rcases ascentCall_binds parents with ⟨rfl, rfl⟩ | collide
        · exact .inl ⟨rfl, rfl⟩
        · exact .inr ⟨0, _, _, rfl, rfl, collide⟩
      · exact .inr ⟨z + 1, c, c', at_level, at_level', collide⟩

theorem ascent_binds_calls {offset leafIndex level : Nat} {node node' : Bytes}
    {path path' : List Bytes} (count : path.length = path'.length)
    (same : ascent H adrs offset leafIndex level node path =
      ascent H adrs offset leafIndex level node' path') :
    (node = node' ∧ path = path') ∨
      Collision H (ascentCalls H adrs offset leafIndex level node path)
        (ascentCalls H adrs offset leafIndex level node' path') := by
  rcases ascent_binds count same with equal | ⟨z, c, c', at_level, at_level', collide⟩
  · exact .inl equal
  · exact .inr ⟨c, List.mem_of_getElem? at_level, c', List.mem_of_getElem? at_level', collide⟩

end MerkleTree

/-! ## One-time signatures -/

namespace OneTime

open Winternitz

theorem chainCalls_add (adrs : Address) (index : UInt32) (steps more start : Nat) (block : Bytes) :
    chainCalls H adrs index (steps + more) start block =
      chainCalls H adrs index steps start block ++
        chainCalls H adrs index more (start + steps)
          (chainValue H adrs index steps start block) := by
  induction steps generalizing start block with
  | zero => rw [Nat.zero_add]; rfl
  | succ steps ih =>
      rw [show steps + 1 + more = steps + more + 1 by omega, chainCalls, ih, chainCalls, chainValue,
        show start + 1 + steps = start + (steps + 1) by omega]
      rfl

/-- Two blocks that a chain takes to one value are one block, or two of their steps collide. -/
theorem chain_binds {index : UInt32} {steps start : Nat} {block block' : Bytes}
    (same : chainValue H adrs index steps start block =
      chainValue H adrs index steps start block') :
    block = block' ∨ Collision H (chainCalls H adrs index steps start block)
      (chainCalls H adrs index steps start block') := by
  induction steps generalizing start block block' with
  | zero => exact .inl same
  | succ steps ih =>
      rcases ih same with digests | ⟨c, member, c', member', collide⟩
      · by_cases blocks : block = block'
        · exact .inl blocks
        · exact .inr ⟨_, List.mem_cons_self, _, List.mem_cons_self, .f blocks digests⟩
      · exact .inr ⟨c, List.mem_cons_of_mem _ member, c', List.mem_cons_of_mem _ member', collide⟩

/-- Of two blocks that complete to one end, the one that was revealed lower leads to the other. -/
theorem lower_binds {index : UInt32} {digit digit' : Nat} (lower : digit' < digit)
    (le : digit ≤ 15) {block block' : Bytes}
    (same : chainValue H adrs index (15 - digit) digit block =
      chainValue H adrs index (15 - digit') digit' block') :
    chainValue H adrs index (digit - digit') digit' block' = block ∨
      Collision H (chainCalls H adrs index (15 - digit) digit block)
        (chainCalls H adrs index (15 - digit') digit' block') := by
  have upper : digit' + (digit - digit') = digit := by omega
  have whole : digit - digit' + (15 - digit) = 15 - digit' := by omega
  have walk := chainValue_add (H := H) adrs index (digit - digit') (15 - digit) digit' block'
  have calls := chainCalls_add (H := H) adrs index (digit - digit') (15 - digit) digit' block'
  rw [upper, whole] at walk calls
  rcases chain_binds (same.trans walk.symm) with equal | met
  · exact .inl equal.symm
  · refine .inr (met.mono (List.Subset.refl _) ?_)
    rw [calls]
    exact List.subset_append_right _ _

/-- Where a walk passes a value, a step of it takes a preimage of that value. -/
theorem preimage_mem_chainCalls (adrs : Address) (index : UInt32) {steps more : Nat}
    (pos : 0 < steps) (le : steps ≤ more) (start : Nat) (block : Bytes) :
    ∃ stepAdrs preimage,
      HashCall.f stepAdrs preimage ∈ chainCalls H adrs index more start block ∧
        H.f stepAdrs preimage = chainValue H adrs index steps start block := by
  obtain ⟨below, rfl⟩ : ∃ below, steps = below + 1 := ⟨steps - 1, by omega⟩
  refine ⟨_, _, List.mem_of_getElem? (getElem?_chainCalls index (show below < more by omega) start
    block), ?_⟩
  rw [← chainValue_add]
  rfl

/-- The calls of the walks from revealed values to the ends of their chains. -/
def topsCalls (H : TweakableHash) (adrs : Address) (blocks : List Bytes) (digits : List UInt32) :
    List HashCall :=
  (blocks.zip digits).zipIdx.flatMap fun ((block, digit), i) =>
    chainCalls H adrs (UInt32.ofNat i) (15 - digit.toNat) digit.toNat block

/-- The calls that complete revealed values to a public key. -/
def completionCalls (H : TweakableHash) (adrs : Address) (blocks : List Bytes)
    (digits : List UInt32) : List HashCall :=
  topsCalls H adrs blocks digits ++
    [.t ((adrs.setType .wotsPk).setKeyPair adrs.keyPair) (topsOf H adrs blocks digits).flatten]

/-- In some chain the second of two one-time signatures reveals a value below that of the first, and
the steps of the chain lead from it to that. -/
def Undercuts (H : TweakableHash) (adrs : Address) (blocks : List Bytes) (digits : List UInt32)
    (blocks' : List Bytes) (digits' : List UInt32) : Prop :=
  ∃ (i : Nat) (block block' : Bytes) (digit digit' : UInt32),
    blocks[i]? = some block ∧ digits[i]? = some digit ∧
      blocks'[i]? = some block' ∧ digits'[i]? = some digit' ∧ digit' < digit ∧
        chainValue H adrs (UInt32.ofNat i) (digit.toNat - digit'.toNat) digit'.toNat block' = block

theorem chainCalls_subset {blocks : List Bytes} {digits : List UInt32} {i : Nat} {block : Bytes}
    {digit : UInt32} (revealed : blocks[i]? = some block) (at_digit : digits[i]? = some digit) :
    chainCalls H adrs (UInt32.ofNat i) (15 - digit.toNat) digit.toNat block ⊆
      topsCalls H adrs blocks digits := by
  intro c member
  have pair : (blocks.zip digits)[i]? = some (block, digit) :=
    List.getElem?_zip_eq_some.2 ⟨revealed, at_digit⟩
  exact List.mem_flatMap.2 ⟨((block, digit), i), List.mem_zipIdx_iff_getElem?.2 pair, member⟩

theorem length_of_mem_topsOf {blocks : List Bytes} {digits : List UInt32}
    (full : ∀ block ∈ blocks, block.length = H.n) {block : Bytes}
    (member : block ∈ topsOf H adrs blocks digits) : block.length = H.n := by
  obtain ⟨⟨⟨start, digit⟩, i⟩, inside, rfl⟩ := List.mem_map.1 member
  have pair := List.mem_of_getElem? (List.mem_zipIdx_iff_getElem?.1 inside)
  exact length_chainValue _ _ _ _ (full start (List.of_mem_zip pair).1)

/-- The ends of the chains are the same, or the compressions of them collide. -/
theorem topsOf_bind {blocks blocks' : List Bytes} {digits digits' : List UInt32}
    (full : ∀ block ∈ blocks, block.length = H.n) (full' : ∀ block ∈ blocks', block.length = H.n)
    (count : (blocks.zip digits).length = (blocks'.zip digits').length)
    (same : compress H adrs (topsOf H adrs blocks digits) =
      compress H adrs (topsOf H adrs blocks' digits')) :
    topsOf H adrs blocks digits = topsOf H adrs blocks' digits' ∨
      Collision H (completionCalls H adrs blocks digits)
        (completionCalls H adrs blocks' digits') := by
  rcases compression_binds (fun _ => length_of_mem_topsOf full)
    (fun _ => length_of_mem_topsOf full')
    (by rw [topsOf, topsOf, List.length_map, List.length_map, List.length_zipIdx,
      List.length_zipIdx, count]) same with equal | collide
  · exact .inl equal
  · exact .inr (collide.last _ _)

section Tops

variable {blocks blocks' : List Bytes} {digits digits' : List UInt32}
  (tops : topsOf H adrs blocks digits = topsOf H adrs blocks' digits')

include tops

theorem chain_end_eq {i : Nat} {block block' : Bytes} {digit digit' : UInt32}
    (revealed : blocks[i]? = some block) (at_digit : digits[i]? = some digit)
    (revealed' : blocks'[i]? = some block') (at_digit' : digits'[i]? = some digit') :
    chainValue H adrs (UInt32.ofNat i) (15 - digit.toNat) digit.toNat block =
      chainValue H adrs (UInt32.ofNat i) (15 - digit'.toNat) digit'.toNat block' := by
  have here : (topsOf H adrs blocks digits)[i]? = some _ := getElem?_topsOf revealed at_digit
  rw [tops, getElem?_topsOf revealed' at_digit', Option.some.injEq] at here
  exact here.symm

/-- Below one list of ends, a chain that is entered lower the second time is undercut. -/
theorem undercuts_of_lt {i : Nat} {block block' : Bytes} {digit digit' : UInt32}
    (revealed : blocks[i]? = some block) (at_digit : digits[i]? = some digit)
    (revealed' : blocks'[i]? = some block') (at_digit' : digits'[i]? = some digit')
    (lower : digit' < digit) (le : digit.toNat ≤ 15) :
    Undercuts H adrs blocks digits blocks' digits' ∨
      Collision H (topsCalls H adrs blocks digits) (topsCalls H adrs blocks' digits') := by
  rcases lower_binds (UInt32.lt_iff_toNat_lt.1 lower) le
    (chain_end_eq tops revealed at_digit revealed' at_digit') with equal | met
  · exact .inl ⟨i, block, block', digit, digit', revealed, at_digit, revealed', at_digit', lower,
      equal⟩
  · exact .inr (met.mono (chainCalls_subset revealed at_digit)
      (chainCalls_subset revealed' at_digit'))

end Tops

/-- Entered at the same heights, chains with the same ends start with the same blocks, or two of
their steps collide. -/
theorem revealed_bind {blocks blocks' : List Bytes} {digits : List UInt32}
    (count : blocks.length = digits.length) (count' : blocks'.length = digits.length)
    (tops : topsOf H adrs blocks digits = topsOf H adrs blocks' digits) :
    blocks = blocks' ∨
      Collision H (topsCalls H adrs blocks digits) (topsCalls H adrs blocks' digits) := by
  by_cases met : Collision H (topsCalls H adrs blocks digits) (topsCalls H adrs blocks' digits)
  · exact .inr met
  · refine .inl (List.ext_getElem (count.trans count'.symm) ?_)
    intro i inside inside'
    have at_digit : digits[i]? = some digits[i] := List.getElem?_eq_getElem (count ▸ inside)
    have revealed := List.getElem?_eq_getElem inside
    have revealed' := List.getElem?_eq_getElem inside'
    rcases chain_binds (chain_end_eq tops revealed at_digit revealed' at_digit) with equal | chain
    · exact equal
    · refine absurd (chain.mono ?_ ?_) met
      · exact chainCalls_subset revealed at_digit
      · exact chainCalls_subset revealed' at_digit

/-- Two one-time signatures that complete to one key sign one message with the same blocks, or two
of their calls collide, or they sign different messages and the second undercuts the first. -/
theorem completion_binds {n : Nat} (width : H.n = n) (le : n ≤ Params.maxDigest)
    {message message' : Bytes} (length : message.length = n) (length' : message'.length = n)
    {blocks blocks' : List Bytes} (count : blocks.length = 2 * n + 3)
    (count' : blocks'.length = 2 * n + 3) (full : ∀ block ∈ blocks, block.length = n)
    (full' : ∀ block ∈ blocks', block.length = n)
    (same : compress H adrs (topsOf H adrs blocks (signedDigits (2 * n + 3) message)) =
      compress H adrs (topsOf H adrs blocks' (signedDigits (2 * n + 3) message'))) :
    (blocks = blocks' ∧ message = message') ∨
      Collision H (completionCalls H adrs blocks (signedDigits (2 * n + 3) message))
        (completionCalls H adrs blocks' (signedDigits (2 * n + 3) message')) ∨
      (message ≠ message' ∧ Undercuts H adrs blocks (signedDigits (2 * n + 3) message)
        blocks' (signedDigits (2 * n + 3) message')) := by
  subst width
  have digit_count (message : Bytes) :
      (signedDigits (2 * H.n + 3) message).length = 2 * H.n + 3 :=
    Winternitz.length_signedDigits (Nat.le_add_left 3 _) message
  have few := signed_le_maxChains le
  have pairs : (blocks.zip (signedDigits (2 * H.n + 3) message)).length =
      (blocks'.zip (signedDigits (2 * H.n + 3) message')).length := by
    rw [List.length_zip, List.length_zip, count, count', digit_count, digit_count]
  rcases topsOf_bind full full' pairs same with tops | met
  · by_cases messages : message = message'
    · subst messages
      rcases revealed_bind (count.trans (digit_count _).symm) (count'.trans (digit_count _).symm)
        tops with equal | met
      · exact .inl ⟨equal, rfl⟩
      · exact .inr (.inl (met.append_right _ _))
    · -- the checksum makes the second message smaller in some digit
      obtain ⟨i, digit', digit, at_digit', at_digit, lower⟩ :=
        exists_signed_lt le length' length (Ne.symm messages)
      have inside := (List.getElem?_eq_some_iff.1 at_digit).1
      rw [digit_count] at inside
      have revealed : blocks[i]? = some blocks[i] := List.getElem?_eq_getElem (by omega)
      have revealed' : blocks'[i]? = some blocks'[i] := List.getElem?_eq_getElem (by omega)
      have small := le_of_mem_signedDigits few (List.mem_of_getElem? at_digit)
      rcases undercuts_of_lt tops revealed at_digit revealed' at_digit' lower small with
        undercuts | met
      · exact .inr (.inr ⟨messages, undercuts⟩)
      · exact .inr (.inl (met.append_right _ _))
  · exact .inr (.inl met)

end OneTime

/-! ## Layers -/

namespace Layer

open Winternitz

/-- The calls of what a segment for a message climbs to. -/
def climbedCalls (H : TweakableHash) (p : Params) (adrs : Address) (keyPair : UInt32)
    (segment message : Bytes) : List HashCall :=
  OneTime.completionCalls H (keyAddress adrs keyPair) (revealed p segment)
      (signedDigits p.len.toNat message) ++
    MerkleTree.ascentCalls H (adrs.setType .tree) 0 keyPair.toNat 0
      (completed H p adrs keyPair segment message) (siblings p segment)

/-- A segment's one-time signature undercuts that of another segment. -/
def Undercuts (H : TweakableHash) (p : Params) (adrs : Address) (keyPair : UInt32)
    (segment message segment' message' : Bytes) : Prop :=
  OneTime.Undercuts H (keyAddress adrs keyPair) (revealed p segment)
    (signedDigits p.len.toNat message) (revealed p segment') (signedDigits p.len.toNat message')

theorem length_of_mem_revealed {segment : Bytes}
    (full : segment.length = (p.len.toNat + p.hp.toNat) * p.n.toNat) {block : Bytes}
    (member : block ∈ revealed p segment) : block.length = p.n.toNat := by
  rw [Nat.add_mul] at full
  apply Bytes.length_of_mem_blocks _ member
  omega

/-- A segment is its one-time signature and its path. -/
theorem eq_of_parts_eq {segment segment' : Bytes}
    (length : segment.length = (p.len.toNat + p.hp.toNat) * p.n.toNat)
    (length' : segment'.length = (p.len.toNat + p.hp.toNat) * p.n.toNat)
    (blocks : revealed p segment = revealed p segment')
    (path : siblings p segment = siblings p segment') : segment = segment' := by
  rw [Nat.add_mul] at length length'
  refine Bytes.eq_of_two_blocks_eq length length' ?_ path
  rw [Bytes.blocks_take, Bytes.blocks_take]
  exact blocks

/-- Two segments that climb to one root sign one message with the same bytes, or two of their calls
collide, or they sign different messages and the second undercuts the first. -/
theorem climbed_binds (sound : p.Sound) (width : H.n = p.n.toNat) {keyPair : UInt32}
    {segment segment' message message' : Bytes}
    (full : segment.length = (p.len.toNat + p.hp.toNat) * p.n.toNat)
    (full' : segment'.length = (p.len.toNat + p.hp.toNat) * p.n.toNat)
    (length : message.length = p.n.toNat) (length' : message'.length = p.n.toNat)
    (same : climbed H p adrs keyPair segment message =
      climbed H p adrs keyPair segment' message') :
    (segment = segment' ∧ message = message') ∨
      Collision H (climbedCalls H p adrs keyPair segment message)
        (climbedCalls H p adrs keyPair segment' message') ∨
      (message ≠ message' ∧ Undercuts H p adrs keyPair segment message segment' message') := by
  rcases MerkleTree.ascent_binds_calls (by simp [siblings]) same with ⟨keys, path⟩ | met
  · rw [completed, completed, sound.chains] at keys
    rcases OneTime.completion_binds width sound.n_le length length'
      (by rw [revealed, Bytes.length_blocks, sound.chains])
      (by rw [revealed, Bytes.length_blocks, sound.chains]) (fun _ => length_of_mem_revealed full)
      (fun _ => length_of_mem_revealed full') keys with
      ⟨blocks, messages⟩ | met | ⟨messages, undercuts⟩
    · exact .inl ⟨eq_of_parts_eq full full' blocks path, messages⟩
    · rw [← sound.chains] at met
      exact .inr (.inl (met.append_right _ _))
    · rw [← sound.chains] at undercuts
      exact .inr (.inr ⟨messages, undercuts⟩)
  · exact .inr (.inl (met.append_left _ _))

end Layer

/-! ## The hypertree -/

namespace Hypertree

/-- The calls of what segments climb to from a layer on. -/
def climbedCallsFrom (H : TweakableHash) (p : Params) (tree : UInt64) (leaf : UInt32) :
    (layer : Nat) → (node : Bytes) → (segments : List Bytes) → List HashCall
  | _, _, [] => []
  | layer, node, segment :: rest =>
    Layer.climbedCalls H p (addressAt p tree layer) (leafAt p tree leaf layer) segment node ++
      climbedCallsFrom H p tree leaf (layer + 1)
        (Layer.climbed H p (addressAt p tree layer) (leafAt p tree leaf layer) segment node) rest

/-- The calls of each layer are among those of all layers. -/
theorem climbedCalls_subset (tree : UInt64) (leaf : UInt32) (layer : Nat) (node : Bytes)
    {segments : List Bytes} {l : Nat} {segment : Bytes} (found : segments[l]? = some segment) :
    Layer.climbedCalls H p (addressAt p tree (layer + l)) (leafAt p tree leaf (layer + l)) segment
        (climbedFrom H p tree leaf layer node (segments.take l)) ⊆
      climbedCallsFrom H p tree leaf layer node segments := by
  induction segments generalizing layer l node with
  | nil => simp at found
  | cons first rest ih =>
      cases l with
      | zero =>
          obtain rfl := Option.some.inj found
          exact List.subset_append_left _ _
      | succ l =>
          have later := ih (layer + 1) (Layer.climbed H p (addressAt p tree layer)
            (leafAt p tree leaf layer) first node) found
          rw [show layer + 1 + l = layer + (l + 1) by omega] at later
          exact List.subset_append_of_subset_right _ later

/-- On some layer two lists of segments sign different nodes, and there the second undercuts the
first. -/
def UndercutsFrom (H : TweakableHash) (p : Params) (tree : UInt64) (leaf : UInt32) (layer : Nat)
    (node : Bytes) (segments : List Bytes) (node' : Bytes) (segments' : List Bytes) : Prop :=
  ∃ (l : Nat) (segment segment' : Bytes), segments[l]? = some segment ∧
    segments'[l]? = some segment' ∧
      climbedFrom H p tree leaf layer node (segments.take l) ≠
        climbedFrom H p tree leaf layer node' (segments'.take l) ∧
      Layer.Undercuts H p (addressAt p tree (layer + l)) (leafAt p tree leaf (layer + l))
        segment (climbedFrom H p tree leaf layer node (segments.take l))
        segment' (climbedFrom H p tree leaf layer node' (segments'.take l))

/-- Two lists of segments that climb to one root sign one node with the same bytes, or two of their
calls collide, or on some layer the second undercuts the first. -/
theorem climbedFrom_binds (sound : p.Sound) (width : H.n = p.n.toNat) {tree : UInt64}
    {leaf : UInt32} {layer : Nat} {node node' : Bytes} {segments segments' : List Bytes}
    (full : ∀ segment ∈ segments, segment.length = (p.len.toNat + p.hp.toNat) * p.n.toNat)
    (full' : ∀ segment ∈ segments', segment.length = (p.len.toNat + p.hp.toNat) * p.n.toNat)
    (count : segments.length = segments'.length) (length : node.length = p.n.toNat)
    (length' : node'.length = p.n.toNat)
    (same : climbedFrom H p tree leaf layer node segments =
      climbedFrom H p tree leaf layer node' segments') :
    (node = node' ∧ segments = segments') ∨
      Collision H (climbedCallsFrom H p tree leaf layer node segments)
        (climbedCallsFrom H p tree leaf layer node' segments') ∨
      UndercutsFrom H p tree leaf layer node segments node' segments' := by
  induction segments generalizing layer node node' segments' with
  | nil =>
      obtain rfl := List.length_eq_zero_iff.1 count.symm
      exact .inl ⟨same, rfl⟩
  | cons segment rest ih =>
      obtain ⟨segment', rest', rfl⟩ := List.exists_cons_of_length_eq_add_one count.symm
      have climbed_length (segment node : Bytes) :
          (Layer.climbed H p (addressAt p tree layer) (leafAt p tree leaf layer) segment
            node).length = p.n.toNat :=
        (MerkleTree.length_ascent (H.length_t _ _)).trans width
      obtain ⟨here, rest_full⟩ := List.forall_mem_cons.1 full
      obtain ⟨here', rest_full'⟩ := List.forall_mem_cons.1 full'
      rcases ih rest_full rest_full' (Nat.succ.inj count) (climbed_length segment node)
        (climbed_length segment' node') same with
        ⟨roots, rfl⟩ | met | ⟨l, above, above', found, found', nodes, undercuts⟩
      · rcases Layer.climbed_binds sound width here here' length length' roots with
          ⟨rfl, nodes⟩ | met | ⟨nodes, undercuts⟩
        · exact .inl ⟨nodes, rfl⟩
        · exact .inr (.inl (met.append_right _ _))
        · exact .inr (.inr ⟨0, segment, segment', rfl, rfl, nodes, undercuts⟩)
      · exact .inr (.inl (met.append_left _ _))
      · rw [show layer + 1 + l = layer + (l + 1) by omega] at undercuts
        exact .inr (.inr ⟨l + 1, above, above', found, found', nodes, undercuts⟩)

end Hypertree

/-! ## Forests -/

namespace Forest

/-- The call for the leaf that a segment reveals. -/
def revealedCall (p : Params) (adrs : Address) (tree leafIndex : Nat) (segment : Bytes) : HashCall :=
  .f (adrs.setLast 0 (UInt32.ofNat (firstLeaf p tree + leafIndex))) (segment.take p.n.toNat)

/-- The calls of what a segment for a leaf of a tree climbs to. -/
def climbedCalls (H : TweakableHash) (p : Params) (adrs : Address) (tree leafIndex : Nat)
    (segment : Bytes) : List HashCall :=
  let leaf := revealedCall p adrs tree leafIndex segment
  leaf :: MerkleTree.ascentCalls H adrs (firstLeaf p tree) leafIndex 0 (leaf.reply H)
    (Bytes.blocks p.n.toNat p.a.toNat (segment.drop p.n.toNat))

/-- The calls of what the segments of a signature climb to, tree by tree. -/
def climbedRootsCalls (H : TweakableHash) (p : Params) (adrs : Address) (tree : Nat)
    (segments : List (Bytes × UInt32)) : List HashCall :=
  (segments.zipIdx tree).flatMap fun ((segment, index), j) =>
    climbedCalls H p adrs j index.toNat segment

/-- Two segments for one leaf that climb to one root are one segment, or two of their calls
collide. -/
theorem climbed_binds {tree leafIndex : Nat} {segment segment' : Bytes}
    (full : segment.length = (p.a.toNat + 1) * p.n.toNat)
    (full' : segment'.length = (p.a.toNat + 1) * p.n.toNat)
    (same : climbed H p adrs tree leafIndex segment = climbed H p adrs tree leafIndex segment') :
    segment = segment' ∨ Collision H (climbedCalls H p adrs tree leafIndex segment)
      (climbedCalls H p adrs tree leafIndex segment') := by
  rw [Nat.succ_mul] at full full'
  rcases MerkleTree.ascent_binds_calls (by simp) same with ⟨leaves, path⟩ | met
  · by_cases fronts : segment.take p.n.toNat = segment'.take p.n.toNat
    · have backs : segment.drop p.n.toNat = segment'.drop p.n.toNat :=
        Bytes.eq_of_blocks_eq (by rw [List.length_drop]; omega) (by rw [List.length_drop]; omega)
          path
      exact .inl (Bytes.eq_of_take_drop_eq fronts backs)
    · exact .inr ⟨_, List.mem_cons_self, _, List.mem_cons_self, .f fronts leaves⟩
  · exact .inr (met.mono (List.subset_cons_self _ _) (List.subset_cons_self _ _))

/-- Two lists of segments for one digest that lead to the same roots are one list, or two of their
calls collide. -/
theorem climbedRoots_binds {tree : Nat} {segments segments' : List Bytes} {indices : List UInt32}
    (full : ∀ segment ∈ segments, segment.length = (p.a.toNat + 1) * p.n.toNat)
    (full' : ∀ segment ∈ segments', segment.length = (p.a.toNat + 1) * p.n.toNat)
    (count : segments.length = indices.length) (count' : segments'.length = indices.length)
    (same : climbedRoots H p adrs tree (segments.zip indices) =
      climbedRoots H p adrs tree (segments'.zip indices)) :
    segments = segments' ∨
      Collision H (climbedRootsCalls H p adrs tree (segments.zip indices))
        (climbedRootsCalls H p adrs tree (segments'.zip indices)) := by
  induction indices generalizing tree segments segments' with
  | nil =>
      obtain rfl := List.length_eq_zero_iff.1 count
      obtain rfl := List.length_eq_zero_iff.1 count'
      exact .inl rfl
  | cons index indices ih =>
      obtain ⟨segment, rest, rfl⟩ := List.exists_cons_of_length_eq_add_one count
      obtain ⟨segment', rest', rfl⟩ := List.exists_cons_of_length_eq_add_one count'
      obtain ⟨here, rest_full⟩ := List.forall_mem_cons.1 full
      obtain ⟨here', rest_full'⟩ := List.forall_mem_cons.1 full'
      obtain ⟨root, others⟩ := List.cons.inj same
      rcases climbed_binds here here' root with rfl | met
      · rcases ih rest_full rest_full' (Nat.succ.inj count) (Nat.succ.inj count') others with rfl | met
        · exact .inl rfl
        · exact .inr (met.append_left _ _)
      · exact .inr (met.append_right _ _)

end Forest

/-! ## Bodies of signatures -/

namespace Signing

/-- The calls that lead from a body to the forest's public value. -/
def forestCalls (H : TweakableHash) (p : Params) (route : Route) (body : Bytes) : List HashCall :=
  let adrs := forestAddress route.tree route.leaf
  let segments := (forestSegments p body).zip (Forest.selected p route.forest)
  Forest.climbedRootsCalls H p adrs 0 segments ++
    [.t ((adrs.setType .forsRoots).setKeyPair adrs.keyPair)
      (Forest.climbedRoots H p adrs 0 segments).flatten]

/-- The calls of what a body climbs to. -/
def bodyCalls (H : TweakableHash) (p : Params) (route : Route) (body : Bytes) : List HashCall :=
  forestCalls H p route body ++
    Hypertree.climbedCallsFrom H p route.tree route.leaf 0 (forestNode H p route body)
      (layerSegments p body)

theorem length_of_mem_forestSegments {body : Bytes} (length : body.length = bodyWidth p)
    {segment : Bytes} (member : segment ∈ forestSegments p body) :
    segment.length = (p.a.toNat + 1) * p.n.toNat := by
  rw [bodyWidth] at length
  apply Bytes.length_of_mem_blocks _ member
  rw [List.length_take, ← forestWidth]
  omega

theorem length_of_mem_layerSegments {body : Bytes} (length : body.length = bodyWidth p)
    {segment : Bytes} (member : segment ∈ layerSegments p body) :
    segment.length = layerWidth p := by
  rw [bodyWidth] at length
  apply Bytes.length_of_mem_blocks _ member
  rw [List.length_drop]
  omega

/-- A body is its segments. -/
theorem body_eq_of_segments_eq {body body' : Bytes} (length : body.length = bodyWidth p)
    (length' : body'.length = bodyWidth p) (forest : forestSegments p body = forestSegments p body')
    (layers : layerSegments p body = layerSegments p body') : body = body' := by
  rw [bodyWidth] at length length'
  exact Bytes.eq_of_two_blocks_eq length length' forest layers

/-- Two bodies with one public value of the forest have the same segments there, or two of their
calls collide. -/
theorem forestNode_binds (width : H.n = p.n.toNat) {route : Route} {body body' : Bytes}
    (length : body.length = bodyWidth p) (length' : body'.length = bodyWidth p)
    (same : forestNode H p route body = forestNode H p route body') :
    forestSegments p body = forestSegments p body' ∨
      Collision H (forestCalls H p route body) (forestCalls H p route body') := by
  have root_length {body : Bytes} (length : body.length = bodyWidth p) (root : Bytes)
      (member : root ∈ Forest.climbedRoots H p (forestAddress route.tree route.leaf) 0
        ((forestSegments p body).zip (Forest.selected p route.forest))) : root.length = H.n := by
    obtain ⟨⟨⟨segment, index⟩, j⟩, inside, rfl⟩ := List.mem_map.1 member
    have pair := List.mem_of_getElem? (List.mem_zipIdx_iff_getElem?.1 inside)
    have full := length_of_mem_forestSegments length (List.of_mem_zip pair).1
    apply MerkleTree.length_ascent
    apply H.length_f_of_length_eq
    rw [List.length_take, full, width, Nat.succ_mul]
    omega
  rcases compression_binds (root_length length) (root_length length')
    (by simp [Forest.climbedRoots, forestSegments]) same with roots | collide
  · rcases Forest.climbedRoots_binds (fun _ => length_of_mem_forestSegments length)
      (fun _ => length_of_mem_forestSegments length') (by simp [forestSegments])
      (by simp [forestSegments]) roots with equal | met
    · exact .inl equal
    · exact .inr (met.append_right _ _)
  · exact .inr (collide.last _ _)

/-- Two bodies that climb to one root are one body, or two of their calls collide, or on some layer
the second undercuts the first. -/
theorem topOf_binds (sound : p.Sound) (width : H.n = p.n.toNat) {route : Route}
    {body body' : Bytes} (length : body.length = bodyWidth p)
    (length' : body'.length = bodyWidth p)
    (same : topOf H p route body = topOf H p route body') :
    body = body' ∨ Collision H (bodyCalls H p route body) (bodyCalls H p route body') ∨
      Hypertree.UndercutsFrom H p route.tree route.leaf 0 (forestNode H p route body)
        (layerSegments p body) (forestNode H p route body') (layerSegments p body') := by
  rcases Hypertree.climbedFrom_binds sound width (fun _ => length_of_mem_layerSegments length)
    (fun _ => length_of_mem_layerSegments length') (by simp [layerSegments])
    ((H.length_t _ _).trans width) ((H.length_t _ _).trans width) same with
    ⟨nodes, layers⟩ | met | undercuts
  · rcases forestNode_binds width length length' nodes with forest | met
    · exact .inl (body_eq_of_segments_eq length length' forest layers)
    · exact .inr (.inl (met.append_right _ _))
  · exact .inr (.inl (met.append_left _ _))
  · exact .inr (.inr undercuts)

end Signing

end HashSignature
