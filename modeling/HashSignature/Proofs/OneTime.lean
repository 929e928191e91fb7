/-
# HashSignature.Proofs.OneTime — chains compose, so a signature completes to the key

`chainValue` is the value some steps up a chain, with the address of each step written out. It
depends on no word of an address that a step sets, so it does not matter which calls were made
before.

* `publicKey_eq`, `sign_eq`, `publicKeyOf_eq` — the three operations succeed and compress, or list,
  chain values: of the secrets for the key and the signature, of the signature's blocks for the
  verifier.
* `topsOf_blocksOf` — a revealed value walked the rest of the way is the end of its chain, for every
  digit.
* `blocks_signed`, `compress_topsOf_signed` — so what a signature reveals completes to the key.
-/
import HashSignature.Proofs.Address
import HashSignature.Proofs.Digits
import HashSignature.OneTime

namespace HashSignature.OneTime

set_option autoImplicit false

open Outcome Winternitz

variable {H : TweakableHash} {adrs adrs' : Address}

/-! ## Chains -/

/-- The value `steps` steps up chain `index`, from a block at step `start`. -/
def chainValue (H : TweakableHash) (adrs : Address) (index : UInt32) :
    (steps start : Nat) → Bytes → Bytes
  | 0, _, block => block
  | steps + 1, start, block =>
    chainValue H adrs index steps (start + 1)
      (H.f (adrs.setLast index (UInt32.ofNat start)) block)

theorem chainValue_congr (alike : adrs.Alike adrs') (index : UInt32) (steps start : Nat)
    (block : Bytes) :
    chainValue H adrs index steps start block = chainValue H adrs' index steps start block := by
  induction steps generalizing start block with
  | zero => rfl
  | succ steps ih => rw [chainValue, chainValue, alike.setLast, ih]

/-- Walking on from a chain value is one longer walk. -/
theorem chainValue_add (adrs : Address) (index : UInt32) (steps more start : Nat) (block : Bytes) :
    chainValue H adrs index more (start + steps) (chainValue H adrs index steps start block) =
      chainValue H adrs index (steps + more) start block := by
  induction steps generalizing start block with
  | zero => rw [Nat.zero_add]; rfl
  | succ steps ih =>
      rw [chainValue, show start + (steps + 1) = start + 1 + steps by omega, ih,
        show steps + 1 + more = steps + more + 1 by omega, chainValue]

theorem length_chainValue (adrs : Address) (index : UInt32) (steps start : Nat) {block : Bytes}
    (length : block.length = H.n) : (chainValue H adrs index steps start block).length = H.n := by
  induction steps generalizing start block with
  | zero => exact length
  | succ steps ih => exact ih _ (H.length_f_of_length_eq _ length)

theorem walk_fst {start index : UInt32} {steps : Nat} (block : Bytes)
    (fits : start.toNat + steps < 2 ^ 32)
    (at_chain : ∀ step, adrs.setHash step = adrs'.setLast index step) :
    (walk H steps start adrs block).1 = chainValue H adrs' index steps start.toNat block := by
  induction steps generalizing start adrs block with
  | zero => rfl
  | succ steps ih =>
      have next : (start + 1).toNat = start.toNat + 1 := by
        rw [UInt32.toNat_add, show (1 : UInt32).toNat = 1 from rfl, Nat.mod_eq_of_lt (by omega)]
      rw [walk, ih _ (by omega) fun step => by rw [Address.setHash_setHash, at_chain], next,
        chainValue, at_chain, UInt32.ofNat_toNat]

theorem walk_snd_alike (steps : Nat) (start : UInt32) (block : Bytes) :
    (walk H steps start adrs block).2.Alike adrs := by
  induction steps generalizing start adrs block with
  | zero => rfl
  | succ steps ih => exact (ih _ _).trans (Address.alike_setHash _ _)

theorem chain_eq {start steps : UInt32} {block : Bytes}
    (fits : start.toNat + steps.toNat < 2 ^ 32) (length : block.length = H.n) (adrs : Address)
    (index : UInt32) :
    ∃ left, chain H (adrs.setChain index) block start steps =
      .ok (chainValue H adrs index steps.toNat start.toNat block, left) ∧ left.Alike adrs := by
  refine ⟨(walk H steps.toNat start (adrs.setChain index) block).2, ?_,
    (walk_snd_alike _ _ _).trans (Address.alike_setChain _ _)⟩
  rw [chain, add32_of_lt fits, ok_bind, ensure_of (.inr (length ▸ H.takes_n)), ok_bind, pure_eq_ok,
    ← walk_fst block fits fun step => Address.setChain_setHash adrs index step]

/-- The ends of stretches that begin in chain `index` and its followers. -/
def ends (H : TweakableHash) (adrs : Address) (index : Nat) (stretches : List Stretch) :
    List Bytes :=
  (stretches.zipIdx index).map fun (stretch, i) =>
    chainValue H adrs (UInt32.ofNat i) stretch.steps.toNat stretch.start.toNat stretch.block

theorem ends_congr (alike : adrs.Alike adrs') (index : Nat) (stretches : List Stretch) :
    ends H adrs index stretches = ends H adrs' index stretches := by
  simp only [ends, chainValue_congr alike]

/-- A stretch that a chain can walk: its steps have numbers, its block is a digest. -/
def Walkable (H : TweakableHash) (stretch : Stretch) : Prop :=
  stretch.start.toNat + stretch.steps.toNat < 2 ^ 32 ∧ stretch.block.length = H.n

theorem walkAll_eq (stretches : List Stretch) (index : Nat)
    (walkable : ∀ stretch ∈ stretches, Walkable H stretch) (adrs : Address) :
    ∃ left, walkAll H (UInt32.ofNat index) adrs stretches =
      .ok (ends H adrs index stretches, left) ∧ left.Alike adrs := by
  induction stretches generalizing index adrs with
  | nil => exact ⟨adrs, rfl, rfl⟩
  | cons stretch rest ih =>
      obtain ⟨⟨fits, length⟩, walkable⟩ := List.forall_mem_cons.1 walkable
      obtain ⟨between, here, alike⟩ := chain_eq fits length adrs (UInt32.ofNat index)
      obtain ⟨left, others, alike'⟩ := ih (index + 1) walkable between
      refine ⟨left, ?_, alike'.trans alike⟩
      rw [walkAll, here, ok_bind]
      simp only []
      rw [show UInt32.ofNat index + 1 = UInt32.ofNat (index + 1) from (UInt32.ofNat_add _ _).symm,
        others, ok_bind, ends_congr alike]
      simp [ends, List.zipIdx_cons]

/-! ## Keys and signatures -/

theorem secretAddress_congr (alike : adrs.Alike adrs') : secretAddress adrs = secretAddress adrs' := by
  rw [secretAddress, secretAddress, alike.setType, alike.keyPair]

theorem secret_congr (alike : adrs.Alike adrs') (skSeed : Bytes) (index : UInt32) :
    secret H skSeed adrs index = secret H skSeed adrs' index := by
  rw [secret, secret, secretAddress_congr alike]

theorem compress_congr (alike : adrs.Alike adrs') (tops : List Bytes) :
    compress H adrs tops = compress H adrs' tops := by
  rw [compress, compress, alike.setType, alike.keyPair]

/-- The values that digits reveal, one in each chain, counted from the secrets. -/
def blocksOf (H : TweakableHash) (skSeed : Bytes) (adrs : Address) (digits : List UInt32) :
    List Bytes :=
  digits.zipIdx.map fun (digit, i) =>
    chainValue H adrs (UInt32.ofNat i) digit.toNat 0 (secret H skSeed adrs (UInt32.ofNat i))

/-- The ends that revealed values lead to, each walked on from its digit. -/
def topsOf (H : TweakableHash) (adrs : Address) (blocks : List Bytes) (digits : List UInt32) :
    List Bytes :=
  (blocks.zip digits).zipIdx.map fun ((block, digit), i) =>
    chainValue H adrs (UInt32.ofNat i) (15 - digit.toNat) digit.toNat block

theorem getElem?_topsOf {blocks : List Bytes} {digits : List UInt32} {i : Nat} {block : Bytes}
    {digit : UInt32} (revealed : blocks[i]? = some block) (at_digit : digits[i]? = some digit) :
    (topsOf H adrs blocks digits)[i]? =
      some (chainValue H adrs (UInt32.ofNat i) (15 - digit.toNat) digit.toNat block) := by
  have pair : (blocks.zip digits)[i]? = some (block, digit) :=
    List.getElem?_zip_eq_some.2 ⟨revealed, at_digit⟩
  simp [topsOf, pair]

/-- The public key of `count` chains: the compressed ends of all chains. -/
def keyOf (H : TweakableHash) (count : Nat) (skSeed : Bytes) (adrs : Address) : Bytes :=
  compress H adrs (blocksOf H skSeed adrs (List.replicate count maxDigit))

@[simp] theorem length_keyOf (count : Nat) (skSeed : Bytes) (adrs : Address) :
    (keyOf H count skSeed adrs).length = H.n := H.length_t _ _

theorem getElem?_blocksOf (skSeed : Bytes) (adrs : Address) (digits : List UInt32) (i : Nat) :
    (blocksOf H skSeed adrs digits)[i]? = digits[i]?.map fun digit =>
      chainValue H adrs (UInt32.ofNat i) digit.toNat 0 (secret H skSeed adrs (UInt32.ofNat i)) := by
  simp [blocksOf, Function.comp_def]

theorem length_of_mem_blocksOf {skSeed : Bytes} {digits : List UInt32} {block : Bytes}
    (member : block ∈ blocksOf H skSeed adrs digits) : block.length = H.n := by
  obtain ⟨_, -, rfl⟩ := List.mem_map.1 member
  exact length_chainValue _ _ _ _ (H.length_prf _ _)

@[simp] theorem length_blocksOf (skSeed : Bytes) (adrs : Address) (digits : List UInt32) :
    (blocksOf H skSeed adrs digits).length = digits.length := by simp [blocksOf]

theorem walkable_of_mem_fromSecrets {skSeed : Bytes} {digits : List UInt32} {stretch : Stretch}
    (member : stretch ∈ fromSecrets H skSeed adrs digits) : Walkable H stretch := by
  obtain ⟨⟨digit, i⟩, -, rfl⟩ := List.mem_map.1 member
  refine ⟨?_, H.length_prf _ _⟩
  have := digit.toNat_lt
  simpa using this

theorem walkAll_fromSecrets (skSeed : Bytes) (digits : List UInt32) (adrs : Address) :
    ∃ left, walkAll H 0 adrs (fromSecrets H skSeed adrs digits) =
      .ok (blocksOf H skSeed adrs digits, left) ∧ left.Alike adrs := by
  obtain ⟨left, walked, alike⟩ := walkAll_eq (H := H) (fromSecrets H skSeed adrs digits) 0
    (fun _ => walkable_of_mem_fromSecrets) adrs
  refine ⟨left, ?_, alike⟩
  rw [show (0 : UInt32) = UInt32.ofNat 0 from rfl, walked]
  simp only [ends, fromSecrets, blocksOf, List.zipIdx_map, List.map_map]
  congr 2
  apply List.ext_getElem?
  intro i
  simp [Function.comp_def]

/-- The public key of a key pair compresses the ends of all its chains. -/
theorem publicKey_eq (count : Nat) (few : count * H.n ≤ Params.maxChains * Params.maxDigest)
    (pos : 0 < H.n) (skSeed : Bytes) (adrs : Address) :
    ∃ left, publicKey H count skSeed adrs = .ok (keyOf H count skSeed adrs, left) ∧
      left.Alike adrs := by
  obtain ⟨left, walked, alike⟩ := walkAll_fromSecrets (H := H) skSeed
    (List.replicate count maxDigit) adrs
  refine ⟨left, ?_, alike⟩
  rw [publicKey, ensureRoom, ensure_of few, ok_bind, ensure_of pos, ok_bind]
  simp only []
  rw [walked, ok_bind, pure_eq_ok, keyOf, compress_congr alike]

/-- A signature lists the values that its digits reveal. -/
theorem sign_eq {count : Nat} (enough : Params.checksumDigits ≤ count)
    (few : count ≤ Params.maxChains) (pos : 0 < H.n) (le : H.n ≤ Params.maxDigest)
    (message skSeed : Bytes) (adrs : Address) :
    ∃ left, sign H count message skSeed adrs =
      .ok ((blocksOf H skSeed adrs (signedDigits count message)).flatten, left) ∧
        left.Alike adrs := by
  obtain ⟨left, walked, alike⟩ := walkAll_fromSecrets (H := H) skSeed
    (signedDigits count message) adrs
  have room : count * H.n ≤ maxBuffer :=
    Nat.le_trans (Nat.mul_le_mul few le) (by decide)
  refine ⟨left, ?_, alike⟩
  rw [sign, digits_eq enough few, ok_bind, buffer_of_le room, ok_bind, ensure_of pos, ok_bind,
    walked, ok_bind]
  rfl

theorem le_maxDigit {digit : UInt32} (small : digit.toNat ≤ 15) : digit ≤ maxDigit :=
  UInt32.le_iff_toNat_le.2 small

theorem toNat_maxDigit_sub {digit : UInt32} (small : digit.toNat ≤ 15) :
    (maxDigit - digit).toNat = 15 - digit.toNat :=
  UInt32.toNat_sub_of_le _ _ (le_maxDigit small)

/-- The stretch from a revealed value to the end of its chain. -/
def toEnd (revealed : Bytes × UInt32) : Stretch :=
  ⟨revealed.1, revealed.2, maxDigit - revealed.2⟩

theorem walkable_of_mem_toEnd {blocks : List Bytes} {digits : List UInt32}
    (full : ∀ block ∈ blocks, block.length = H.n) (small : ∀ digit ∈ digits, digit.toNat ≤ 15)
    {stretch : Stretch} (member : stretch ∈ (blocks.zip digits).map toEnd) :
    Walkable H stretch := by
  obtain ⟨⟨block, digit⟩, inside, rfl⟩ := List.mem_map.1 member
  have le := small digit (List.of_mem_zip inside).2
  refine ⟨?_, full block (List.of_mem_zip inside).1⟩
  change digit.toNat + (maxDigit - digit).toNat < 2 ^ 32
  rw [toNat_maxDigit_sub le]
  omega

theorem walkAll_toEnd {blocks : List Bytes} {digits : List UInt32}
    (full : ∀ block ∈ blocks, block.length = H.n)
    (small : ∀ digit ∈ digits, digit.toNat ≤ 15) (adrs : Address) :
    ∃ left, walkAll H 0 adrs ((blocks.zip digits).map toEnd) =
      .ok (topsOf H adrs blocks digits, left) ∧ left.Alike adrs := by
  obtain ⟨left, walked, alike⟩ := walkAll_eq _ 0
    (fun _ => walkable_of_mem_toEnd full small) adrs
  refine ⟨left, ?_, alike⟩
  rw [show (0 : UInt32) = UInt32.ofNat 0 from rfl, walked]
  congr 2
  apply List.ext_getElem?
  intro i
  simp only [ends, topsOf, List.getElem?_map, List.getElem?_zipIdx, Option.map_map, Nat.zero_add]
  cases found : (blocks.zip digits)[i]? with
  | none => rfl
  | some revealed =>
      have le := small revealed.2 (List.of_mem_zip (List.mem_of_getElem? found)).2
      simp [toEnd, toNat_maxDigit_sub le]

/-- The stretches of the verifier exist, because no digit is above the largest one. -/
theorem mapM_toEnd (blocks : List Bytes) {digits : List UInt32}
    (small : ∀ digit ∈ digits, digit.toNat ≤ 15) :
    (blocks.zip digits).mapM (fun revealed => do
      return Stretch.mk revealed.1 revealed.2 (← sub32 maxDigit revealed.2)) =
      (.ok ((blocks.zip digits).map toEnd) : Outcome (List Stretch)) := by
  apply mapM_eq_ok
  intro revealed inside
  have digit_le := small revealed.2 (List.of_mem_zip inside).2
  rw [sub32_of_le (le_maxDigit digit_le), ok_bind, pure_eq_ok, toEnd]

/-- The verifier compresses the ends that the blocks of a signature lead to. -/
theorem publicKeyOf_eq {count : Nat} (enough : Params.checksumDigits ≤ count)
    (few : count ≤ Params.maxChains) (pos : 0 < H.n) (le : H.n ≤ Params.maxDigest)
    (signature : Bytes) (long : count * H.n ≤ signature.length) (message : Bytes)
    (adrs : Address) :
    ∃ left, publicKeyOf H count signature message adrs =
      .ok (compress H adrs (topsOf H adrs (Bytes.blocks H.n count signature)
        (signedDigits count message)), left) ∧ left.Alike adrs := by
  have small (digit : UInt32) (member : digit ∈ signedDigits count message) :=
    le_of_mem_signedDigits few member
  obtain ⟨left, walked, alike⟩ := walkAll_toEnd (H := H)
    (fun block => Bytes.length_of_mem_blocks long) small adrs
  have stretches := mapM_toEnd (Bytes.blocks H.n count signature) small
  refine ⟨left, ?_, alike⟩
  rw [publicKeyOf, digits_eq enough few, ok_bind, ensureRoom, ensure_of (Nat.mul_le_mul few le),
    ok_bind, ensure_of pos, ok_bind, cut_of_le long, ok_bind]
  simp only [Bytes.blocks_take]
  rw [stretches, ok_bind, walked, ok_bind, compress_congr alike.symm]
  rfl

/-- Revealed values lead to the ends of their chains. -/
theorem topsOf_blocksOf (skSeed : Bytes) (adrs : Address) {digits : List UInt32}
    (small : ∀ digit ∈ digits, digit.toNat ≤ 15) :
    topsOf H adrs (blocksOf H skSeed adrs digits) digits =
      blocksOf H skSeed adrs (List.replicate digits.length maxDigit) := by
  apply List.ext_getElem?
  intro i
  cases found : digits[i]? with
  | none =>
      have ge := List.getElem?_eq_none_iff.1 found
      simp [topsOf, blocksOf, ge]
  | some digit =>
      have le := small digit (List.mem_of_getElem? found)
      have lt := (List.getElem?_eq_some_iff.1 found).1
      have whole : digit.toNat + (15 - digit.toNat) = 15 := by omega
      have walk := chainValue_add (H := H) adrs (UInt32.ofNat i) digit.toNat (15 - digit.toNat) 0
        (secret H skSeed adrs (UInt32.ofNat i))
      rw [whole, Nat.zero_add] at walk
      have revealed := getElem?_blocksOf (H := H) skSeed adrs digits i
      rw [found, Option.map_some] at revealed
      rw [getElem?_topsOf revealed found, getElem?_blocksOf, List.getElem?_replicate, if_pos lt,
        walk]
      rfl

theorem length_flatten_signed {count : Nat} (enough : Params.checksumDigits ≤ count)
    (message skSeed : Bytes) (adrs : Address) :
    (blocksOf H skSeed adrs (signedDigits count message)).flatten.length = count * H.n := by
  rw [Bytes.length_flatten_of fun _ => length_of_mem_blocksOf, length_blocksOf,
    length_signedDigits enough]

/-- The blocks of a signature are the values that its digits reveal. -/
theorem blocks_signed {count : Nat} (enough : Params.checksumDigits ≤ count)
    (message skSeed : Bytes) (adrs : Address) :
    Bytes.blocks H.n count (blocksOf H skSeed adrs (signedDigits count message)).flatten =
      blocksOf H skSeed adrs (signedDigits count message) :=
  Bytes.blocks_flatten (by rw [length_blocksOf, length_signedDigits enough])
    fun _ => length_of_mem_blocksOf

/-- A signature completes to the public key. -/
theorem compress_topsOf_signed {count : Nat} (enough : Params.checksumDigits ≤ count)
    (few : count ≤ Params.maxChains) (message skSeed : Bytes) (adrs : Address) :
    compress H adrs (topsOf H adrs (blocksOf H skSeed adrs (signedDigits count message))
      (signedDigits count message)) = keyOf H count skSeed adrs := by
  have tops := topsOf_blocksOf (H := H) skSeed adrs
    fun digit (member : digit ∈ signedDigits count message) => le_of_mem_signedDigits few member
  rw [tops, length_signedDigits enough, keyOf]

end HashSignature.OneTime
