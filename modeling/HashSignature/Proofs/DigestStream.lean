/-
# HashSignature.Proofs.DigestStream — the digest of a message is the beginning of a stream

How long a message digest has to be is known only when the parameters are, so both families write
out as much as is asked for of a sequence of blocks: the masks of SHA-2 digest the same seed with a
counter, the sponge of SHAKE256 gives one block between two permutations. In both, a length that is
asked for only decides where the sequence is cut off (`CutFrom`). So a longer digest continues a
shorter one, and each byte comes from one place of one block.

* `Digest.cutFrom_maskFrom`, `Shake256.cutFrom_squeeze` — the two sequences.
* `Digest.mask_eq` — a mask is the digests of the seed with the counters 0, 1, 2, … behind each
  other, for as many blocks as there are counters.
* `message_digest_is_stream` — both laws for the hash functions of an instance.
-/
import HashSignature.ParameterSet
import HashSignature.Proofs.Bytes
import HashSignature.Proofs.Outcome
import HashSignature.Tweakable.Select

namespace HashSignature

set_option autoImplicit false

open Outcome

/-! ## Outputs that are cut off from a sequence of blocks -/

/-- The outputs of all lengths are cut off from one sequence of blocks of `width` bytes. -/
structure CutFrom (width : Nat) (block : Nat → Bytes) (output : Nat → Bytes) : Prop where
  width_pos : 0 < width
  length_block : ∀ i, (block i).length = width
  output_eq : ∀ count length, length ≤ count * width →
    output length = ((List.range count).flatMap block).take length

namespace CutFrom

variable {width : Nat} {block output : Nat → Bytes}

/-- A shorter output is the beginning of a longer one. -/
theorem take_output (cut : CutFrom width block output) {short long : Nat} (le : short ≤ long) :
    (output long).take short = output short := by
  -- one block for each byte of the longer output is enough for both
  have reaches : long ≤ long * width := Nat.le_mul_of_pos_right long cut.width_pos
  rw [cut.output_eq long long reaches, cut.output_eq long short (Nat.le_trans le reaches),
    List.take_take, Nat.min_eq_left le]

theorem output_continues (cut : CutFrom width block output) {short long : Nat} (le : short ≤ long) :
    output short <+: output long := by
  rw [← cut.take_output le]
  exact List.take_prefix short (output long)

/-- Each byte comes from one place of one block. -/
theorem getElem?_output (cut : CutFrom width block output) {length i : Nat} (inside : i < length) :
    (output length)[i]? = (block (i / width))[i % width]? := by
  have whole : length ≤ length * width := Nat.le_mul_of_pos_right length cut.width_pos
  have found : ((List.range length).map block)[i / width]? = some (block (i / width)) := by
    have enough : i / width < length := Nat.lt_of_le_of_lt (Nat.div_le_self i width) inside
    rw [List.getElem?_map, List.getElem?_range enough]
    rfl
  have full : ∀ piece ∈ (List.range length).map block, piece.length = width := by
    intro piece member
    obtain ⟨j, -, rfl⟩ := List.mem_map.1 member
    exact cut.length_block j
  have place := Bytes.getElem?_slice (i / width * width) width
    ((List.range length).map block).flatten (i % width)
  rw [Bytes.slice_flatten full found, if_pos (Nat.mod_lt i cut.width_pos), Nat.mul_comm,
    Nat.div_add_mod] at place
  rw [cut.output_eq length length whole, List.getElem?_take_of_lt inside, List.flatMap_def, place]

end CutFrom

/-- An output that begins with the first block goes on with the others. -/
theorem take_flatMap_range_succ {width : Nat} {block : Nat → Bytes}
    (first : (block 0).length = width) (count length : Nat) :
    ((List.range (count + 1)).flatMap block).take length =
      (block 0).take length ++
        ((List.range count).flatMap fun i => block (i + 1)).take (length - width) := by
  rw [List.range_succ_eq_map, List.flatMap_cons, List.flatMap_map, List.take_append, first]

/-! ## Masks -/

namespace Digest

variable (D : Digest) (seed : Bytes)

/-- A block of a mask: the digest of the seed with a counter in four bytes, which wraps. -/
def maskBlock (start : UInt32) (i : Nat) : Bytes :=
  D.hash (seed ++ Bytes.ofNat 4 (start + UInt32.ofNat i).toNat)

theorem maskBlock_succ (start : UInt32) (i : Nat) :
    D.maskBlock seed start (i + 1) = D.maskBlock seed (start + 1) i := by
  have counter : start + UInt32.ofNat (i + 1) = start + 1 + UInt32.ofNat i := by
    rw [UInt32.ofNat_add, UInt32.add_comm (UInt32.ofNat i), ← UInt32.add_assoc]
    rfl
  rw [maskBlock, maskBlock, counter]

theorem cutFrom_maskFrom (start : UInt32) :
    CutFrom D.width (D.maskBlock seed start) (D.maskFrom seed start) where
  width_pos := D.width_pos
  length_block _ := D.length_hash _
  output_eq count length reaches := by
    induction count generalizing start length with
    | zero =>
        obtain rfl : length = 0 := by omega
        rw [maskFrom, if_pos rfl, List.take_zero]
    | succ count ih =>
        rw [Nat.succ_mul] at reaches
        rw [take_flatMap_range_succ (D.length_hash _)]
        simp only [maskBlock_succ]
        rw [← ih (start + 1) (length - D.width) (by omega), maskFrom]
        split
        case isTrue none =>
          subst none
          rw [List.take_zero, Nat.zero_sub, maskFrom, if_pos rfl, List.nil_append]
        case isFalse =>
          have here : start + UInt32.ofNat 0 = start := UInt32.add_zero start
          rw [maskBlock, here]

/-- Up to the number of counters, no counter has wrapped. -/
theorem maskBlock_zero {i : Nat} (counted : i < 2 ^ 32) :
    D.maskBlock seed 0 i = D.hash (seed ++ Bytes.ofNat 4 i) := by
  rw [maskBlock, UInt32.zero_add, UInt32.toNat_ofNat_of_lt' counted]

/-- A mask is the digests of the seed with the counters behind each other, cut off at its length. -/
theorem mask_eq {count length : Nat} (counted : count ≤ 2 ^ 32)
    (reaches : length ≤ count * D.width) :
    D.mask seed length =
      ((List.range count).flatMap fun i => D.hash (seed ++ Bytes.ofNat 4 i)).take length := by
  rw [mask, (D.cutFrom_maskFrom seed 0).output_eq count length reaches, List.flatMap_def,
    List.flatMap_def]
  congr 2
  apply List.map_congr_left
  intro i member
  exact D.maskBlock_zero seed (Nat.lt_of_lt_of_le (List.mem_range.1 member) counted)

end Digest

/-! ## The sponge -/

namespace Shake256

/-- The block that a sponge gives after a number of permutations. -/
def State.blockAfter : State → Nat → Bytes
  | s, 0 => s.block
  | s, i + 1 => s.permute.blockAfter i

theorem State.length_blockAfter (s : State) (i : Nat) : (s.blockAfter i).length = rate := by
  induction i generalizing s with
  | zero => exact s.length_block
  | succ i ih => exact ih s.permute

theorem cutFrom_squeeze (s : State) : CutFrom rate s.blockAfter (squeeze s) where
  width_pos := by decide
  length_block := s.length_blockAfter
  output_eq count length reaches := by
    induction count generalizing s length with
    | zero =>
        obtain rfl : length = 0 := by omega
        rw [squeeze, if_pos (Nat.zero_le _), List.take_zero, List.take_zero]
    | succ count ih =>
        rw [Nat.succ_mul] at reaches
        have later := ih s.permute (length - rate) (by omega)
        rw [take_flatMap_range_succ s.length_block]
        change _ = s.block.take length ++ ((List.range count).flatMap s.permute.blockAfter).take _
        rw [← later, squeeze]
        split
        case isTrue last =>
          rw [Nat.sub_eq_zero_of_le last, squeeze, if_pos (Nat.zero_le _), List.take_zero,
            List.append_nil]
        case isFalse more =>
          rw [List.take_of_length_le (by rw [s.length_block]; omega)]

end Shake256

/-! ## The hash functions of an instance -/

/-- Outputs of up to `2 ^ 32` digests are cut off from the digests of a seed with the counters 0, 1,
2, … behind each other, and each byte of them comes from one place of one digest. -/
structure CountsUp (D : Digest) (seed : Bytes) (output : Nat → Bytes) : Prop where
  output_eq : ∀ count ≤ 2 ^ 32, ∀ length ≤ count * D.width,
    output length =
      ((List.range count).flatMap fun i => D.hash (seed ++ Bytes.ofNat 4 i)).take length
  byte_eq : ∀ length ≤ 2 ^ 32 * D.width, ∀ i < length,
    (output length)[i]? = (D.hash (seed ++ Bytes.ofNat 4 (i / D.width)))[i % D.width]?

theorem Digest.countsUp_mask (D : Digest) (seed : Bytes) : CountsUp D seed (D.mask seed) where
  output_eq _ counted _ reaches := D.mask_eq seed counted reaches
  byte_eq length reaches i inside := by
    have counted : i / D.width < 2 ^ 32 :=
      Nat.div_lt_of_lt_mul (by rw [Nat.mul_comm]; omega)
    rw [mask, (D.cutFrom_maskFrom seed 0).getElem?_output inside, D.maskBlock_zero seed counted]

namespace Params

variable {p : Params} {pkSeed : Bytes}

/-- The digest function that the SHA-2 family digests messages with. -/
def messageHash (p : Params) : Digest := if p.n = 16 then .sha256 else .sha512

theorem n_le_of_sized (sized : p.n = 16 ∨ p.n = 24 ∨ p.n = 32) : p.n.toNat ≤ maxDigest := by
  rcases sized with n_eq | n_eq | n_eq
  all_goals rw [n_eq]; decide

theorem hash_of_shake (fits : p.n.toNat ≤ maxDigest) (reaches : p.n.toNat ≤ pkSeed.length)
    (family : p.family = .shake) :
    p.hash pkSeed = .ok (.shake p.n.toNat (pkSeed.take p.n.toNat)) := by
  rw [hash, dif_pos fits, cut_of_le reaches, ok_bind]
  simp only [family]
  rfl

theorem hash_of_sha2 (sized : p.n = 16 ∨ p.n = 24 ∨ p.n = 32) (reaches : p.n.toNat ≤ pkSeed.length)
    (family : p.family = .sha2) :
    ∃ narrow_fits wide_fits, p.hash pkSeed =
      .ok (.sha2 p.messageHash p.n.toNat (pkSeed.take p.n.toNat) narrow_fits wide_fits) := by
  have fits := n_le_of_sized sized
  rw [hash, dif_pos fits, cut_of_le reaches, ok_bind]
  by_cases narrow : p.n = 16
  · have narrow_hash : p.usesWideDigest = false := by rw [usesWideDigest, narrow]; simp
    rw [messageHash, if_pos narrow]
    refine ⟨fits, fits, ?_⟩
    simp only [family, narrow_hash]
    rfl
  · have wide_hash : p.usesWideDigest = true := by
      rcases sized with n_eq | n_eq | n_eq
      · exact absurd n_eq narrow
      · rw [usesWideDigest, n_eq, family]; decide
      · rw [usesWideDigest, n_eq, family]; decide
    rw [messageHash, if_neg narrow]
    refine ⟨fits, Nat.le_trans fits (by decide), ?_⟩
    simp only [family, wide_hash]
    rfl

end Params

/-- The digest of a message is the beginning of a stream, under every public seed and for all three
back ends. A digest has the length that is asked for, and a longer one continues a shorter one. In
the SHA-2 family it is cut off from the digests of a seed and a counter, where the seed is made of
the randomizer, the public seed and a digest of all four inputs. -/
theorem message_digest_is_stream (p : Params) (pkSeed : Bytes)
    (sized : p.n = 16 ∨ p.n = 24 ∨ p.n = 32) (reaches : p.n.toNat ≤ pkSeed.length) :
    ∃ H, p.hash pkSeed = .ok H ∧ ∀ randomizer pkRoot message : Bytes,
      (∀ length, (H.hMsg randomizer pkRoot message length).length = length) ∧
      (∀ short long, short ≤ long →
        H.hMsg randomizer pkRoot message short <+: H.hMsg randomizer pkRoot message long) ∧
      (p.family = .sha2 → CountsUp p.messageHash
        (randomizer ++ pkSeed.take p.n.toNat ++
          p.messageHash.hash (randomizer ++ pkSeed.take p.n.toNat ++ pkRoot ++ message))
        (H.hMsg randomizer pkRoot message)) := by
  cases family : p.family with
  | shake =>
      refine ⟨_, Params.hash_of_shake (Params.n_le_of_sized sized) reaches family, ?_⟩
      intro randomizer pkRoot message
      refine ⟨fun _ => Shake256.length_hash _ _, ?_, nofun⟩
      intro short long le
      exact (Shake256.cutFrom_squeeze _).output_continues le
  | sha2 =>
      obtain ⟨_, _, hashed⟩ := Params.hash_of_sha2 sized reaches family
      refine ⟨_, hashed, ?_⟩
      intro randomizer pkRoot message
      refine ⟨fun _ => Digest.length_mask _ _ _, ?_, fun _ => Digest.countsUp_mask _ _⟩
      intro short long le
      exact (Digest.cutFrom_maskFrom _ _ 0).output_continues le

/-- With SHA-512: one byte more than a whole digest needs a second one, and nothing needs none. -/
theorem message_digest_is_stream_partial :
    ∃ H, ParameterSet.sha2_192f.params.hash (Bytes.zeros 24) = .ok H ∧
      H.hMsg [1] [2] [3] 64 <+: H.hMsg [1] [2] [3] 65 ∧
      H.hMsg [1] [2] [3] 65 = ((List.range 2).flatMap fun i => Digest.sha512.hash
        ([1] ++ Bytes.zeros 24 ++ Digest.sha512.hash ([1] ++ Bytes.zeros 24 ++ [2] ++ [3]) ++
          Bytes.ofNat 4 i)).take 65 ∧
      H.hMsg [1] [2] [3] 0 = [] := by
  obtain ⟨H, hashed, streams⟩ := message_digest_is_stream ParameterSet.sha2_192f.params
    (Bytes.zeros 24) (.inr (.inl rfl)) (by decide)
  obtain ⟨-, continues, counts⟩ := streams [1] [2] [3]
  have seed : (Bytes.zeros 24).take ParameterSet.sha2_192f.params.n.toNat = Bytes.zeros 24 := by
    decide
  have wide : ParameterSet.sha2_192f.params.messageHash = .sha512 := if_neg (by decide)
  have counted := counts rfl
  rw [seed, wide] at counted
  refine ⟨H, hashed, continues 64 65 (by decide), ?_, ?_⟩
  · exact counted.output_eq 2 (by decide) 65 (by decide)
  · rw [counted.output_eq 0 (by decide) 0 (by decide), List.take_zero]

end HashSignature
