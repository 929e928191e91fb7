/-
# HashSignature.Proofs.DigitVectors — what the digits of a byte string tell

The reader of digits keeps the bits it has taken but not yet used in one 64-bit word, which it
shifts, masks and fills up again in the middle of a digit. `Reached` are the readers that occur on
the way, and `Reached.reads` is what all of them have in common: the word holds exactly the bits
that come next.

* `base2b_slices_bits` — the digits are the consecutive slices of the bits of a string, so they
  tell these bits and nothing else.
* `Winternitz.digits_incomparable` — the digits that a one-time key signs for two messages are
  incomparable: whoever lowers one digit has to raise another.
-/
import HashSignature.Proofs.Digits

namespace HashSignature

set_option autoImplicit false

open Outcome

/-! ## Slices of a bit stream -/

namespace Bytes

/-- Two strings agree on the slices of `b` bits if and only if they agree on the bits in them. -/
theorem slices_eq_iff {bytes other : Bytes} {b count : Nat} :
    (∀ i < count, field bytes (i * b) b = field other (i * b) b) ↔
      ∀ position < count * b, bit bytes position = bit other position := by
  constructor
  · intro same position inside
    have some_bit : 0 < b := Nat.pos_of_lt_mul_left inside
    have slice := same (position / b) (Nat.div_lt_of_lt_mul (Nat.mul_comm _ b ▸ inside))
    have found := field_eq_iff.1 slice (position % b) (Nat.mod_lt _ some_bit)
    rwa [Nat.mul_comm, Nat.div_add_mod] at found
  · intro same i inside
    apply field_eq_iff.2
    intro j lt
    have ends := Nat.mul_le_mul_right b (show i + 1 ≤ count from inside)
    rw [Nat.succ_mul] at ends
    exact same (i * b + j) (by omega)

end Bytes

namespace BitReader

/-- A reader that cuts digits of `b` bits from a string, with the number of bits that it has used:
it takes a byte while it holds too few bits for a digit, and uses a digit when it can. -/
inductive Reached (b : Nat) (bytes : Bytes) : (used : Nat) → BitReader → Prop where
  | start : Reached b bytes 0 (start bytes)
  | take {used : Nat} {reader : BitReader} (before : Reached b bytes used reader)
      (short : reader.bits < b) : Reached b bytes used reader.takeByte
  | use {used : Nat} {reader : BitReader} (before : Reached b bytes used reader)
      (enough : b ≤ reader.bits) : Reached b bytes (used + b) (reader.use b).2

variable {b used : Nat} {bytes : Bytes} {reader : BitReader}

/-- A reader on the way holds the bits that come next, and its word has room for one more byte
whenever it takes one. -/
theorem Reached.reads (narrow : b ≤ 32) (reached : Reached b bytes used reader) :
    ∃ taken, Reads bytes used reader taken ∧ reader.bits < b + 8 := by
  induction reached with
  | start => exact ⟨0, reads_start bytes, Nat.zero_lt_of_ne_zero (by omega)⟩
  | take before short ih =>
      obtain ⟨taken, reads, -⟩ := ih
      exact ⟨taken + 1, reads.takeByte (by omega), by simp only [takeByte]; omega⟩
  | use before enough ih =>
      obtain ⟨taken, reads, few⟩ := ih
      obtain ⟨-, next, few⟩ := reads.use narrow enough few
      exact ⟨taken, next, few⟩

theorem Reached.fill (reached : Reached b bytes used reader) :
    Reached b bytes used (reader.fill b) ∧ b ≤ (reader.fill b).bits := by
  induction reader using BitReader.fill.induct b with
  | case1 reader short ih =>
      rw [BitReader.fill, if_pos short]
      exact ih (reached.take short)
  | case2 reader enough =>
      rw [BitReader.fill, if_neg enough]
      exact ⟨reached, Nat.le_of_not_lt enough⟩

/-- Every digit is cut by a reader on the way. -/
theorem Reached.digits (reached : Reached b bytes used reader) {count i : Nat} (inside : i < count) :
    ∃ at_digit, Reached b bytes (used + i * b) at_digit ∧ b ≤ at_digit.bits ∧
      (reader.digits b count)[i]? = some (at_digit.use b).1 := by
  induction count generalizing used reader i with
  | zero => omega
  | succ count ih =>
      obtain ⟨filled, enough⟩ := reached.fill
      cases i with
      | zero =>
          rw [Nat.zero_mul, Nat.add_zero]
          exact ⟨reader.fill b, filled, enough, rfl⟩
      | succ i =>
          obtain ⟨at_digit, later, enough', digit⟩ :=
            ih (filled.use enough) (Nat.lt_of_succ_lt_succ inside)
          rw [Nat.add_assoc, Nat.add_comm b, ← Nat.succ_mul] at later
          exact ⟨at_digit, later, enough', digit⟩

end BitReader

/-- The digits of `b` bits are the consecutive slices of the bits of a string, which go on with zeros
behind its end, most significant first. So two strings have the same digits if and only if they agree
on the bits that the digits cover. Each digit is used by a reader on the way, and no reader on the
way has lost a bit: its word holds all bits that were taken but not yet used. The only thing that can
go wrong is that so many digits do not fit a buffer. -/
theorem base2b_slices_bits {b : Nat} (narrow : b ≤ 32) (count : Nat) :
    ∃ slices : Bytes → List UInt32,
      (∀ bytes, base2b bytes b count = (buffer (count * digitWidth)).map fun _ => slices bytes) ∧
      (∀ bytes, (slices bytes).map UInt32.toNat =
        (List.range count).map fun i => Bytes.field bytes (i * b) b) ∧
      (∀ bytes, ∀ digit ∈ slices bytes, digit.toNat < 2 ^ b) ∧
      (b = 0 → ∀ bytes, slices bytes = List.replicate count 0) ∧
      (∀ bytes other, slices bytes = slices other ↔
        ∀ position < count * b, Bytes.bit bytes position = Bytes.bit other position) ∧
      (∀ bytes, ∀ i < count, ∃ reader, BitReader.Reached b bytes (i * b) reader ∧
        b ≤ reader.bits ∧ (slices bytes)[i]? = some (reader.use b).1) ∧
      ∀ bytes used reader, BitReader.Reached b bytes used reader →
        reader.bits < 64 ∧ reader.held.toNat = Bytes.field bytes used reader.bits := by
  have values (bytes : Bytes) := toNat_digits_start bytes narrow count
  have below (bytes : Bytes) (digit : UInt32)
      (member : digit ∈ (BitReader.start bytes).digits b count) : digit.toNat < 2 ^ b := by
    have value := List.mem_map_of_mem (f := UInt32.toNat) member
    rw [values] at value
    obtain ⟨i, -, value⟩ := List.mem_map.1 value
    exact value ▸ Bytes.field_lt bytes (i * b) b
  refine ⟨fun bytes => (BitReader.start bytes).digits b count,
    fun bytes => base2b_eq_map bytes narrow count, values, below, ?_, ?_, ?_, ?_⟩
  · rintro rfl bytes
    refine List.eq_replicate_iff.2 ⟨?_, fun digit member => ?_⟩
    · simpa using congrArg List.length (values bytes)
    · exact UInt32.toNat_inj.1 (Nat.lt_one_iff.1 (below bytes digit member))
  · intro bytes other
    rw [← List.map_inj_right fun _ _ => UInt32.toNat_inj.1, values, values, List.map_inj_left,
      ← Bytes.slices_eq_iff]
    simp only [List.mem_range]
  · intro bytes i inside
    obtain ⟨reader, reached, enough, digit⟩ := (BitReader.Reached.start (b := b)).digits inside
    rw [Nat.zero_add] at reached
    exact ⟨reader, reached, enough, digit⟩
  · intro bytes used reader reached
    obtain ⟨taken, reads, few⟩ := reached.reads narrow
    exact ⟨by omega, reads.held_eq⟩

/-- Two digits of 31 bits across eight bytes: the last two bits of the string are not covered, those
before them are. -/
theorem base2b_slices_bits_uneven :
    31 ≤ 32 ∧ base2b [0x80, 0, 0, 1, 0xFF] 31 2 = .ok [0x40000000, 0x7FC00000] ∧
    base2b [0x80, 0, 0, 1, 0xFF, 0, 0, 3] 31 2 = base2b [0x80, 0, 0, 1, 0xFF] 31 2 ∧
    base2b [0x80, 0, 0, 1, 0xFF, 0, 0, 4] 31 2 ≠ base2b [0x80, 0, 0, 1, 0xFF] 31 2 := by
  obtain ⟨slices, cut, values, -, -, same, -⟩ := base2b_slices_bits (b := 31) (by decide) 2
  have run (bytes : Bytes) : base2b bytes 31 2 = .ok (slices bytes) := (cut bytes).trans rfl
  have value : slices [0x80, 0, 0, 1, 0xFF] = [0x40000000, 0x7FC00000] := by
    rw [← List.map_inj_right fun _ _ => UInt32.toNat_inj.1, values]
    decide
  refine ⟨by decide, by rw [run, value], ?_, ?_⟩
  · rw [run, run, (same _ [0x80, 0, 0, 1, 0xFF]).2 (by decide)]
  · rw [run, run]
    intro equal
    exact absurd ((same _ _).1 (Except.ok.inj equal)) (by decide)

/-! ## Digits and checksum of a message -/

namespace Winternitz

/-- Check digits are the digits of their sum, most significant first. -/
theorem checkDigits_value {sum : Nat} (small : sum < 4096) :
    ∃ x y z, checkDigits sum = [x, y, z] ∧ x.toNat * 16 ^ 2 + y.toNat * 16 + z.toNat = sum := by
  obtain ⟨high, tail⟩ := List.cons_eq_cons.1 (toNat_checkDigits small)
  obtain ⟨middle, tail⟩ := List.cons_eq_cons.1 tail
  obtain ⟨low, -⟩ := List.cons_eq_cons.1 tail
  refine ⟨_, _, _, rfl, ?_⟩
  rw [high, middle, low]
  omega

/-- A one-time key signs the half bytes of a message and the three base-16 digits of what they lack to
fifteen in all, most significant first. None of these digits is above fifteen. Of two different
messages neither has digits nowhere above those of the other: somewhere the first one's digit is
below, and somewhere else the second one's. -/
theorem digits_incomparable {n : Nat} (supported : n = 16 ∨ n = 24 ∨ n = 32) :
    ∃ signed : Bytes → List UInt32,
      (∀ message, digits (2 * n + 3) message = .ok (signed message)) ∧
      (∀ message, (signed message).length = 2 * n + 3) ∧
      (∀ message, ∀ digit ∈ signed message, digit ≤ 15) ∧
      (∀ message, ((signed message).take (2 * n)).map UInt32.toNat =
        (List.range (2 * n)).map fun i => Bytes.field message (i * 4) 4) ∧
      (∀ message, ∃ x y z, (signed message).drop (2 * n) = [x, y, z] ∧
        x.toNat * 16 ^ 2 + y.toNat * 16 + z.toNat =
          (((signed message).take (2 * n)).map fun digit => 15 - digit.toNat).sum) ∧
      ∀ message other : Bytes, message.length = n → other.length = n → message ≠ other →
        (∃ (i : Nat) (x y : UInt32),
          (signed message)[i]? = some x ∧ (signed other)[i]? = some y ∧ x < y) ∧
        ∃ (i : Nat) (x y : UInt32),
          (signed message)[i]? = some x ∧ (signed other)[i]? = some y ∧ y < x := by
  have n_le : n ≤ Params.maxDigest := by rw [Params.maxDigest]; omega
  have few := signed_le_maxChains n_le
  have front (message : Bytes) : (signedDigits (2 * n + 3) message).take (2 * n) =
      messageDigits (2 * n) message := List.take_left' (length_messageDigits _ _)
  refine ⟨signedDigits (2 * n + 3), fun message => ?_, fun message => ?_, ?_, ?_, ?_, ?_⟩
  · exact digits_eq (Nat.le_add_left _ _) few message
  · exact length_signedDigits (Nat.le_add_left _ _) message
  · intro message digit member
    exact UInt32.le_iff_toNat_le.2 (le_of_mem_signedDigits few member)
  · intro message
    rw [front, toNat_messageDigits, digitBits]
  · intro message
    have total := lack_messageDigits_le (2 * n) message
    have back : (signedDigits (2 * n + 3) message).drop (2 * n) =
        checkDigits (lack (messageDigits (2 * n) message)) :=
      List.drop_left' (length_messageDigits _ _)
    rw [front, back]
    exact checkDigits_value (by omega)
  · intro message other length length' ne
    obtain ⟨i, y, x, at_other, at_message, lt⟩ := exists_signed_lt n_le length' length ne.symm
    exact ⟨exists_signed_lt n_le length length' ne, i, x, y, at_message, at_other, lt⟩

/-- The message whose digits are all the lowest and the one whose digits are all the highest. -/
theorem digits_incomparable_extremes :
    ∃ lowest highest : List UInt32,
      digits 67 (Bytes.zeros 32) = .ok lowest ∧ lowest.drop 64 = [3, 12, 0] ∧
      digits 67 (List.replicate 32 255) = .ok highest ∧ highest.drop 64 = [0, 0, 0] ∧
      (∃ (i : Nat) (x y : UInt32), lowest[i]? = some x ∧ highest[i]? = some y ∧ x < y) ∧
      ∃ (i : Nat) (x y : UInt32), lowest[i]? = some x ∧ highest[i]? = some y ∧ y < x := by
  obtain ⟨signed, cut, -, -, -, -, incomparable⟩ := digits_incomparable (n := 32) (by decide)
  have known (message : Bytes) : signed message = signedDigits 67 message :=
    Except.ok.inj ((cut message).symm.trans (digits_eq (by decide) (by decide) message))
  refine ⟨_, _, cut _, ?_, cut _, ?_, incomparable _ _ (by decide) (by decide) (by decide)⟩
  · rw [known]; decide
  · rw [known]; decide

end Winternitz

end HashSignature
