/-
# HashSignature.Proofs.Digits — digits as fields of a bit string, and what the checksum prevents

A byte string is a stream of bits that goes on with zeros for ever (`Bytes.bit`), and a field of it
is the number in some of its consecutive bits (`Bytes.field`).

* `base2b_eq` — the digits that the reader cuts are the fields that tile the stream. The reader's
  word never loses a bit that is still needed.
* `Winternitz.digits_eq` — a one-time key signs the fields of the message and the three base-16
  digits of what they lack to fifteen.
* `Winternitz.exists_signed_lt` — no message's digits are nowhere below those of another one: lower
  message digits lack more, and a larger sum has a larger digit.
-/
import Mathlib.Algebra.GroupWithZero.Nat
import HashSignature.Proofs.Bytes
import HashSignature.Proofs.Outcome
import HashSignature.Digits

namespace HashSignature

set_option autoImplicit false

open Outcome

namespace Bytes

/-! ## Fields of a bit stream -/

/-- The bit at a position, most significant first; behind the end of the string it is zero. -/
def bit (bytes : Bytes) (position : Nat) : Nat :=
  (bytes[position / 8]?.getD 0).toNat / 2 ^ (7 - position % 8) % 2

/-- The number in the `width` bits from a position on. -/
def field (bytes : Bytes) (start : Nat) : (width : Nat) → Nat
  | 0 => 0
  | width + 1 => 2 * field bytes start width + bit bytes (start + width)

theorem bit_lt (bytes : Bytes) (position : Nat) : bit bytes position < 2 :=
  Nat.mod_lt _ (by decide)

theorem field_lt (bytes : Bytes) (start width : Nat) : field bytes start width < 2 ^ width := by
  induction width with
  | zero => simp [field]
  | succ width ih =>
      have lt := bit_lt bytes (start + width)
      rw [field, Nat.pow_succ]; omega

/-- A word of 32 bits holds a field that is not wider. -/
theorem toNat_ofNat_field (bytes : Bytes) (start : Nat) {width : Nat} (narrow : width ≤ 32) :
    (UInt32.ofNat (field bytes start width)).toNat = field bytes start width := by
  have power : 2 ^ width ≤ 2 ^ 32 := Nat.pow_le_pow_right (by decide) narrow
  rw [UInt32.toNat_ofNat', Nat.mod_eq_of_lt (Nat.lt_of_lt_of_le (field_lt _ _ _) power)]

/-- Fields are equal if and only if all their bits are. -/
theorem field_eq_iff {bytes other : Bytes} {start width : Nat} :
    field bytes start width = field other start width ↔
      ∀ i < width, bit bytes (start + i) = bit other (start + i) := by
  induction width with
  | zero => simp [field]
  | succ width ih =>
      have lt := bit_lt bytes (start + width)
      have lt' := bit_lt other (start + width)
      rw [field, field]
      constructor
      · intro same i inside
        have front : field bytes start width = field other start width := by omega
        rcases Nat.lt_succ_iff_lt_or_eq.1 inside with before | rfl
        · exact ih.1 front i before
        · omega
      · intro same
        rw [ih.2 fun i inside => same i (by omega), same width (by omega)]

/-- A field is the field of its front bits, shifted, and the field of the others. -/
theorem field_add (bytes : Bytes) (start front back : Nat) :
    field bytes start (front + back) =
      field bytes start front * 2 ^ back + field bytes (start + front) back := by
  induction back with
  | zero => simp [field]
  | succ back ih =>
      rw [← Nat.add_assoc, field, ih, field, Nat.pow_succ, Nat.add_assoc start]
      generalize 2 ^ back = power
      rw [← Nat.mul_assoc, Nat.mul_add, Nat.mul_comm 2 (_ * power)]
      omega

/-- The field of the first bits of a byte is the byte without the others. -/
theorem field_front (bytes : Bytes) (i : Nat) {width : Nat} (le : width ≤ 8) :
    field bytes (8 * i) width = (bytes[i]?.getD 0).toNat / 2 ^ (8 - width) := by
  induction width with
  | zero => exact (Nat.div_eq_of_lt (UInt8.toNat_lt _)).symm
  | succ width ih =>
      have half : (bytes[i]?.getD 0).toNat / 2 ^ (8 - width) =
          (bytes[i]?.getD 0).toNat / 2 ^ (7 - width) / 2 := by
        rw [Nat.div_div_eq_div_mul, ← Nat.pow_succ, show (7 - width).succ = 8 - width by omega]
      rw [field, ih (by omega), half, bit, show (8 * i + width) / 8 = i by omega,
        show (8 * i + width) % 8 = width by omega, show 8 - (width + 1) = 7 - width by omega]
      omega

/-- The field of the eight bits of a byte is the byte. -/
theorem field_byte (bytes : Bytes) (i : Nat) :
    field bytes (8 * i) 8 = (bytes[i]?.getD 0).toNat := by
  rw [field_front bytes i (by omega), Nat.sub_self, Nat.pow_zero, Nat.div_one]

/-- The two half bytes of a byte. -/
theorem field_halves (bytes : Bytes) (i : Nat) :
    field bytes (8 * i) 4 * 16 + field bytes (8 * i + 4) 4 = (bytes[i]?.getD 0).toNat := by
  rw [← field_byte, field_add bytes (8 * i) 4 4, show 2 ^ 4 = 16 from rfl]

theorem bit_cons (b : UInt8) (rest : Bytes) (position : Nat) :
    bit (b :: rest) (8 + position) = bit rest position := by
  rw [bit, bit, show (8 + position) / 8 = position / 8 + 1 by omega, List.getElem?_cons_succ,
    Nat.add_mod_left]

theorem field_cons (b : UInt8) (rest : Bytes) (start width : Nat) :
    field (b :: rest) (8 + start) width = field rest start width := by
  induction width with
  | zero => rfl
  | succ width ih => rw [field, field, ih, Nat.add_assoc, bit_cons]

/-- The field of all bits of a string is its number. -/
theorem field_whole (bytes : Bytes) : field bytes 0 (8 * bytes.length) = bytes.toNat := by
  induction bytes with
  | nil => rfl
  | cons b rest ih =>
      have first := field_byte (b :: rest) 0
      rw [Nat.mul_zero, List.getElem?_cons_zero, Option.getD_some] at first
      rw [List.length_cons, Nat.mul_succ, Nat.add_comm, field_add, first, Nat.zero_add]
      have rest_eq := field_cons b rest 0 (8 * rest.length)
      rw [Nat.add_zero] at rest_eq
      rw [rest_eq, ih, toNat, Nat.pow_mul]

theorem toNat_lt (bytes : Bytes) : bytes.toNat < 2 ^ (8 * bytes.length) :=
  field_whole bytes ▸ field_lt bytes 0 (8 * bytes.length)

/-- A field inside a string is cut out of the string's number. -/
theorem field_eq_toNat {bytes : Bytes} {start width : Nat}
    (inside : start + width ≤ 8 * bytes.length) :
    field bytes start width =
      bytes.toNat / 2 ^ (8 * bytes.length - (start + width)) % 2 ^ width := by
  obtain ⟨behind, total⟩ := Nat.exists_eq_add_of_le inside
  have last := field_lt bytes (start + width) behind
  have split := field_add bytes 0 (start + width) behind
  rw [← total, field_whole, Nat.zero_add] at split
  rw [split, total, Nat.add_sub_cancel_left, Nat.mul_comm,
    Nat.mul_add_div (Nat.two_pow_pos _), Nat.div_eq_of_lt last, Nat.add_zero, field_add,
    Nat.zero_add, Nat.mul_comm, Nat.mul_add_mod, Nat.mod_eq_of_lt (field_lt _ _ _)]

end Bytes

/-! ## Cutting digits -/

namespace BitReader

/-- A reader that has used the first `used` bits of a string, all of which it took from its front. -/
structure Reads (bytes : Bytes) (used : Nat) (reader : BitReader) (taken : Nat) : Prop where
  taken_eq : 8 * taken = used + reader.bits
  rest_eq : reader.rest = bytes.drop taken
  held_eq : reader.held.toNat = Bytes.field bytes used reader.bits

variable {bytes : Bytes} {used taken b : Nat} {reader : BitReader}

theorem reads_start (bytes : Bytes) : Reads bytes 0 (start bytes) 0 := ⟨rfl, rfl, rfl⟩

/-- One more byte keeps the invariant while the word has room for it. -/
theorem Reads.takeByte (reads : Reads bytes used reader taken) (room : reader.bits + 8 ≤ 64) :
    Reads bytes used reader.takeByte (taken + 1) where
  taken_eq := by have := reads.taken_eq; simp only [BitReader.takeByte]; omega
  rest_eq := by simp [BitReader.takeByte, reads.rest_eq]
  held_eq := by
    have front : reader.held.toNat < 2 ^ reader.bits := reads.held_eq ▸ Bytes.field_lt _ _ _
    have power : 2 ^ reader.bits * 2 ^ 8 ≤ 2 ^ 64 := by
      rw [← Nat.pow_add]; exact Nat.pow_le_pow_right (by decide) room
    have byte : (reader.rest.headD 0).toNat = Bytes.field bytes (used + reader.bits) 8 := by
      rw [← reads.taken_eq, Bytes.field_byte, reads.rest_eq, List.headD_eq_head?_getD,
        List.head?_drop]
    have byte_lt : (reader.rest.headD 0).toNat < 2 ^ 8 := UInt8.toNat_lt _
    have shifted : (reader.held <<< 8).toNat = reader.held.toNat * 2 ^ 8 := by
      rw [UInt64.toNat_shiftLeft, Nat.shiftLeft_eq, show (8 : UInt64).toNat % 64 = 8 from rfl,
        Nat.mod_eq_of_lt (by omega)]
    simp only [BitReader.takeByte]
    rw [Bytes.field_add, ← reads.held_eq, ← byte, UInt64.toNat_or, shifted, Nat.mul_comm,
      UInt8.toNat_toUInt64, Nat.two_pow_add_eq_or_of_lt byte_lt]

/-- A filled reader holds enough bits for a digit. -/
theorem Reads.fill (small : b ≤ 32) (reads : Reads bytes used reader taken)
    (few : reader.bits < b + 8) :
    ∃ taken, Reads bytes used (reader.fill b) taken ∧ b ≤ (reader.fill b).bits ∧
      (reader.fill b).bits < b + 8 := by
  induction reader using BitReader.fill.induct b generalizing taken with
  | case1 reader short ih =>
      rw [BitReader.fill, if_pos short]
      exact ih (reads.takeByte (by omega)) (by simp only [BitReader.takeByte]; omega)
  | case2 reader enough =>
      rw [BitReader.fill, if_neg enough]
      exact ⟨taken, reads, by omega, few⟩

theorem toNat_low {bits : Nat} (small : bits < 64) (word : UInt64) :
    (low bits word).toNat = word.toNat % 2 ^ bits :=
  Outcome.toNat_and_mask (Outcome.toNat_one_shiftLeft small) word

/-- Using a digit takes the next field of the stream. -/
theorem Reads.use (small : b ≤ 32) (reads : Reads bytes used reader taken)
    (enough : b ≤ reader.bits) (few : reader.bits < b + 8) :
    (reader.use b).1 = UInt32.ofNat (Bytes.field bytes used b) ∧
      Reads bytes (used + b) (reader.use b).2 taken ∧ (reader.use b).2.bits < b + 8 := by
  have width : reader.bits = b + (reader.bits - b) := by omega
  have split := Bytes.field_add bytes used b (reader.bits - b)
  rw [← width, ← reads.held_eq] at split
  have back := Bytes.field_lt bytes (used + b) (reader.bits - b)
  have front := Bytes.field_lt bytes used b
  have shifted : (reader.held >>> UInt64.ofNat (reader.bits - b)).toNat =
      Bytes.field bytes used b := by
    rw [UInt64.toNat_shiftRight, UInt64.toNat_ofNat', Nat.mod_eq_of_lt (by omega),
      Nat.mod_eq_of_lt (by omega), Nat.shiftRight_eq_div_pow, split, Nat.mul_comm,
      Nat.mul_add_div (Nat.two_pow_pos _), Nat.div_eq_of_lt back, Nat.add_zero]
  refine ⟨?_, ⟨?_, reads.rest_eq, ?_⟩, ?_⟩
  · apply UInt32.toNat_inj.1
    rw [BitReader.use, UInt64.toNat_toUInt32, toNat_low (by omega), shifted, UInt32.toNat_ofNat',
      Nat.mod_eq_of_lt front]
  · have := reads.taken_eq; simp only [BitReader.use]; omega
  · simp only [BitReader.use]
    rw [toNat_low (by omega), split, Nat.mul_comm, Nat.mul_add_mod, Nat.mod_eq_of_lt back]
  · simp only [BitReader.use]; omega

/-- The digits from a point of the stream on are the fields that follow it. -/
theorem Reads.digits (small : b ≤ 32) (count : Nat) (reads : Reads bytes used reader taken)
    (few : reader.bits < b + 8) :
    reader.digits b count =
      (List.range count).map fun i => UInt32.ofNat (Bytes.field bytes (used + i * b) b) := by
  induction count generalizing used reader taken with
  | zero => rfl
  | succ count ih =>
      obtain ⟨_, filled, enough, still⟩ := reads.fill small few
      obtain ⟨digit, next, few⟩ := filled.use small enough still
      change ((reader.fill b).use b).1 :: BitReader.digits b count ((reader.fill b).use b).2 = _
      rw [List.range_succ_eq_map, List.map_cons, List.map_map, digit, ih next few, Nat.zero_mul,
        Nat.add_zero]
      simp only [Function.comp_def, Nat.succ_mul, Nat.add_assoc, Nat.add_comm b]

end BitReader

/-- What the reader cuts from its start are the fields that tile the stream. -/
theorem digits_start (bytes : Bytes) {b : Nat} (small : b ≤ 32) (count : Nat) :
    (BitReader.start bytes).digits b count =
      (List.range count).map fun i => UInt32.ofNat (Bytes.field bytes (i * b) b) := by
  rw [(BitReader.reads_start bytes).digits small count (by simp [BitReader.start])]
  simp

/-- The words that the reader cuts hold these fields. -/
theorem toNat_digits_start (bytes : Bytes) {b : Nat} (small : b ≤ 32) (count : Nat) :
    ((BitReader.start bytes).digits b count).map UInt32.toNat =
      (List.range count).map fun i => Bytes.field bytes (i * b) b := by
  rw [digits_start bytes small, List.map_map]
  exact List.map_congr_left fun i _ => Bytes.toNat_ofNat_field bytes (i * b) small

/-- The only rule that cutting digits can break is that they need room. -/
theorem base2b_eq_map (bytes : Bytes) {b : Nat} (small : b ≤ 32) (count : Nat) :
    base2b bytes b count =
      (buffer (count * digitWidth)).map fun _ => (BitReader.start bytes).digits b count := by
  obtain ⟨_, shifted, -⟩ := shl64_one_eq (show b < 64 by omega)
  rw [base2b, shifted, ok_bind]
  exact bind_pure_eq_map _ _

/-- The digits of a byte string are the fields that tile its bit stream. -/
theorem base2b_eq {b count : Nat} (bytes : Bytes) (small : b ≤ 32)
    (room : count * digitWidth ≤ maxBuffer) :
    base2b bytes b count =
      .ok ((List.range count).map fun i => UInt32.ofNat (Bytes.field bytes (i * b) b)) := by
  rw [base2b_eq_map bytes small, buffer_of_le room, ← digits_start bytes small]
  rfl

/-! ## The digits of a one-time signature -/

namespace Winternitz

/-- The digits of a message. -/
def messageDigits (count : Nat) (message : Bytes) : List UInt32 :=
  (List.range count).map fun i => UInt32.ofNat (Bytes.field message (i * digitBits) digitBits)

/-- What digits lack to the largest one, in all. -/
def lack (digits : List UInt32) : Nat := (digits.map fun digit => 15 - digit.toNat).sum

/-- The three digits of a checksum, most significant first. -/
def checkDigits (sum : Nat) : List UInt32 :=
  [UInt32.ofNat (sum / 256), UInt32.ofNat (sum / 16 % 16), UInt32.ofNat (sum % 16)]

/-- The digits that a key of `count` chains signs. -/
def signedDigits (count : Nat) (message : Bytes) : List UInt32 :=
  let front := messageDigits (count - Params.checksumDigits) message
  front ++ checkDigits (lack front)

@[simp] theorem length_messageDigits (count : Nat) (message : Bytes) :
    (messageDigits count message).length = count := by simp [messageDigits]

theorem length_signedDigits {count : Nat} (enough : 3 ≤ count) (message : Bytes) :
    (signedDigits count message).length = count := by
  simp [signedDigits, checkDigits, Params.checksumDigits]; omega

theorem toNat_field_digit (message : Bytes) (start : Nat) :
    (UInt32.ofNat (Bytes.field message start digitBits)).toNat =
      Bytes.field message start digitBits :=
  Bytes.toNat_ofNat_field message start (by decide)

theorem toNat_messageDigits (count : Nat) (message : Bytes) :
    (messageDigits count message).map UInt32.toNat =
      (List.range count).map fun i => Bytes.field message (i * digitBits) digitBits := by
  rw [messageDigits, List.map_map]
  exact List.map_congr_left fun i _ => toNat_field_digit message (i * digitBits)

theorem le_of_mem_messageDigits {count : Nat} {message : Bytes} {digit : UInt32}
    (member : digit ∈ messageDigits count message) : digit.toNat ≤ 15 := by
  obtain ⟨i, -, rfl⟩ := List.mem_map.1 member
  have := Bytes.field_lt message (i * digitBits) digitBits
  rw [toNat_field_digit]; rw [digitBits] at this ⊢; omega

theorem lack_le (digits : List UInt32) : lack digits ≤ 15 * digits.length := by
  induction digits with
  | nil => simp [lack]
  | cons digit rest ih =>
      simp only [lack, List.map_cons, List.sum_cons, List.length_cons] at ih ⊢
      omega

theorem lack_messageDigits_le (count : Nat) (message : Bytes) :
    lack (messageDigits count message) ≤ 15 * count := by
  simpa using lack_le (messageDigits count message)

/-- Three digits are enough for every sum below `16 ^ 3`. -/
theorem toNat_checkDigits {sum : Nat} (small : sum < 4096) :
    (checkDigits sum).map UInt32.toNat = [sum / 256, sum / 16 % 16, sum % 16] := by
  have narrow {digit : Nat} (le : digit < 4096) : (UInt32.ofNat digit).toNat = digit := by
    rw [UInt32.toNat_ofNat', Nat.mod_eq_of_lt (by omega)]
  simp only [checkDigits, List.map_cons, List.map_nil]
  rw [narrow (by omega), narrow (by omega), narrow (by omega)]

/-- The digits of messages up to the largest length, with those of their checksum, fit one key. -/
theorem signed_le_maxChains {n : Nat} (n_le : n ≤ Params.maxDigest) :
    2 * n + Params.checksumDigits ≤ Params.maxChains :=
  Nat.add_le_add_right (Nat.mul_le_mul_left 2 n_le) _

theorem le_of_mem_signedDigits {count : Nat} {message : Bytes} (few : count ≤ Params.maxChains)
    {digit : UInt32} (member : digit ∈ signedDigits count message) : digit.toNat ≤ 15 := by
  have total := lack_messageDigits_le (count - Params.checksumDigits) message
  rw [Params.maxChains, Params.maxDigest] at few
  rcases List.mem_append.1 member with front | back
  · exact le_of_mem_messageDigits front
  · simp only [checkDigits, List.mem_cons, List.not_mem_nil, or_false] at back
    rcases back with rfl | rfl | rfl <;> rw [UInt32.toNat_ofNat'] <;> omega

/-- The checksum is the sum of what the digits lack. -/
theorem checksum_eq (digits : List UInt32) (small : ∀ digit ∈ digits, digit.toNat ≤ 15)
    (few : digits.length ≤ Params.maxChains) :
    checksum digits = .ok (UInt32.ofNat (lack digits)) := by
  have total := lack_le digits
  rw [Params.maxChains, Params.maxDigest, Params.checksumDigits] at few
  -- the sum so far grows by what each digit lacks
  suffices all : ∀ sum : UInt32, sum.toNat + lack digits < 2 ^ 32 →
      digits.foldlM (fun sum digit => do add32 sum (← sub32 maxDigit digit)) sum =
        .ok (sum + UInt32.ofNat (lack digits)) by
    simpa [checksum] using all 0 (by simp; omega)
  clear total few
  induction digits with
  | nil => intro sum _; simp [lack]
  | cons digit rest ih =>
      intro sum fits
      have le : digit.toNat ≤ 15 := small digit (by simp)
      have digit_le : digit ≤ maxDigit := UInt32.le_iff_toNat_le.2 le
      have less : (maxDigit - digit).toNat = 15 - digit.toNat :=
        UInt32.toNat_sub_of_le _ _ digit_le
      have lack_cons : lack (digit :: rest) = 15 - digit.toNat + lack rest := by simp [lack]
      rw [lack_cons] at fits
      have next : (sum + (maxDigit - digit)).toNat = sum.toNat + (15 - digit.toNat) := by
        rw [UInt32.toNat_add, less, Nat.mod_eq_of_lt (by omega)]
      rw [List.foldlM_cons, sub32_of_le digit_le, ok_bind, add32_of_lt (by omega), ok_bind,
        ih (fun other member => small other (by simp [member])) _ (by omega), lack_cons,
        UInt32.ofNat_add, ← UInt32.add_assoc, ← less, UInt32.ofNat_toNat]

/-- The first three half bytes of a shifted checksum are its digits. -/
theorem fields_checksum {sum : Nat} (small : sum < 4096) :
    Bytes.field (Bytes.ofNat 2 (16 * sum)) 0 4 = sum / 256 ∧
      Bytes.field (Bytes.ofNat 2 (16 * sum)) 4 4 = sum / 16 % 16 ∧
      Bytes.field (Bytes.ofNat 2 (16 * sum)) 8 4 = sum % 16 := by
  have first := Bytes.field_halves (Bytes.ofNat 2 (16 * sum)) 0
  have second := Bytes.field_halves (Bytes.ofNat 2 (16 * sum)) 1
  have low (start : Nat) := Bytes.field_lt (Bytes.ofNat 2 (16 * sum)) start 4
  have first_byte : ((Bytes.ofNat 2 (16 * sum))[0]?.getD 0).toNat = sum / 16 := by
    simp [Bytes.ofNat, Nat.shiftRight_eq_div_pow]; omega
  have second_byte : ((Bytes.ofNat 2 (16 * sum))[1]?.getD 0).toNat = 16 * (sum % 16) := by
    simp [Bytes.ofNat]; omega
  rw [first_byte] at first
  rw [second_byte] at second
  have := low 4; have := low 12
  simp only [Nat.reducePow, Nat.mul_zero, Nat.mul_one, Nat.zero_add, Nat.reduceAdd] at *
  omega

/-- The digits cut from a shifted checksum. -/
theorem base2b_checksum {sum : Nat} (small : sum < 4096) :
    base2b (Bytes.ofNat 2 (UInt32.ofNat sum <<< 4).toNat) digitBits Params.checksumDigits =
      .ok (checkDigits sum) := by
  have shifted : (UInt32.ofNat sum <<< 4).toNat = 16 * sum := by
    rw [UInt32.toNat_shiftLeft, UInt32.toNat_ofNat', Nat.mod_eq_of_lt (show sum < 2 ^ 32 by omega),
      show (4 : UInt32).toNat % 32 = 4 from rfl, Nat.shiftLeft_eq, Nat.mod_eq_of_lt (by omega),
      Nat.mul_comm]
  obtain ⟨high, middle, low⟩ := fields_checksum small
  rw [base2b_eq _ (by decide) (by decide), shifted, checkDigits, ← high, ← middle, ← low]
  rfl

/-- The digits cut from a message. -/
theorem base2b_message {count : Nat} (few : count ≤ Params.maxChains) (message : Bytes) :
    base2b message digitBits count = .ok (messageDigits count message) := by
  rw [Params.maxChains, Params.maxDigest, Params.checksumDigits] at few
  exact base2b_eq message (by decide) (by rw [digitWidth, maxBuffer]; omega)

/-- A key of at most 67 chains signs the digits of the message and of their checksum. -/
theorem digits_eq {count : Nat} (enough : Params.checksumDigits ≤ count)
    (few : count ≤ Params.maxChains) (message : Bytes) :
    digits count message = .ok (signedDigits count message) := by
  have fewer : count - Params.checksumDigits ≤ Params.maxChains := Nat.le_trans (Nat.sub_le _ _) few
  have total := lack_messageDigits_le (count - Params.checksumDigits) message
  have chains : Params.maxChains = 67 := rfl
  have sum := checksum_eq (messageDigits (count - Params.checksumDigits) message)
    (fun digit => le_of_mem_messageDigits) (by simpa using fewer)
  rw [digits, less_of_le enough, ok_bind, ensure_of few, ok_bind, base2b_message fewer, ok_bind,
    sum, ok_bind]
  simp only []
  rw [base2b_checksum (by omega), ok_bind, pure_eq_ok, signedDigits]

/-! ## What the checksum prevents -/

/-- Digits nowhere below others lack no more in all, and lack as much only if they are equal. -/
theorem lack_le_of_le (lower upper : List UInt32) (same : lower.length = upper.length)
    (small : ∀ digit ∈ upper, digit.toNat ≤ 15)
    (le : ∀ (i : Nat) (x y : UInt32), lower[i]? = some x → upper[i]? = some y → x ≤ y) :
    lack upper ≤ lack lower ∧ (lack upper = lack lower → lower = upper) := by
  induction lower generalizing upper with
  | nil =>
      obtain rfl := List.length_eq_zero_iff.1 same.symm
      exact ⟨Nat.le_refl _, fun _ => rfl⟩
  | cons x lower ih =>
      obtain ⟨y, upper, rfl⟩ := List.exists_cons_of_length_eq_add_one same.symm
      have head : x.toNat ≤ y.toNat := UInt32.le_iff_toNat_le.1 (le 0 x y rfl rfl)
      have bound : y.toNat ≤ 15 := small y (by simp)
      obtain ⟨tail, exact_tail⟩ := ih upper (by simpa using same)
        (fun digit member => small digit (by simp [member])) fun i => le (i + 1)
      have lack_x : lack (x :: lower) = 15 - x.toNat + lack lower := by simp [lack]
      have lack_y : lack (y :: upper) = 15 - y.toNat + lack upper := by simp [lack]
      rw [lack_x, lack_y]
      refine ⟨by omega, fun equal => ?_⟩
      rw [exact_tail (by omega), UInt32.toNat_inj.1 (show x.toNat = y.toNat by omega)]

/-- Check digits nowhere below those of another sum stand for no smaller sum. -/
theorem le_of_checkDigits_le (lower upper : Nat) (lower_lt : lower < 4096) (upper_lt : upper < 4096)
    (le : ∀ (i : Nat) (x y : UInt32), (checkDigits lower)[i]? = some x →
      (checkDigits upper)[i]? = some y → x ≤ y) :
    lower ≤ upper := by
  have high := UInt32.le_iff_toNat_le.1 (le 0 _ _ rfl rfl)
  have middle := UInt32.le_iff_toNat_le.1 (le 1 _ _ rfl rfl)
  have low := UInt32.le_iff_toNat_le.1 (le 2 _ _ rfl rfl)
  simp only [UInt32.toNat_ofNat'] at high middle low
  omega

/-- The digits of a message of `n` bytes tell the message. -/
theorem eq_of_messageDigits_eq {n : Nat} {message other : Bytes} (length : message.length = n)
    (length' : other.length = n)
    (same : messageDigits (2 * n) message = messageDigits (2 * n) other) : message = other := by
  have fields (i : Nat) (lt : i < 2 * n) :
      Bytes.field message (i * 4) 4 = Bytes.field other (i * 4) 4 := by
    have digit := congrArg (fun list : List UInt32 => list[i]?.map UInt32.toNat) same
    simp only [messageDigits, List.getElem?_map, List.getElem?_range lt, Option.map_some,
      toNat_field_digit, Option.some.injEq] at digit
    exact digit
  apply List.ext_getElem
  · rw [length, length']
  · intro i lt lt'
    have first := fields (2 * i) (by omega)
    have second := fields (2 * i + 1) (by omega)
    rw [show 2 * i * 4 = 8 * i by omega] at first
    rw [show (2 * i + 1) * 4 = 8 * i + 4 by omega] at second
    have halves := Bytes.field_halves message i
    rw [first, second, Bytes.field_halves, List.getElem?_eq_getElem lt,
      List.getElem?_eq_getElem lt', Option.getD_some, Option.getD_some] at halves
    exact UInt8.toNat_inj.1 halves.symm

/-- Of two different messages each has a digit below the other's: some digit that a key of
`2 * n + 3` chains signs for the first is strictly below the one it signs for the second. -/
theorem exists_signed_lt {n : Nat} (n_le : n ≤ Params.maxDigest) {message other : Bytes}
    (length : message.length = n) (length' : other.length = n) (ne : message ≠ other) :
    ∃ (i : Nat) (x y : UInt32), (signedDigits (2 * n + 3) message)[i]? = some x ∧
      (signedDigits (2 * n + 3) other)[i]? = some y ∧ x < y := by
  apply Classical.byContradiction
  intro none_lt
  have ge (i : Nat) (x y : UInt32) (at_message : (signedDigits (2 * n + 3) message)[i]? = some x)
      (at_other : (signedDigits (2 * n + 3) other)[i]? = some y) : y ≤ x :=
    UInt32.not_lt.1 fun lt => none_lt ⟨i, x, y, at_message, at_other, lt⟩
  have total := lack_messageDigits_le (2 * n) message
  have total' := lack_messageDigits_le (2 * n) other
  rw [Params.maxDigest] at n_le
  simp only [signedDigits, Params.checksumDigits, Nat.add_sub_cancel] at ge
  obtain ⟨le, equal⟩ := lack_le_of_le (messageDigits (2 * n) other)
    (messageDigits (2 * n) message) (by simp) (fun digit => le_of_mem_messageDigits) <| by
      intro i x y at_other at_message
      have lt := (List.getElem?_eq_some_iff.1 at_other).1
      have lt' := (List.getElem?_eq_some_iff.1 at_message).1
      exact ge i y x (by rw [List.getElem?_append_left lt', at_message])
        (by rw [List.getElem?_append_left lt, at_other])
  have ge_sum := le_of_checkDigits_le (lack (messageDigits (2 * n) other))
    (lack (messageDigits (2 * n) message)) (by omega) (by omega) <| by
      intro i x y at_other at_message
      refine ge (2 * n + i) y x ?_ ?_
      · rw [List.getElem?_append_right (by simp), length_messageDigits, Nat.add_sub_cancel_left,
          at_message]
      · rw [List.getElem?_append_right (by simp), length_messageDigits, Nat.add_sub_cancel_left,
          at_other]
  exact ne (eq_of_messageDigits_eq length length' (equal (Nat.le_antisymm le ge_sum)).symm)

end Winternitz

end HashSignature
