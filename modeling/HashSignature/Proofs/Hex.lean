/-
# HashSignature.Proofs.Hex — the texts that are read as bytes, and what they are read as

A text is well-formed if its characters are hexadecimal digits, of either case, and their number is
even. Reading looks at UTF-8: a character outside ASCII is several bytes, none of them a digit, so
reading a text byte by byte accepts exactly the well-formed texts.

* `ofHex_iff` — a text is read if and only if it is well-formed.
* `toHex_of_ofHex` — writing what was read gives the text back in lower case.
* `ofHex_toHex` — what was written is read back.
-/
import HashSignature.Bytes.Hex
import HashSignature.Text.Blank

namespace HashSignature.Bytes

set_option autoImplicit false

/-! ## Digits -/

/-- The hexadecimal digits of either case. -/
def hexDigits : List Char :=
  ['0', '1', '2', '3', '4', '5', '6', '7', '8', '9', 'a', 'b', 'c', 'd', 'e', 'f',
    'A', 'B', 'C', 'D', 'E', 'F']

/-- The texts that consist of pairs of hexadecimal digits. -/
def IsHex (text : String) : Prop := (∀ c ∈ text.toList, c ∈ hexDigits) ∧ text.length % 2 = 0

/-- A code that has a value is that of a digit, and the value is written as that digit in lower case.
-/
theorem hexValue?_table : ∀ code < 256, ∀ value ∈ hexValue? (UInt8.ofNat code),
    Char.ofNat code ∈ hexDigits ∧ value.toNat < 16 ∧
      hexDigit value.toNat = (Char.ofNat code).toLower := by decide +kernel

/-- Digits are ASCII characters, and their codes have values. -/
theorem digit_table : hexDigits.all (fun c =>
    c.toNat < 128 && (hexValue? (UInt8.ofNat c.toNat)).isSome) = true := by decide

/-- Written digits are digits in lower case, and they are read as the values they stand for. -/
theorem hexDigit_table : ∀ value < 16,
    hexDigit value ∈ hexDigits ∧
      hexValue? (UInt8.ofNat (hexDigit value).toNat) = some (UInt8.ofNat value) := by
  decide +kernel

theorem toNat_lt_of_mem {c : Char} (digit : c ∈ hexDigits) : c.toNat < 128 :=
  of_decide_eq_true (Bool.and_eq_true_iff.1 (List.all_eq_true.1 digit_table c digit)).1

theorem hexValue?_ne_none {c : Char} (digit : c ∈ hexDigits) :
    hexValue? (UInt8.ofNat c.toNat) ≠ none :=
  Option.isSome_iff_ne_none.1
    (Bool.and_eq_true_iff.1 (List.all_eq_true.1 digit_table c digit)).2

/-- The last byte of a longer UTF-8 form is not a digit. -/
theorem hexValue?_continuation : ∀ low < 64, hexValue? (UInt8.ofNat (low + 128)) = none := by
  decide +kernel

theorem hexDigit_of_hexValue? {code value : UInt8} (found : hexValue? code = some value) :
    Char.ofNat code.toNat ∈ hexDigits ∧ value.toNat < 16 ∧
      hexDigit value.toNat = (Char.ofNat code.toNat).toLower := by
  apply hexValue?_table code.toNat code.toNat_lt
  rw [UInt8.ofNat_toNat]
  exact found

/-! ## UTF-8 -/

/-- The codes of ASCII characters. -/
def codes (chars : List Char) : Bytes := chars.map fun c => UInt8.ofNat c.toNat

theorem toList_loop (array : ByteArray) (i : Nat) (front : Bytes) :
    ByteArray.toList.loop array i front = front.reverse ++ array.data.toList.drop i := by
  induction i, front using ByteArray.toList.loop.induct array with
  | case1 i front inside ih =>
      have inside' : i < array.data.toList.length := inside
      rw [ByteArray.toList.loop, if_pos inside, ih, List.drop_eq_getElem_cons inside']
      simp [ByteArray.get!, inside]
  | case2 i front outside =>
      have outside' : array.data.toList.length ≤ i := Nat.le_of_not_lt outside
      rw [ByteArray.toList.loop, if_neg outside, List.drop_of_length_le outside', List.append_nil]

theorem toList_toUTF8 (text : String) :
    text.toUTF8.toList = text.toList.flatMap String.utf8EncodeChar := by
  conv => lhs; rw [← String.ofList_toList (s := text)]
  rw [String.toUTF8_eq_toByteArray, String.toByteArray_ofList, ByteArray.toList, toList_loop,
    List.utf8Encode, List.toList_data_toByteArray]
  rfl

theorem utf8EncodeChar_of_lt {c : Char} (ascii : c.toNat < 128) :
    String.utf8EncodeChar c = [UInt8.ofNat c.toNat] :=
  if_pos (Nat.le_of_lt_succ ascii)

/-- The UTF-8 form of a character outside ASCII ends with a byte that is not a digit. -/
theorem exists_not_digit {c : Char} (wide : 128 ≤ c.toNat) :
    ∃ code ∈ String.utf8EncodeChar c, hexValue? code = none := by
  refine ⟨UInt8.ofNat (c.toNat % 64 + 128), ?_,
    hexValue?_continuation _ (Nat.mod_lt _ (by decide))⟩
  have wide : ¬ c.val.toNat ≤ 127 := Nat.not_le.2 wide
  change UInt8.ofNat (c.val.toNat % 64 + 128) ∈ _
  unfold String.utf8EncodeChar
  simp only [if_neg wide]
  split
  · simp
  · split <;> simp

theorem utf8_of_digits {chars : List Char} (digits : ∀ c ∈ chars, c ∈ hexDigits) :
    chars.flatMap String.utf8EncodeChar = codes chars := by
  induction chars with
  | nil => rfl
  | cons c rest ih =>
      have ascii := toNat_lt_of_mem (digits c (by simp))
      rw [List.flatMap_cons, utf8EncodeChar_of_lt ascii,
        ih fun d member => digits d (by simp [member])]
      rfl

/-- If every byte of a UTF-8 text is a digit, every character is. -/
theorem digits_of_utf8 {chars : List Char}
    (valued : ∀ code ∈ chars.flatMap String.utf8EncodeChar, hexValue? code ≠ none) :
    ∀ c ∈ chars, c ∈ hexDigits := by
  intro c member
  have here (code : UInt8) (inside : code ∈ String.utf8EncodeChar c) : hexValue? code ≠ none :=
    valued code (List.mem_flatMap.2 ⟨c, member, inside⟩)
  obtain ascii | wide := Nat.lt_or_ge c.toNat 128
  · obtain ⟨value, found⟩ :=
      Option.ne_none_iff_exists'.1 (here (UInt8.ofNat c.toNat) (by simp [utf8EncodeChar_of_lt ascii]))
    have digit := (hexDigit_of_hexValue? found).1
    rwa [UInt8.toNat_ofNat', Nat.mod_eq_of_lt (by omega), Char.ofNat_toNat] at digit
  · obtain ⟨code, inside, none⟩ := exists_not_digit wide
    exact absurd none (here code inside)

/-! ## Pairs of digits -/

/-- What reading a pair does first, and what it leaves to do. -/
theorem ofHexPairs_cases {high low : UInt8} {rest bytes : Bytes} {offset : Nat}
    (read : ofHexPairs offset (high :: low :: rest) = .ok bytes) :
    ∃ h l tail, hexValue? high = some h ∧ hexValue? low = some l ∧
      ofHexPairs (offset + 2) rest = .ok tail ∧ bytes = (16 * h + l) :: tail := by
  rw [ofHexPairs] at read
  split at read
  case h_1 => simp at read
  case h_2 => simp at read
  case h_3 h l found_high found_low =>
    cases later : ofHexPairs (offset + 2) rest with
    | error reason =>
        rw [later] at read
        simp [Except.map] at read
    | ok tail =>
        rw [later] at read
        exact ⟨h, l, tail, found_high, found_low, rfl, (Except.ok.inj read).symm⟩

/-- The digits of a byte that was read from a pair. -/
theorem hexDigit_pair {high low h l : UInt8} (found_high : hexValue? high = some h)
    (found_low : hexValue? low = some l) :
    [hexDigit ((16 * h + l).toNat / 16), hexDigit ((16 * h + l).toNat % 16)] =
      [(Char.ofNat high.toNat).toLower, (Char.ofNat low.toNat).toLower] := by
  obtain ⟨-, h_lt, h_eq⟩ := hexDigit_of_hexValue? found_high
  obtain ⟨-, l_lt, l_eq⟩ := hexDigit_of_hexValue? found_low
  have sum : (16 * h + l).toNat = 16 * h.toNat + l.toNat := by
    rw [UInt8.toNat_add, UInt8.toNat_mul, show (16 : UInt8).toNat = 16 from rfl]
    omega
  rw [sum, show (16 * h.toNat + l.toNat) / 16 = h.toNat by omega,
    show (16 * h.toNat + l.toNat) % 16 = l.toNat by omega, h_eq, l_eq]

/-- Bytes that are read come from codes that are all digits, and their own digits are the same in
lower case. -/
theorem hexChars_of_ofHexPairs {text bytes : Bytes} {offset : Nat}
    (read : ofHexPairs offset text = .ok bytes) :
    (∀ code ∈ text, hexValue? code ≠ none) ∧ text.length = 2 * bytes.length ∧
      hexChars bytes = text.map fun code => (Char.ofNat code.toNat).toLower := by
  -- the induction is that of the reader, which takes two codes at a time
  induction offset, text using ofHexPairs.induct generalizing bytes with
  | case1 offset =>
      obtain rfl : [] = bytes := Except.ok.inj read
      exact ⟨by simp, rfl, rfl⟩
  | case2 offset code => simp [ofHexPairs] at read
  | case3 offset high low rest found =>
      obtain ⟨h, l, tail, found_high, -⟩ := ofHexPairs_cases read
      exact nomatch found.symm.trans found_high
  | case4 offset high low rest _ found =>
      obtain ⟨h, l, tail, -, found_low, -⟩ := ofHexPairs_cases read
      exact nomatch found.symm.trans found_low
  | case5 offset high low rest _ _ _ _ ih =>
      obtain ⟨h, l, tail, found_high, found_low, later, rfl⟩ := ofHexPairs_cases read
      obtain ⟨valued, length, chars⟩ := ih later
      refine ⟨?_, by rw [List.length_cons, List.length_cons, List.length_cons]; omega, ?_⟩
      · intro code member
        rcases List.mem_cons.1 member with rfl | member
        · simp [found_high]
        rcases List.mem_cons.1 member with rfl | member
        · simp [found_low]
        · exact valued code member
      · rw [hexChars, List.flatMap_cons, hexDigit_pair found_high found_low, ← hexChars, chars]
        rfl

/-- An even number of digits is read. -/
theorem exists_ofHexPairs {text : Bytes} (valued : ∀ code ∈ text, hexValue? code ≠ none)
    (even : text.length % 2 = 0) (offset : Nat) : ∃ bytes, ofHexPairs offset text = .ok bytes := by
  induction offset, text using ofHexPairs.induct with
  | case1 offset => exact ⟨[], rfl⟩
  | case2 offset code => simp at even
  | case3 offset high low rest found => exact absurd found (valued high (by simp))
  | case4 offset high low rest _ found => exact absurd found (valued low (by simp))
  | case5 offset high low rest h l found_low found_high ih =>
      obtain ⟨tail, later⟩ := ih (fun code member => valued code (by simp [member])) (by
        rw [List.length_cons, List.length_cons] at even; omega)
      exact ⟨(16 * h + l) :: tail, by rw [ofHexPairs, found_high, found_low, later]; rfl⟩

theorem ofHexPairs_hexChars (bytes : Bytes) (offset : Nat) :
    ofHexPairs offset (codes (hexChars bytes)) = .ok bytes := by
  induction bytes generalizing offset with
  | nil => rfl
  | cons b rest ih =>
      have lt := b.toNat_lt
      obtain ⟨-, high⟩ := hexDigit_table (b.toNat / 16) (by omega)
      obtain ⟨-, low⟩ := hexDigit_table (b.toNat % 16) (by omega)
      have whole : 16 * UInt8.ofNat (b.toNat / 16) + UInt8.ofNat (b.toNat % 16) = b := by
        rw [← UInt8.toNat_inj, UInt8.toNat_add, UInt8.toNat_mul, UInt8.toNat_ofNat',
          UInt8.toNat_ofNat', show (16 : UInt8).toNat = 16 from rfl]
        omega
      change ofHexPairs offset (_ :: _ :: codes (hexChars rest)) = _
      rw [ofHexPairs, high, low]
      simp only [ih, whole]
      rfl

/-! ## Texts -/

/-- A text is read from pairs of its bytes. -/
theorem ofHex_eq_ok {text : String} {bytes : Bytes} :
    ofHex text = .ok bytes ↔
      ofHexPairs 0 (text.toList.flatMap String.utf8EncodeChar) = .ok bytes := by
  rw [ofHex, ofHexUtf8, toList_toUTF8]
  split
  case isFalse => rfl
  case isTrue odd =>
    refine ⟨fun read => by simp at read, fun read => ?_⟩
    have even := (hexChars_of_ofHexPairs read).2.1
    omega

/-- A text is read if and only if it is well-formed. -/
theorem ofHex_iff (text : String) : (∃ bytes, ofHex text = .ok bytes) ↔ IsHex text := by
  constructor
  · rintro ⟨bytes, read⟩
    obtain ⟨valued, length, -⟩ := hexChars_of_ofHexPairs (ofHex_eq_ok.1 read)
    have digits := digits_of_utf8 valued
    rw [utf8_of_digits digits, codes, List.length_map, String.length_toList] at length
    exact ⟨digits, by omega⟩
  · rintro ⟨digits, even⟩
    have valued : ∀ code ∈ codes text.toList, hexValue? code ≠ none := by
      intro code member
      obtain ⟨c, inside, rfl⟩ := List.mem_map.1 member
      exact hexValue?_ne_none (digits c inside)
    have paired : (codes text.toList).length % 2 = 0 := by
      rw [codes, List.length_map, String.length_toList]
      exact even
    obtain ⟨bytes, read⟩ := exists_ofHexPairs valued paired 0
    exact ⟨bytes, ofHex_eq_ok.2 (by rw [utf8_of_digits digits]; exact read)⟩

/-- Writing the bytes that were read gives the text in lower case, two digits for each byte. -/
theorem toHex_of_ofHex {text : String} {bytes : Bytes} (read : ofHex text = .ok bytes) :
    toHex bytes = String.ofList (Text.lowerAscii text.toList) ∧ text.length = 2 * bytes.length := by
  have digits := ((ofHex_iff text).1 ⟨bytes, read⟩).1
  obtain ⟨-, length, chars⟩ := hexChars_of_ofHexPairs (ofHex_eq_ok.1 read)
  rw [utf8_of_digits digits] at length chars
  refine ⟨?_, by rwa [codes, List.length_map, String.length_toList] at length⟩
  rw [toHex, chars, codes, List.map_map, Text.lowerAscii]
  congr 1
  apply List.map_congr_left
  intro c member
  have ascii := toNat_lt_of_mem (digits c member)
  rw [Function.comp_apply, UInt8.toNat_ofNat', Nat.mod_eq_of_lt (by omega), Char.ofNat_toNat]

theorem mem_hexDigits_of_hexChars {bytes : Bytes} : ∀ c ∈ hexChars bytes, c ∈ hexDigits := by
  intro c member
  obtain ⟨b, -, inside⟩ := List.mem_flatMap.1 member
  have lt := b.toNat_lt
  simp only [List.mem_cons, List.not_mem_nil, or_false] at inside
  rcases inside with rfl | rfl
  · exact (hexDigit_table (b.toNat / 16) (by omega)).1
  · exact (hexDigit_table (b.toNat % 16) (by omega)).1

/-- What was written is read back. -/
theorem ofHex_toHex (bytes : Bytes) : ofHex (toHex bytes) = .ok bytes := by
  rw [ofHex_eq_ok, toHex, String.toList_ofList, utf8_of_digits mem_hexDigits_of_hexChars]
  exact ofHexPairs_hexChars bytes 0

end HashSignature.Bytes
