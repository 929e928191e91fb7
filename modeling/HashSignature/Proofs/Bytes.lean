/-
# HashSignature.Proofs.Bytes — positions in overwritten, sliced and blocked strings

Laws of the byte-string vocabulary that address fields, signature segments and key encodings are
read and written with.

* `getElem?_overwrite` — which byte stands where after a string was overwritten.
* `toNat_ofNat` — the fixed-width big-endian form loses nothing that fits it.
* `blocks_flatten`, `getElem?_blocks` — blocks put behind each other are found again by their
  position, and a string is determined by its blocks.
-/
import HashSignature.Bytes

namespace HashSignature.Bytes

set_option autoImplicit false

/-! ## Overwriting -/

/-- The byte at a position of an overwritten string comes from the new bytes where they reach, from
the old ones elsewhere. -/
theorem getElem?_overwrite (start : Nat) (new bytes : Bytes) (i : Nat) :
    (overwrite start new bytes)[i]? =
      if start ≤ i ∧ i < start + new.length ∧ i < bytes.length then new[i - start]?
      else bytes[i]? := by
  induction bytes generalizing start new i with
  | nil => simp [overwrite]
  | cons b rest ih =>
      cases start with
      | succ skip =>
          cases i with
          | zero => simp [overwrite]
          | succ i =>
              simp only [overwrite, List.getElem?_cons_succ, ih, List.length_cons]
              have shifted : i + 1 - (skip + 1) = i - skip := by omega
              rw [shifted]
              congr 1
              simp only [eq_iff_iff]
              omega
      | zero =>
          cases new with
          | nil => simp [overwrite]
          | cons v new =>
              cases i with
              | zero => simp [overwrite]
              | succ i => simp [overwrite, ih]

/-! ## Big-endian numbers -/

theorem toNat_ofNat (w n : Nat) : (ofNat w n).toNat = n % 256 ^ w := by
  induction w with
  | zero => simp [ofNat, toNat, Nat.mod_one]
  | succ w ih =>
      have high : (UInt8.ofNat (n >>> (8 * w))).toNat = n / 256 ^ w % 256 := by
        rw [UInt8.toNat_ofNat', Nat.shiftRight_eq_div_pow, Nat.pow_mul]
      rw [ofNat, toNat, length_ofNat, ih, high, Nat.pow_succ, Nat.mod_mul, Nat.mul_comm, Nat.add_comm]

theorem toNat_ofNat_of_lt {w n : Nat} (fits : n < 256 ^ w) : (ofNat w n).toNat = n := by
  rw [toNat_ofNat, Nat.mod_eq_of_lt fits]

/-! ## Slices -/

theorem getElem?_slice (start width : Nat) (bytes : Bytes) (i : Nat) :
    (slice start width bytes)[i]? = if i < width then bytes[start + i]? else none := by
  simp [slice, List.getElem?_take]

theorem slice_drop (skip start width : Nat) (bytes : Bytes) :
    slice start width (bytes.drop skip) = slice (skip + start) width bytes := by
  rw [slice, slice, List.drop_drop]

/-- A slice of a slice that reaches far enough is a slice. -/
theorem slice_slice {start width reach : Nat} (skip : Nat) (bytes : Bytes)
    (inside : start + width ≤ reach) :
    slice start width (slice skip reach bytes) = slice (skip + start) width bytes := by
  rw [slice, slice, slice, List.drop_take, List.take_take, List.drop_drop,
    Nat.min_eq_left (by omega)]

theorem slice_append_left {start width : Nat} {front back : Bytes}
    (inside : start + width ≤ front.length) :
    slice start width (front ++ back) = slice start width front := by
  rw [slice, slice, List.drop_append_of_le_length (by omega), List.take_append_of_le_length]
  rw [List.length_drop]
  omega

theorem slice_append_right {front back : Bytes} {skip : Nat} (length : front.length = skip)
    (start width : Nat) :
    slice (skip + start) width (front ++ back) = slice start width back := by
  rw [slice, slice, ← List.drop_drop, List.drop_left' length]

/-! ## Blocks -/

/-- The block at a position is the slice that starts there. -/
theorem getElem?_blocks (size count : Nat) (bytes : Bytes) (j : Nat) :
    (blocks size count bytes)[j]? = if j < count then some (slice (j * size) size bytes) else none := by
  induction count generalizing bytes j with
  | zero => simp [blocks]
  | succ count ih =>
      cases j with
      | zero => simp [blocks, slice]
      | succ j =>
          simp only [blocks, List.getElem?_cons_succ, ih, slice, List.drop_drop]
          simp [Nat.succ_mul, Nat.add_comm]

theorem getElem?_blocks_eq_some {size count : Nat} {bytes block : Bytes} {j : Nat} :
    (blocks size count bytes)[j]? = some block ↔
      j < count ∧ slice (j * size) size bytes = block := by
  rw [getElem?_blocks]
  by_cases inside : j < count
  · simp [inside]
  · simp [inside]

theorem blocks_take (size count : Nat) (bytes : Bytes) :
    blocks size count (bytes.take (count * size)) = blocks size count bytes := by
  apply List.ext_getElem?
  intro j
  rw [getElem?_blocks, getElem?_blocks]
  split
  · rename_i lt
    have inside := Nat.mul_le_mul_right size (show j + 1 ≤ count from lt)
    rw [Nat.succ_mul] at inside
    rw [slice, slice, List.drop_take, List.take_take, Nat.min_eq_left (by omega)]
  · rfl

/-- Blocks of one size put behind each other are found again. -/
theorem blocks_flatten {size count : Nat} {list : List Bytes} (counted : list.length = count)
    (full : ∀ block ∈ list, block.length = size) : blocks size count list.flatten = list := by
  subst counted
  induction list with
  | nil => rfl
  | cons block rest ih =>
      have here := full block (by simp)
      simp [blocks, List.take_left' here, List.drop_left' here,
        ih fun other member => full other (by simp [member])]

/-- A block is the slice at its position in the blocks put behind each other. -/
theorem slice_flatten {size : Nat} {list : List Bytes}
    (full : ∀ block ∈ list, block.length = size) {j : Nat} {block : Bytes}
    (found : list[j]? = some block) : slice (j * size) size list.flatten = block := by
  have at_place := getElem?_blocks size list.length list.flatten j
  rw [blocks_flatten rfl full, if_pos (List.getElem?_eq_some_iff.1 found).1, found] at at_place
  exact (Option.some.inj at_place).symm

/-- A string is its blocks behind each other, if they fill it up. -/
theorem flatten_blocks {size count : Nat} {bytes : Bytes} (exact : bytes.length = count * size) :
    (blocks size count bytes).flatten = bytes := by
  induction count generalizing bytes with
  | zero => simp_all [blocks]
  | succ count ih =>
      rw [Nat.succ_mul] at exact
      simp [blocks, ih (show (bytes.drop size).length = count * size by simp; omega)]

/-- Blocks of one size put behind each other are told apart by the result. -/
theorem flatten_inj {size : Nat} {list other : List Bytes}
    (full : ∀ block ∈ list, block.length = size) (full' : ∀ block ∈ other, block.length = size)
    (count : list.length = other.length) (same : list.flatten = other.flatten) : list = other := by
  rw [← blocks_flatten count full, same, blocks_flatten rfl full']

/-- Strings are equal if the blocks that fill them up are. -/
theorem eq_of_blocks_eq {size count : Nat} {bytes other : Bytes}
    (exact : bytes.length = count * size) (exact' : other.length = count * size)
    (same : blocks size count bytes = blocks size count other) : bytes = other := by
  rw [← flatten_blocks exact, same, flatten_blocks exact']

theorem eq_of_take_drop_eq {cut : Nat} {bytes other : Bytes}
    (front : bytes.take cut = other.take cut) (back : bytes.drop cut = other.drop cut) :
    bytes = other := by
  rw [← List.take_append_drop cut bytes, front, back, List.take_append_drop]

/-- A string that is cut into blocks of one size and then of another is determined by them. -/
theorem eq_of_two_blocks_eq {size size' count count' : Nat} {bytes other : Bytes}
    (exact : bytes.length = count * size + count' * size')
    (exact' : other.length = count * size + count' * size')
    (front : blocks size count (bytes.take (count * size)) =
      blocks size count (other.take (count * size)))
    (back : blocks size' count' (bytes.drop (count * size)) =
      blocks size' count' (other.drop (count * size))) : bytes = other := by
  have fronts : bytes.take (count * size) = other.take (count * size) := by
    apply eq_of_blocks_eq _ _ front
    · rw [List.length_take]; omega
    · rw [List.length_take]; omega
  have backs : bytes.drop (count * size) = other.drop (count * size) := by
    apply eq_of_blocks_eq _ _ back
    · rw [List.length_drop]; omega
    · rw [List.length_drop]; omega
  exact eq_of_take_drop_eq fronts backs

theorem length_flatten_of {size : Nat} {list : List Bytes}
    (full : ∀ block ∈ list, block.length = size) : list.flatten.length = list.length * size := by
  induction list with
  | nil => simp
  | cons block rest ih =>
      simp [full block (by simp), ih fun other member => full other (by simp [member]),
        Nat.succ_mul, Nat.add_comm]

end HashSignature.Bytes
