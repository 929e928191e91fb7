/-
# HashSignature.Proofs.Route — a message digest leads to a legal place

* `Route.read` — the route as a value: the three strings cut at fixed positions, the last two
  numbers reduced to their range.
* `ofDigest_eq` — a digest of the right length is read without a rule broken.
* `toNat_tree_lt`, `toNat_leaf_lt` — the tree and the leaf exist.
* `toNat_tree`, `toNat_leaf` — they are the numbers of their strings, reduced to their range.
-/
import HashSignature.Proofs.Params
import HashSignature.Message.Route

namespace HashSignature

set_option autoImplicit false

open Outcome

/-! ## Sizes of the three strings -/

namespace Params.Sound

variable {p : Params}

theorem forestDigestSize_eq (sound : p.Sound) :
    p.forestDigestSize = .ok (bytesFor (p.k.toNat * p.a.toNat)) := by
  have := sound.bits_le
  rw [forestDigestSize, size_of_lt (by omega), ok_bind, pure_eq_ok]

theorem layer_le_total (sound : p.Sound) : p.hp.toNat ≤ p.h.toNat := by
  rw [sound.total]
  exact Nat.le_mul_of_pos_left _ sound.layers

theorem treeIndexSize_eq (sound : p.Sound) :
    p.treeIndexSize = .ok (bytesFor (p.h.toNat - p.hp.toNat)) := by
  rw [treeIndexSize, less_of_le sound.layer_le_total, ok_bind, pure_eq_ok]

/-- The three strings fill the message digest. -/
theorem message_eq (sound : p.Sound) :
    bytesFor (p.k.toNat * p.a.toNat) + bytesFor (p.h.toNat - p.hp.toNat) + p.leafIndexSize =
      p.m.toNat := by
  rw [sound.message, messageDigest, leafIndexSize]

end Params.Sound

/-! ## Words and their low bits -/

namespace Route

/-- The word of a string holds the low 64 bits of its number. -/
theorem toNat_word (bytes : Bytes) : (word bytes).toNat = bytes.toNat % 2 ^ 64 := by
  -- the word so far is moved to the left of the bytes that are still to come
  suffices all : ∀ start : UInt64,
      (bytes.foldl (fun (held : UInt64) (b : UInt8) => held <<< 8 ||| b.toUInt64) start).toNat =
        (start.toNat * 256 ^ bytes.length + bytes.toNat) % 2 ^ 64 by
    simpa [word] using all 0
  induction bytes with
  | nil =>
      intro start
      rw [List.foldl_nil, List.length_nil, Nat.pow_zero, Nat.mul_one, Bytes.toNat, Nat.add_zero]
      exact (Nat.mod_eq_of_lt start.toNat_lt).symm
  | cons b rest ih =>
      intro start
      have byte : b.toNat < 2 ^ 8 := b.toNat_lt
      have next : (start <<< 8 ||| b.toUInt64).toNat = (start.toNat * 256 + b.toNat) % 2 ^ 64 := by
        rw [UInt64.toNat_or, UInt64.toNat_shiftLeft, UInt8.toNat_toUInt64,
          show (8 : UInt64).toNat % 64 = 8 from rfl, Nat.shiftLeft_eq]
        have low : start.toNat * 2 ^ 8 % 2 ^ 64 = 2 ^ 8 * (start.toNat % 2 ^ 56) := by omega
        rw [low, ← Nat.two_pow_add_eq_or_of_lt byte]
        omega
      have power : 256 ^ (rest.length + 1) = 256 ^ rest.length * 256 := Nat.pow_succ ..
      rw [List.foldl_cons, ih, next, List.length_cons, power, Bytes.toNat, Nat.add_mod,
        Nat.mul_mod, Nat.mod_mod, ← Nat.mul_mod, ← Nat.add_mod, Nat.add_mul, Nat.add_assoc,
        Nat.mul_assoc, Nat.mul_comm 256 (256 ^ rest.length)]

theorem toNat_lowBits (word : UInt64) {bits : Nat} (le : bits ≤ 64) :
    (lowBits word bits).toNat = word.toNat % 2 ^ bits := by
  rw [lowBits]
  split
  · rename_i all
    rw [show bits = 64 by omega, Nat.mod_eq_of_lt word.toNat_lt]
  · rename_i narrow
    exact toNat_and_mask (toNat_one_shiftLeft (by omega)) word

/-! ## Reading a digest -/

variable {p : Params}

/-- What a message digest selects. -/
def read (p : Params) (digest : Bytes) : Route :=
  let front := Params.bytesFor (p.k.toNat * p.a.toNat)
  let middle := Params.bytesFor (p.h.toNat - p.hp.toNat)
  { forest := digest.take front
    tree := lowBits (word (Bytes.slice front middle digest)) (p.h.toNat - p.hp.toNat)
    leaf := (lowBits (word (Bytes.slice (front + middle) p.leafIndexSize digest))
      p.hp.toNat).toUInt32 }

theorem ofDigest_eq (sound : p.Sound) {digest : Bytes} (length : digest.length = p.m.toNat) :
    ofDigest p digest = .ok (read p digest) := by
  have total := sound.message_eq
  rw [ofDigest, sound.forestDigestSize_eq, ok_bind, cut_of_le (by omega), ok_bind]
  simp only []
  rw [sound.treeIndexSize_eq, ok_bind, cut_of_le (by rw [List.length_drop]; omega), ok_bind]
  simp only []
  rw [cut_of_le (by rw [List.length_drop, List.length_drop]; omega), ok_bind]
  simp only []
  rw [less_of_le sound.layer_le_total, ok_bind, pure_eq_ok, List.drop_drop]
  rfl

theorem toNat_tree_lt (sound : p.Sound) (digest : Bytes) :
    (read p digest).tree.toNat < 2 ^ (p.h.toNat - p.hp.toNat) := by
  rw [read, toNat_lowBits _ sound.tree_bits]
  exact Nat.mod_lt _ (Nat.two_pow_pos _)

theorem toNat_leaf_lt (sound : p.Sound) (digest : Bytes) :
    (read p digest).leaf.toNat < 2 ^ p.hp.toNat := by
  have low := sound.layer_le
  rw [read, UInt64.toNat_toUInt32, toNat_lowBits _ (by omega)]
  exact Nat.lt_of_le_of_lt (Nat.mod_le _ _) (Nat.mod_lt _ (Nat.two_pow_pos _))

/-- The tree that a digest selects, from the number of its string. -/
theorem toNat_tree (sound : p.Sound) (digest : Bytes) :
    (read p digest).tree.toNat =
      (Bytes.slice (Params.bytesFor (p.k.toNat * p.a.toNat))
        (Params.bytesFor (p.h.toNat - p.hp.toNat)) digest).toNat %
        2 ^ (p.h.toNat - p.hp.toNat) := by
  rw [read, toNat_lowBits _ sound.tree_bits, toNat_word,
    Nat.mod_mod_of_dvd _ (Nat.pow_dvd_pow 2 sound.tree_bits)]

/-- The leaf that a digest selects, from the number of its string. -/
theorem toNat_leaf (sound : p.Sound) (digest : Bytes) :
    (read p digest).leaf.toNat =
      (Bytes.slice (Params.bytesFor (p.k.toNat * p.a.toNat) +
        Params.bytesFor (p.h.toNat - p.hp.toNat)) p.leafIndexSize digest).toNat %
        2 ^ p.hp.toNat := by
  have low := sound.layer_le
  have power : 2 ^ p.hp.toNat ≤ 2 ^ 32 := Nat.pow_le_pow_right (by decide) (by omega)
  have small (number : Nat) : number % 2 ^ p.hp.toNat < 2 ^ 32 :=
    Nat.lt_of_lt_of_le (Nat.mod_lt _ (Nat.two_pow_pos _)) power
  rw [read, UInt64.toNat_toUInt32, toNat_lowBits _ (by omega), Nat.mod_eq_of_lt (small _),
    toNat_word, Nat.mod_mod_of_dvd _ (Nat.pow_dvd_pow 2 (by omega))]

end Route

end HashSignature
