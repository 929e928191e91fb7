/-
# HashSignature.Proofs.Params — what accepted parameters promise

The checks of `Params.custom` run in 64-bit words, and the count of the forest's leaves drops its
high bits. This file reads them in exact integers.

* `Params.Sound` — the bounds that every later rule about sizes, shifts and indices rests on.
* `sound_of_check` — accepted parameters are sound. A count of leaves that lost its high bits is no
  way around the checks: the message digest would be too long.
* the size functions of sound parameters return their formulas.
-/
import HashSignature.Proofs.Outcome
import HashSignature.Params

namespace HashSignature.Params

set_option autoImplicit false

open Outcome

/-! ## Sound parameters -/

/-- The sizes of an instance fit each other, in exact integers. -/
structure Sound (p : Params) : Prop where
  digest : p.n.toNat = 16 ∨ p.n.toNat = 24 ∨ p.n.toNat = 32
  layers : 1 ≤ p.d.toNat
  layer_pos : 1 ≤ p.hp.toNat
  layer_le : p.hp.toNat ≤ 20
  total : p.h.toNat = p.d.toNat * p.hp.toNat
  tree_bits : p.h.toNat - p.hp.toNat ≤ 64
  forest_pos : 1 ≤ p.a.toNat
  forest_le : p.a.toNat ≤ 24
  trees : 1 ≤ p.k.toNat
  leaves : p.k.toNat * 2 ^ p.a.toNat ≤ 2 ^ 32
  message : p.m.toNat = messageDigest p.h.toNat p.hp.toNat p.a.toNat p.k.toNat
  message_le : p.m.toNat ≤ 64
  chains : p.len.toNat = 2 * p.n.toNat + 3

theorem check_eq_ok {p : Params} :
    p.check = .ok () ↔ custom p.family p.n p.h p.d p.a p.k = .ok p := by
  unfold check
  rw [bind_eq_ok]
  constructor
  · rintro ⟨expected, derived, same⟩
    split at same
    · rename_i eq; rw [derived, eq]
    · simp at same
  · intro derived
    exact ⟨p, derived, by simp⟩

theorem derived_eq_ok {family : HashFamily} {n h d a k : UInt64} {p : Params}
    (ok : derived family n h d a k = .ok p) :
    k.toNat * a.toNat < 2 ^ 64 ∧ (h / d).toNat ≤ h.toNat ∧
      messageDigest h.toNat (h / d).toNat a.toNat k.toNat < 2 ^ 64 ∧ p = ofBase family n h d a k := by
  simp only [derived, bind_eq_ok, ensure_eq_ok, size_eq_ok, less_eq_ok, pure_eq_ok,
    Except.ok.injEq] at ok
  obtain ⟨_, _, _, _, _, ⟨bits, _⟩, _, ⟨le, _⟩, _, ⟨bytes, _⟩, rfl⟩ := ok
  exact ⟨bits, le, bytes, rfl⟩

/-- A check that did not refuse found nothing to refuse. -/
theorem ite_reject_eq_ok {refused : Prop} [Decidable refused] {reason : ParameterFault}
    {next : Outcome Params} {p : Params} :
    (if refused then reject reason else next) = .ok p ↔ ¬refused ∧ next = .ok p := by
  by_cases h : refused <;> simp [h, reject]

/-- A string of at most 64 bytes selects leaves with at most 512 bits. -/
theorem bits_le_of_messageDigest_le {h hp a k : Nat} (le : messageDigest h hp a k ≤ 64) :
    k * a ≤ 512 := by
  unfold messageDigest bytesFor at le; omega

/-- With at most 512 bits in all the leaves can be counted. -/
theorem leaves_lt {k a : Nat} (pos : 1 ≤ a) (le : a ≤ 24) (bits : k * a ≤ 512) :
    k * 2 ^ a < 2 ^ 64 := by
  have few : k ≤ 512 := Nat.le_trans (Nat.le_mul_of_pos_right _ pos) bits
  have power : 2 ^ a ≤ 2 ^ 24 := Nat.pow_le_pow_right (by omega) le
  have fits : k * 2 ^ a ≤ 512 * 2 ^ 24 := Nat.mul_le_mul few power
  omega

/-- The word that counts the leaves keeps the low 64 bits of their number. -/
theorem toNat_shiftLeft_of_le {k a : UInt64} (le : a.toNat ≤ 24) :
    (k <<< a).toNat = k.toNat * 2 ^ a.toNat % 2 ^ 64 := by
  rw [UInt64.toNat_shiftLeft, Nat.mod_eq_of_lt (show a.toNat < 64 by omega), Nat.shiftLeft_eq]

/-- With at most 512 bits in all no leaf count loses a bit. -/
theorem toNat_shiftLeft_of_bits_le {k a : UInt64} (pos : 1 ≤ a.toNat) (le : a.toNat ≤ 24)
    (bits : k.toNat * a.toNat ≤ 512) : (k <<< a).toNat = k.toNat * 2 ^ a.toNat := by
  rw [toNat_shiftLeft_of_le le, Nat.mod_eq_of_lt (leaves_lt pos le bits)]

/-- Accepted parameters are sound. -/
theorem sound_of_check {p : Params} (accepted : p.check = .ok ()) : p.Sound := by
  have ok := check_eq_ok.1 accepted
  simp only [custom, ite_reject_eq_ok, bind_eq_ok] at ok
  obtain ⟨digest, total, layer, treeBits, shape, leaves, q, derived, message, ok⟩ := ok
  obtain ⟨-, le, bytes, rfl⟩ := derived_eq_ok derived
  rw [pure_eq_ok, Except.ok.injEq] at ok
  -- the sizes of `p` are those derived from its own base numbers
  have hp_eq : p.hp = p.h / p.d := (congrArg Params.hp ok).symm
  have m_eq : p.m.toNat = messageDigest p.h.toNat p.hp.toNat p.a.toNat p.k.toNat := by
    rw [← congrArg Params.m ok, ofBase, UInt64.toNat_ofNat', Nat.mod_eq_of_lt bytes, hp_eq]
  have len_eq : p.len = 2 * p.n + 3 := (congrArg Params.len ok).symm
  have m_le : p.m.toNat ≤ 64 := by
    rw [ok, maxMessageDigest] at message; omega
  replace digest := Classical.not_not.1 digest
  simp only [Classical.not_not, ne_eq, not_or, ← UInt64.toNat_inj] at digest total
  obtain ⟨d_ne, h_ne, split⟩ := total
  simp only [UInt64.toNat_mod, UInt64.toNat_zero, UInt64.reduceToNat] at digest d_ne h_ne split
  have total_eq : p.h.toNat = p.d.toNat * p.hp.toNat := by
    rw [hp_eq, UInt64.toNat_div]
    exact (Nat.mul_div_cancel' (Nat.dvd_of_mod_eq_zero split)).symm
  rw [← hp_eq] at layer treeBits
  simp only [maxLayerHeight, maxForestHeight, not_or, ← UInt64.toNat_inj,
    UInt64.toNat_zero] at layer treeBits shape
  have bits := bits_le_of_messageDigest_le (m_eq ▸ m_le)
  rw [toNat_shiftLeft_of_bits_le (by omega) (by omega) bits] at leaves
  refine
    { digest, total := total_eq, message := m_eq, message_le := m_le, layers := by omega,
      layer_pos := ?_, layer_le := by omega, tree_bits := by omega, forest_pos := by omega,
      forest_le := by omega, trees := by omega, leaves := by omega, chains := ?_ }
  · refine Nat.pos_of_ne_zero fun zero => h_ne ?_
    rw [total_eq, zero, Nat.mul_zero]
  · simp only [len_eq, UInt64.toNat_add, UInt64.toNat_mul, UInt64.reduceToNat]
    omega

/-! ## Sizes of sound parameters -/

namespace Sound

variable {p : Params}

theorem bits_le (sound : p.Sound) : p.k.toNat * p.a.toNat ≤ 512 :=
  bits_le_of_messageDigest_le (sound.message ▸ sound.message_le)

theorem trees_le (sound : p.Sound) : p.k.toNat ≤ 512 :=
  Nat.le_trans (Nat.le_mul_of_pos_right _ sound.forest_pos) sound.bits_le

/-- The tree bits are those of all layers but the lowest. -/
theorem tree_bits_eq (sound : p.Sound) :
    p.h.toNat - p.hp.toNat = (p.d.toNat - 1) * p.hp.toNat := by
  rw [sound.total, Nat.sub_mul, Nat.one_mul]

theorem layers_le (sound : p.Sound) : p.d.toNat ≤ 65 := by
  have bits := sound.tree_bits
  rw [sound.tree_bits_eq] at bits
  have := Nat.le_mul_of_pos_right (p.d.toNat - 1) sound.layer_pos
  omega

theorem n_pos (sound : p.Sound) : 0 < p.n.toNat := by
  have := sound.digest; omega

theorem n_pos64 (sound : p.Sound) : 0 < p.n := UInt64.lt_iff_toNat_lt.2 sound.n_pos

theorem n_le (sound : p.Sound) : p.n.toNat ≤ 32 := by
  have := sound.digest; omega

theorem chains_le (sound : p.Sound) : p.len.toNat ≤ 67 := by
  have := sound.digest; have := sound.chains; omega

theorem oneTimeSize_eq (sound : p.Sound) :
    p.oneTimeSize = .ok (p.len.toNat * p.n.toNat) := by
  have := Nat.mul_le_mul sound.chains_le sound.n_le
  exact size_of_lt (by omega)

theorem layerSize_le (sound : p.Sound) :
    (p.len.toNat + p.hp.toNat) * p.n.toNat ≤ 87 * 32 :=
  Nat.mul_le_mul (Nat.add_le_add sound.chains_le sound.layer_le) sound.n_le

theorem layerSize_eq (sound : p.Sound) :
    p.layerSize = .ok ((p.len.toNat + p.hp.toNat) * p.n.toNat) := by
  have := sound.layerSize_le; have := sound.chains_le; have := sound.layer_le
  rw [layerSize, size_of_lt (by omega), ok_bind, size_of_lt (by omega)]

theorem layerSize_pos (sound : p.Sound) : 0 < (p.len.toNat + p.hp.toNat) * p.n.toNat :=
  Nat.mul_pos (Nat.add_pos_right _ sound.layer_pos) sound.n_pos

theorem segmentSize_le (sound : p.Sound) : (p.a.toNat + 1) * p.n.toNat ≤ 25 * 32 :=
  Nat.mul_le_mul (Nat.succ_le_succ sound.forest_le) sound.n_le

theorem segmentSize_eq (sound : p.Sound) :
    p.segmentSize = .ok ((p.a.toNat + 1) * p.n.toNat) := by
  have := sound.segmentSize_le; have := sound.forest_le
  rw [segmentSize, size_of_lt (by omega), ok_bind, size_of_lt (by omega)]

theorem forestSize_le (sound : p.Sound) :
    p.k.toNat * ((p.a.toNat + 1) * p.n.toNat) ≤ 512 * (25 * 32) :=
  Nat.mul_le_mul sound.trees_le sound.segmentSize_le

theorem forestSize_eq (sound : p.Sound) :
    p.forestSize = .ok (p.k.toNat * ((p.a.toNat + 1) * p.n.toNat)) := by
  have := sound.forestSize_le; have := sound.forest_le
  have := Nat.mul_le_mul sound.trees_le (Nat.add_le_add_right sound.forest_le 1)
  rw [forestSize, size_of_lt (by omega), ok_bind, size_of_lt (by omega), ok_bind, Nat.mul_assoc,
    size_of_lt (by omega)]

theorem hypertreeSize_le (sound : p.Sound) :
    p.d.toNat * ((p.len.toNat + p.hp.toNat) * p.n.toNat) ≤ 65 * (87 * 32) :=
  Nat.mul_le_mul sound.layers_le sound.layerSize_le

theorem hypertreeSize_eq (sound : p.Sound) :
    p.hypertreeSize = .ok (p.d.toNat * ((p.len.toNat + p.hp.toNat) * p.n.toNat)) := by
  have := sound.hypertreeSize_le
  rw [hypertreeSize, sound.layerSize_eq, ok_bind, size_of_lt (by omega)]

theorem signatureSize_eq (sound : p.Sound) :
    p.signatureSize = .ok (p.n.toNat + p.k.toNat * ((p.a.toNat + 1) * p.n.toNat) +
      p.d.toNat * ((p.len.toNat + p.hp.toNat) * p.n.toNat)) := by
  have := sound.forestSize_le; have := sound.hypertreeSize_le; have := sound.n_le
  rw [signatureSize, sound.forestSize_eq, ok_bind, size_of_lt (by omega), ok_bind,
    sound.hypertreeSize_eq, ok_bind, size_of_lt (by omega)]

/-- A signature fits a buffer. -/
theorem signatureSize_fits (sound : p.Sound) :
    p.n.toNat + p.k.toNat * ((p.a.toNat + 1) * p.n.toNat) +
      p.d.toNat * ((p.len.toNat + p.hp.toNat) * p.n.toNat) ≤ maxBuffer := by
  have := sound.forestSize_le; have := sound.hypertreeSize_le; have := sound.n_le
  rw [maxBuffer]
  omega

theorem arenaSize_le (sound : p.Sound) :
    2 ^ max p.a.toNat p.hp.toNat * p.n.toNat ≤ 2 ^ 24 * 32 := by
  have height : max p.a.toNat p.hp.toNat ≤ 24 := by
    have := sound.forest_le; have := sound.layer_le
    omega
  exact Nat.mul_le_mul (Nat.pow_le_pow_right (by decide) height) sound.n_le

theorem arenaSize_eq (sound : p.Sound) :
    p.arenaSize = .ok (2 ^ max p.a.toNat p.hp.toNat * p.n.toNat) := by
  have small := sound.arenaSize_le
  have narrow : max p.a.toNat p.hp.toNat < 64 := by
    have := sound.forest_le; have := sound.layer_le
    omega
  obtain ⟨leaves, shifted, leaves_eq⟩ := shl64_one_eq narrow
  rw [arenaSize, shifted, ok_bind, leaves_eq, size_of_lt (by omega)]

/-- The arena of a request fits a buffer. -/
theorem arenaSize_fits (sound : p.Sound) :
    2 ^ max p.a.toNat p.hp.toNat * p.n.toNat ≤ maxBuffer :=
  Nat.le_trans sound.arenaSize_le (by decide)

theorem publicKeySize_eq (sound : p.Sound) : p.publicKeySize = .ok (2 * p.n.toNat) := by
  have := sound.n_le
  exact size_of_lt (by omega)

theorem privateKeySize_eq (sound : p.Sound) : p.privateKeySize = .ok (4 * p.n.toNat) := by
  have := sound.n_le
  exact size_of_lt (by omega)

end Sound

end HashSignature.Params
