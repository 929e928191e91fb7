/-
# HashSignature.Proofs.Acceptance — which parameters are accepted, refused, or break a rule

`Documented` says in exact integers which base numbers make an instance. The checks work in 64-bit
words and count the leaves of the forest without the bits that are shifted out, so they let numbers
through whose leaves are far too many: `Passes`. Behind that check the bits that select the leaves
are counted, and what was let through wrongly either has too long a message digest or breaks the
rule of that count.

* `custom_cases` — the three ends of the checks: a rule is broken where the count `Overflows`, the
  documented numbers are accepted, and all others are refused.
* `check_cases` — the same for assembled parameters, which are accepted if they are what `custom`
  derives from their own base numbers.
* `Sized` — the sizes of accepted parameters, none of which overflows.
* `accepts_exactly_documented` — what is accepted, in exact integers.
-/
import Mathlib.Algebra.Order.Floor.Div
import HashSignature.Proofs.Route

namespace HashSignature.Params

set_option autoImplicit false

open Outcome

/-! ## The documented limits -/

/-- The digest size, the heights and the layers of an instance are supported, and the layers have
one height. -/
structure Shaped (n h d a : Nat) : Prop where
  digest : n = 16 ∨ n = 24 ∨ n = 32
  layers : 1 ≤ d
  height : 1 ≤ h
  split : d ∣ h
  layer_le : h / d ≤ 20
  tree_bits : h - h / d ≤ 64
  forest_pos : 1 ≤ a
  forest_le : a ≤ 24

/-- Base numbers that make an instance. -/
structure Documented (n h d a k : Nat) : Prop extends Shaped n h d a where
  trees : 1 ≤ k
  leaves : k * 2 ^ a ≤ 2 ^ 32
  message : (k * a) ⌈/⌉ 8 + (h - h / d) ⌈/⌉ 8 + (h / d) ⌈/⌉ 8 ≤ 64

/-- Base numbers that the checks let through to the derivation of the sizes: the count of the leaves
is what its word keeps of it. -/
structure Passes (n h d a k : Nat) : Prop extends Shaped n h d a where
  trees : 1 ≤ k
  counted : k * 2 ^ a % 2 ^ 64 ≤ 2 ^ 32

/-- Base numbers that are let through with more bits to select leaves than a size can count. -/
structure Overflows (n h d a k : Nat) : Prop extends Passes n h d a k where
  bits : 2 ^ 64 ≤ k * a

instance (n h d a : Nat) : Decidable (Shaped n h d a) :=
  decidable_of_iff ((n = 16 ∨ n = 24 ∨ n = 32) ∧ 1 ≤ d ∧ 1 ≤ h ∧ d ∣ h ∧ h / d ≤ 20 ∧
      h - h / d ≤ 64 ∧ 1 ≤ a ∧ a ≤ 24)
    ⟨fun ⟨digest, layers, height, split, layer_le, tree_bits, forest_pos, forest_le⟩ =>
      ⟨digest, layers, height, split, layer_le, tree_bits, forest_pos, forest_le⟩,
    fun ⟨digest, layers, height, split, layer_le, tree_bits, forest_pos, forest_le⟩ =>
      ⟨digest, layers, height, split, layer_le, tree_bits, forest_pos, forest_le⟩⟩

instance (n h d a k : Nat) : Decidable (Documented n h d a k) :=
  decidable_of_iff (Shaped n h d a ∧ 1 ≤ k ∧ k * 2 ^ a ≤ 2 ^ 32 ∧
      (k * a) ⌈/⌉ 8 + (h - h / d) ⌈/⌉ 8 + (h / d) ⌈/⌉ 8 ≤ 64)
    ⟨fun ⟨shaped, trees, leaves, message⟩ => ⟨shaped, trees, leaves, message⟩,
    fun ⟨shaped, trees, leaves, message⟩ => ⟨shaped, trees, leaves, message⟩⟩

/-- What the checks let through is documented if the message digest is short enough. A count of
leaves that lost bits is no way around: the digest would be too long. -/
theorem documented_iff {n h d a k : Nat} :
    Documented n h d a k ↔ Passes n h d a k ∧ messageDigest h (h / d) a k ≤ 64 := by
  constructor
  · intro documented
    have counted : k * 2 ^ a % 2 ^ 64 ≤ 2 ^ 32 := Nat.le_trans (Nat.mod_le _ _) documented.leaves
    exact ⟨⟨documented.toShaped, documented.trees, counted⟩, documented.message⟩
  · rintro ⟨passes, message⟩
    have lt := leaves_lt passes.forest_pos passes.forest_le (bits_le_of_messageDigest_le message)
    have leaves : k * 2 ^ a ≤ 2 ^ 32 := Nat.mod_eq_of_lt lt ▸ passes.counted
    exact ⟨passes.toShaped, passes.trees, leaves, message⟩

/-! ## What becomes of base numbers -/

variable {family : HashFamily} {n h d a k : UInt64} {p : Params}

/-- The first part of the checks, read in exact integers. -/
theorem shaped_iff : Shaped n.toNat h.toNat d.toNat a.toNat ↔
    (n = 16 ∨ n = 24 ∨ n = 32) ∧ (d ≠ 0 ∧ h ≠ 0 ∧ h % d = 0) ∧ (h / d).toNat ≤ 20 ∧
      h.toNat - (h / d).toNat ≤ 64 ∧ a ≠ 0 ∧ a.toNat ≤ 24 := by
  simp only [← UInt64.toNat_inj, ne_eq, UInt64.toNat_mod, UInt64.toNat_div, UInt64.toNat_zero,
    UInt64.reduceToNat, ← Nat.dvd_iff_mod_eq_zero]
  constructor
  · rintro ⟨digest, layers, height, split, layer_le, tree_bits, forest_pos, forest_le⟩
    exact ⟨digest, ⟨by omega, by omega, split⟩, layer_le, tree_bits, by omega, forest_le⟩
  · rintro ⟨digest, ⟨layers, height, split⟩, layer_le, tree_bits, forest_pos, forest_le⟩
    exact ⟨digest, by omega, by omega, split, layer_le, tree_bits, by omega, forest_le⟩

/-- What is done with base numbers that pass. -/
def finish (family : HashFamily) (n h d a k : UInt64) : Outcome Params := do
  let params ← derived family n h d a k
  if maxMessageDigest < params.m.toNat then reject (.messageDigest params.m.toNat)
  else return params

/-- Base numbers that pass have their sizes derived. -/
theorem custom_of_passes (family : HashFamily)
    (passes : Passes n.toNat h.toNat d.toNat a.toNat k.toNat) :
    custom family n h d a k = finish family n h d a k := by
  obtain ⟨digest, ⟨layers, height, split⟩, layer_le, tree_bits, forest_pos, forest_le⟩ :=
    shaped_iff.1 passes.toShaped
  have trees : k ≠ 0 := fun zero => absurd passes.trees (by rw [zero]; decide)
  have counted := passes.counted
  rw [← toNat_shiftLeft_of_le forest_le] at counted
  have total : ¬(d = 0 ∨ h = 0 ∨ h % d ≠ 0) := by simp only [layers, height, split]; decide
  have forest : ¬(a = 0 ∨ 24 < a.toNat ∨ k = 0) := by
    simp only [forest_pos, trees, false_or, or_false]
    omega
  rw [custom, if_neg (Classical.not_not.2 digest), if_neg total, maxLayerHeight,
    if_neg (Nat.not_lt.2 layer_le), if_neg (Nat.not_lt.2 tree_bits), maxForestHeight,
    if_neg forest, if_neg (Nat.not_lt.2 counted), finish]

/-- Base numbers that do not pass are refused. -/
theorem custom_of_not_passes (family : HashFamily)
    (stuck : ¬Passes n.toNat h.toNat d.toNat a.toNat k.toNat) :
    ∃ reason, custom family n h d a k = reject reason := by
  unfold custom
  split
  · exact ⟨_, rfl⟩
  rename_i digest
  split
  · exact ⟨_, rfl⟩
  rename_i total
  split
  · exact ⟨_, rfl⟩
  rename_i layer
  split
  · exact ⟨_, rfl⟩
  rename_i tree_bits
  split
  · exact ⟨_, rfl⟩
  rename_i forest
  split
  · exact ⟨_, rfl⟩
  rename_i counted
  -- nothing was refused, so the numbers pass after all
  rw [Classical.not_not] at digest
  simp only [not_or, ne_eq, Classical.not_not, Nat.not_lt, maxLayerHeight, maxForestHeight] at *
  obtain ⟨forest_pos, forest_le, trees⟩ := forest
  rw [toNat_shiftLeft_of_le forest_le] at counted
  have trees : k.toNat ≠ 0 := fun zero => trees (UInt64.toNat_inj.1 zero)
  exact absurd ⟨shaped_iff.2 ⟨digest, total, layer, tree_bits, forest_pos, forest_le⟩,
    by omega, counted⟩ stuck

theorem width_le (passes : Passes n.toNat h.toNat d.toNat a.toNat k.toNat) :
    2 * n.toNat + checksumDigits < 2 ^ 64 := by
  have := passes.digest
  rw [checksumDigits]
  omega

theorem layers_ne (passes : Passes n.toNat h.toNat d.toNat a.toNat k.toNat) : d ≠ 0 :=
  fun zero => absurd passes.layers (by rw [zero]; decide)

/-- More bits than a size can count break the rule of that size. -/
theorem finish_of_overflows (family : HashFamily)
    (overflows : Overflows n.toNat h.toNat d.toNat a.toNat k.toNat) :
    finish family n h d a k = broken := by
  rw [finish, derived, ensure_of (layers_ne overflows.toPasses), ok_bind,
    size_of_lt (width_le overflows.toPasses), ok_bind, size, if_neg (Nat.not_lt.2 overflows.bits)]
  rfl

theorem layer_le_height : (h / d).toNat ≤ h.toNat := by
  rw [UInt64.toNat_div]
  exact Nat.div_le_self _ _

/-- Bits that can be counted give a message digest whose size can be counted. -/
theorem finish_of_bits_lt (family : HashFamily)
    (passes : Passes n.toNat h.toNat d.toNat a.toNat k.toNat)
    (bits : k.toNat * a.toNat < 2 ^ 64) :
    finish family n h d a k =
      if 64 < messageDigest h.toNat (h / d).toNat a.toNat k.toNat then
        reject (.messageDigest (messageDigest h.toNat (h / d).toNat a.toNat k.toNat))
      else .ok (ofBase family n h d a k) := by
  have layer_le := passes.layer_le
  have tree_bits := passes.tree_bits
  rw [← UInt64.toNat_div] at layer_le tree_bits
  have fits : messageDigest h.toNat (h / d).toNat a.toNat k.toNat < 2 ^ 64 := by
    unfold messageDigest bytesFor
    omega
  have message : (ofBase family n h d a k).m.toNat =
      messageDigest h.toNat (h / d).toNat a.toNat k.toNat := by
    rw [ofBase, UInt64.toNat_ofNat', Nat.mod_eq_of_lt fits]
  rw [finish, derived, ensure_of (layers_ne passes), ok_bind, size_of_lt (width_le passes), ok_bind,
    size_of_lt bits, ok_bind, less_of_le layer_le_height, ok_bind, size_of_lt fits, ok_bind,
    pure_eq_ok, ok_bind, message]
  rfl

/-! ## Acceptance and failure -/

/-- The three ends of the checks: a broken rule, the instance, a refusal. -/
theorem custom_cases (family : HashFamily) (n h d a k : UInt64) :
    (Overflows n.toNat h.toNat d.toNat a.toNat k.toNat ∧ custom family n h d a k = broken) ∨
    (Documented n.toNat h.toNat d.toNat a.toNat k.toNat ∧
      custom family n h d a k = .ok (ofBase family n h d a k)) ∨
    (¬Overflows n.toNat h.toNat d.toNat a.toNat k.toNat ∧
      ¬Documented n.toNat h.toNat d.toNat a.toNat k.toNat ∧
      ∃ reason, custom family n h d a k = reject reason) := by
  by_cases passes : Passes n.toNat h.toNat d.toNat a.toNat k.toNat
  case neg =>
    exact .inr (.inr ⟨fun overflows => passes overflows.toPasses,
      fun documented => passes (documented_iff.1 documented).1, custom_of_not_passes family passes⟩)
  rw [custom_of_passes family passes, documented_iff, and_iff_right passes, ← UInt64.toNat_div]
  by_cases bits : k.toNat * a.toNat < 2 ^ 64
  case neg =>
    have overflows := Overflows.mk passes (Nat.not_lt.1 bits)
    exact .inl ⟨overflows, finish_of_overflows family overflows⟩
  rw [finish_of_bits_lt family passes bits]
  by_cases long : 64 < messageDigest h.toNat (h / d).toNat a.toNat k.toNat
  case pos =>
    exact .inr (.inr ⟨fun overflows => absurd overflows.bits (Nat.not_le.2 bits),
      Nat.not_le.2 long, _, if_pos long⟩)
  exact .inr (.inl ⟨Nat.not_lt.1 long, if_neg long⟩)

/-- No base numbers are documented and break a rule. -/
theorem not_overflows_of_documented {n h d a k : Nat} (documented : Documented n h d a k) :
    ¬Overflows n h d a k := by
  intro overflows
  have bits := bits_le_of_messageDigest_le (documented_iff.1 documented).2
  have := overflows.bits
  omega

/-- Exactly the documented base numbers are accepted. -/
theorem custom_eq_ok_iff : custom family n h d a k = .ok p ↔
    Documented n.toNat h.toNat d.toNat a.toNat k.toNat ∧ p = ofBase family n h d a k := by
  obtain ⟨overflows, ended⟩ | ⟨documented, ended⟩ | ⟨-, undocumented, reason, ended⟩ :=
    custom_cases family n h d a k
  · rw [ended]
    exact iff_of_false (broken_ne_ok p)
      fun both => not_overflows_of_documented both.1 overflows
  · rw [ended, Except.ok.injEq, and_iff_right documented, eq_comm]
  · rw [ended]
    exact iff_of_false (refuse_ne_ok _ p) fun both => undocumented both.1

/-- A rule is broken exactly where the bits that select the leaves cannot be counted. -/
theorem custom_eq_broken_iff : custom family n h d a k = broken ↔
    Overflows n.toNat h.toNat d.toNat a.toNat k.toNat := by
  obtain ⟨overflows, ended⟩ | ⟨documented, ended⟩ | ⟨fits, -, reason, ended⟩ :=
    custom_cases family n h d a k
  · exact iff_of_true ended overflows
  · rw [ended]
    exact iff_of_false (broken_ne_ok _).symm (not_overflows_of_documented documented)
  · rw [ended]
    exact iff_of_false (refuse_ne_broken _) fits

/-! ## Assembled parameters -/

/-- Accepted parameters are what the checks derive from their base numbers. -/
theorem check_eq_ok_iff :
    p.check = .ok () ↔ ∃ family n h d a k, custom family n h d a k = .ok p := by
  constructor
  · intro accepted
    exact ⟨_, _, _, _, _, _, check_eq_ok.1 accepted⟩
  · rintro ⟨family, n, h, d, a, k, made⟩
    obtain ⟨-, rfl⟩ := custom_eq_ok_iff.1 made
    exact check_eq_ok.2 made

/-- The ends of the check are those of the checks of the base numbers; what is derived from them has
to be what the parameters say. -/
theorem check_cases (p : Params) :
    (Overflows p.n.toNat p.h.toNat p.d.toNat p.a.toNat p.k.toNat ∧ p.check = broken) ∨
    (¬Overflows p.n.toNat p.h.toNat p.d.toNat p.a.toNat p.k.toNat ∧
      (p.check = .ok () ∨ ∃ reason, p.check = refuse (.invalidParameters reason))) := by
  obtain ⟨overflows, ended⟩ | ⟨documented, ended⟩ | ⟨fits, -, reason, ended⟩ :=
    custom_cases p.family p.n p.h p.d p.a p.k
  · refine .inl ⟨overflows, ?_⟩
    rw [check, ended]
    rfl
  · refine .inr ⟨not_overflows_of_documented documented, ?_⟩
    rw [check, ended, ok_bind]
    split
    · exact .inl rfl
    · exact .inr ⟨_, rfl⟩
  · refine .inr ⟨fits, .inr ⟨reason, ?_⟩⟩
    rw [check, ended]
    rfl

/-- The check breaks a rule exactly where the checks of the base numbers do. -/
theorem check_eq_broken_iff : p.check = broken ↔
    Overflows p.n.toNat p.h.toNat p.d.toNat p.a.toNat p.k.toNat := by
  obtain ⟨overflows, ended⟩ | ⟨fits, ended | ⟨reason, ended⟩⟩ := check_cases p
  · exact iff_of_true ended overflows
  · rw [ended]
    exact iff_of_false (broken_ne_ok _).symm fits
  · rw [ended]
    exact iff_of_false (refuse_ne_broken _) fits

/-- The sizes of an instance fit each other and none of them overflows. -/
structure Sized (p : Params) : Prop where
  forestDigest : p.forestDigestSize = .ok ((p.k.toNat * p.a.toNat) ⌈/⌉ 8)
  treeIndex : p.treeIndexSize = .ok ((p.h.toNat - p.hp.toNat) ⌈/⌉ 8)
  leafIndex : p.leafIndexSize = p.hp.toNat ⌈/⌉ 8
  message : (p.k.toNat * p.a.toNat) ⌈/⌉ 8 + (p.h.toNat - p.hp.toNat) ⌈/⌉ 8 + p.hp.toNat ⌈/⌉ 8 =
    p.m.toNat
  message_le : p.m.toNat ≤ 64
  chains : p.len.toNat = 2 * p.n.toNat + 3
  chains_le : p.len.toNat ≤ 67
  layer_pos : 1 ≤ p.hp.toNat
  layer_le : p.hp.toNat ≤ 20
  layers_le : p.d.toNat ≤ 65
  total : p.d.toNat * p.hp.toNat = p.h.toNat
  oneTime : p.oneTimeSize = .ok (p.len.toNat * p.n.toNat)
  layer : p.layerSize = .ok ((p.len.toNat + p.hp.toNat) * p.n.toNat)
  signature : ∃ forest hypertree, p.forestSize = .ok forest ∧ p.hypertreeSize = .ok hypertree ∧
    p.signatureSize = .ok (forest + hypertree + p.n.toNat) ∧
    forest = p.k.toNat * (p.a.toNat + 1) * p.n.toNat ∧
    hypertree = p.d.toNat * (p.len.toNat + p.hp.toNat) * p.n.toNat
  publicKey : p.publicKeySize = .ok (2 * p.n.toNat)
  privateKey : p.privateKeySize = .ok (4 * p.n.toNat)

theorem Sound.sized (sound : p.Sound) : p.Sized where
  forestDigest := sound.forestDigestSize_eq
  treeIndex := sound.treeIndexSize_eq
  leafIndex := rfl
  message := sound.message_eq
  message_le := sound.message_le
  chains := sound.chains
  chains_le := sound.chains_le
  layer_pos := sound.layer_pos
  layer_le := sound.layer_le
  layers_le := sound.layers_le
  total := sound.total.symm
  oneTime := sound.oneTimeSize_eq
  layer := sound.layerSize_eq
  signature := by
    refine ⟨_, _, sound.forestSize_eq, sound.hypertreeSize_eq, ?_, (Nat.mul_assoc _ _ _).symm,
      (Nat.mul_assoc _ _ _).symm⟩
    rw [sound.signatureSize_eq]
    congr 1
    omega
  publicKey := sound.publicKeySize_eq
  privateKey := sound.privateKeySize_eq

/-- Exactly the base numbers within the documented limits make an instance, exactly the instances
made so are accepted, and the sizes of an accepted one fit each other. -/
theorem accepts_exactly_documented :
    (∀ (family : HashFamily) (n h d a k : UInt64), (∃ p, custom family n h d a k = .ok p) ↔
      Documented n.toNat h.toNat d.toNat a.toNat k.toNat) ∧
    (∀ p : Params, p.check = .ok () ↔ ∃ family n h d a k, custom family n h d a k = .ok p) ∧
    ∀ p : Params, p.check = .ok () → p.Sized := by
  refine ⟨?_, ?_, ?_⟩
  · intro family n h d a k
    constructor
    · rintro ⟨p, made⟩
      exact (custom_eq_ok_iff.1 made).1
    · intro documented
      exact ⟨_, custom_eq_ok_iff.2 ⟨documented, rfl⟩⟩
  · intro p
    exact check_eq_ok_iff
  · intro p accepted
    exact (sound_of_check accepted).sized

/-- The numbers of a fast instance with short digests are documented and accepted. -/
theorem accepts_exactly_documented_fast :
    Documented 16 66 22 6 33 ∧ ∃ p, custom .shake 16 66 22 6 33 = .ok p ∧ p.check = .ok () ∧
      p.Sized := by
  obtain ⟨made, accepted, sized⟩ := accepts_exactly_documented
  have documented : Documented 16 66 22 6 33 := by decide
  obtain ⟨p, ended⟩ := (made .shake 16 66 22 6 33).2 documented
  have ok := (accepted p).2 ⟨_, _, _, _, _, _, ended⟩
  exact ⟨documented, p, ended, ok, sized p ok⟩

end HashSignature.Params

