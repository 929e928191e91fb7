/-
# HashSignature.Proofs.Ascent — the way from a message digest up to the public root

A message digest is cut into three strings without a gap. The last two are read as numbers, reduced to
the trees of layer 0 and to the leaves of a tree, and from there the coordinates climb layer by layer:
the low bits of a tree's number are the leaf above it, the others the tree. Signer and verifier both
rely on it that this way stays inside the layers and ends at the one tree on top.

* `Route.tiles` — the three strings of a digest, `treePart` and `leafPart` behind the forest's.
* `Route.toNat_word_treePart`, `Route.toNat_word_leafPart` — the words that the numbers are read into
  lose no bit.
* `Hypertree.digest_leads_to_top` — the coordinates on every layer, from any digest.
-/
import HashSignature.Proofs.Digits
import HashSignature.Proofs.Hypertree
import HashSignature.Proofs.Route

namespace HashSignature

set_option autoImplicit false

open Outcome

/-! ## The strings of a digest -/

namespace Route

variable {p : Params}

/-- The string of a digest that selects a tree of layer 0. -/
def treePart (p : Params) (digest : Bytes) : Bytes :=
  Bytes.slice (Params.bytesFor (p.k.toNat * p.a.toNat))
    (Params.bytesFor (p.h.toNat - p.hp.toNat)) digest

/-- The string of a digest that selects a leaf of that tree. -/
def leafPart (p : Params) (digest : Bytes) : Bytes :=
  Bytes.slice (Params.bytesFor (p.k.toNat * p.a.toNat) +
    Params.bytesFor (p.h.toNat - p.hp.toNat)) p.leafIndexSize digest

theorem length_forest (sound : p.Sound) {digest : Bytes} (length : digest.length = p.m.toNat) :
    (read p digest).forest.length = Params.bytesFor (p.k.toNat * p.a.toNat) := by
  have total := sound.message_eq
  rw [read, List.length_take]
  omega

theorem length_treePart (sound : p.Sound) {digest : Bytes} (length : digest.length = p.m.toNat) :
    (treePart p digest).length = Params.bytesFor (p.h.toNat - p.hp.toNat) := by
  have total := sound.message_eq
  rw [treePart, Bytes.slice, List.length_take, List.length_drop]
  omega

theorem length_leafPart (sound : p.Sound) {digest : Bytes} (length : digest.length = p.m.toNat) :
    (leafPart p digest).length = p.leafIndexSize := by
  have total := sound.message_eq
  rw [leafPart, Bytes.slice, List.length_take, List.length_drop]
  omega

/-- The three strings fill a digest up. -/
theorem tiles (sound : p.Sound) {digest : Bytes} (length : digest.length = p.m.toNat) :
    digest = (read p digest).forest ++ treePart p digest ++ leafPart p digest := by
  have total := sound.message_eq
  have last : leafPart p digest = (digest.drop (Params.bytesFor (p.k.toNat * p.a.toNat))).drop
      (Params.bytesFor (p.h.toNat - p.hp.toNat)) := by
    rw [leafPart, Bytes.slice, List.drop_drop, List.take_of_length_le]
    rw [List.length_drop]
    omega
  rw [last, read, treePart, Bytes.slice, List.append_assoc, List.take_append_drop,
    List.take_append_drop]

/-! ## The numbers in them -/

/-- A string of at most eight bytes fits its word. -/
theorem toNat_word_of_length_le {bytes : Bytes} (short : bytes.length ≤ 8) :
    (word bytes).toNat = bytes.toNat := by
  have power : 2 ^ (8 * bytes.length) ≤ 2 ^ 64 := Nat.pow_le_pow_right (by decide) (by omega)
  rw [toNat_word, Nat.mod_eq_of_lt (Nat.lt_of_lt_of_le bytes.toNat_lt power)]

theorem toNat_word_treePart (sound : p.Sound) {digest : Bytes}
    (length : digest.length = p.m.toNat) :
    (word (treePart p digest)).toNat = (treePart p digest).toNat := by
  have bits := sound.tree_bits
  apply toNat_word_of_length_le
  rw [length_treePart sound length, Params.bytesFor]
  omega

theorem toNat_word_leafPart (sound : p.Sound) {digest : Bytes}
    (length : digest.length = p.m.toNat) :
    (word (leafPart p digest)).toNat = (leafPart p digest).toNat := by
  have bits := sound.layer_le
  apply toNat_word_of_length_le
  rw [length_leafPart sound length, Params.leafIndexSize, Params.bytesFor]
  omega

/-- The shorter word that keeps the leaf holds all bits that select it. -/
theorem toNat_leaf_eq_lowBits (sound : p.Sound) (digest : Bytes) :
    (read p digest).leaf.toNat = (lowBits (word (leafPart p digest)) p.hp.toNat).toNat := by
  have low := sound.layer_le
  have power : 2 ^ p.hp.toNat ≤ 2 ^ 20 := Nat.pow_le_pow_right (by decide) low
  have lt := Nat.mod_lt (word (leafPart p digest)).toNat (Nat.two_pow_pos p.hp.toNat)
  rw [← toNat_lowBits _ (by omega)] at lt
  have fits : (lowBits (word (leafPart p digest)) p.hp.toNat).toNat < 2 ^ 32 := by omega
  exact Nat.mod_eq_of_lt fits

end Route

/-! ## The coordinates on all layers -/

namespace Hypertree

variable {p : Params}

/-- The tree and the leaf above a tree give its number back. -/
theorem treeAt_mul_add_leafAt (sound : p.Sound) (tree : UInt64) (leaf : UInt32) (layer : Nat) :
    (treeAt p tree (layer + 1)).toNat * 2 ^ p.hp.toNat + (leafAt p tree leaf (layer + 1)).toNat =
      (treeAt p tree layer).toNat := by
  rw [toNat_treeAt_succ, toNat_leafAt_succ sound, Nat.mul_comm, Nat.div_add_mod]

/-- The layers above a layer number its trees. -/
theorem bits_above (sound : p.Sound) (layer : Nat) :
    p.h.toNat - (layer + 1) * p.hp.toNat = (p.d.toNat - 1 - layer) * p.hp.toNat := by
  rw [sound.total, ← Nat.sub_mul, Nat.sub_sub, Nat.add_comm 1]

/-- A message digest leads to the one tree on top. It is cut into three strings that fill it up; the
second is the number of the tree of layer 0, reduced to the trees that there are, and the third the
number of its leaf, reduced to the leaves of a tree. No bit of them is lost on the way, also if the
number of the tree takes all 64 bits or none. From there every step up succeeds. On each layer the tree
and the leaf exist, the tree is the one above the tree of layer 0, and above layer 0 both together are
the tree of the layer below. -/
theorem digest_leads_to_top (p : Params) (accepted : p.check = .ok ()) (digest : Bytes)
    (length : digest.length = p.m.toNat) :
    ∃ (forest middle back : Bytes) (tree : UInt64) (leaf : UInt32)
      (place : (layer : Nat) → UInt32 × UInt64),
      Route.ofDigest p digest = .ok ⟨forest, tree, leaf⟩ ∧
      digest = forest ++ middle ++ back ∧
      p.forestDigestSize = .ok forest.length ∧ p.treeIndexSize = .ok middle.length ∧
      p.leafIndexSize = back.length ∧
      (Route.word middle).toNat = middle.toNat ∧ (Route.word back).toNat = back.toNat ∧
      leaf.toNat = (Route.lowBits (Route.word back) p.hp.toNat).toNat ∧
      tree.toNat = middle.toNat % 2 ^ (p.h.toNat - p.hp.toNat) ∧
      leaf.toNat = back.toNat % 2 ^ p.hp.toNat ∧
      place 0 = (leaf, tree) ∧
      (∀ layer, layer + 1 < p.d.toNat →
        ascend p (place layer).2 = .ok (place (layer + 1)) ∧
        (place (layer + 1)).2.toNat * 2 ^ p.hp.toNat + (place (layer + 1)).1.toNat =
          (place layer).2.toNat) ∧
      (∀ layer < p.d.toNat,
        (place layer).2.toNat = tree.toNat / 2 ^ (layer * p.hp.toNat) ∧
        (place layer).2.toNat < 2 ^ (p.h.toNat - (layer + 1) * p.hp.toNat) ∧
        (place layer).1.toNat < 2 ^ p.hp.toNat) ∧
      (place (p.d.toNat - 1)).2 = 0 := by
  have sound := Params.sound_of_check accepted
  have legal := Route.toNat_tree_lt sound digest
  have inside := Route.toNat_leaf_lt sound digest
  let tree := (Route.read p digest).tree
  let leaf := (Route.read p digest).leaf
  refine ⟨(Route.read p digest).forest, Route.treePart p digest, Route.leafPart p digest, tree, leaf,
    fun layer => (leafAt p tree leaf layer, treeAt p tree layer), Route.ofDigest_eq sound length,
    Route.tiles sound length, ?_, ?_, ?_, Route.toNat_word_treePart sound length,
    Route.toNat_word_leafPart sound length, Route.toNat_leaf_eq_lowBits sound digest,
    Route.toNat_tree sound digest, Route.toNat_leaf sound digest, ?_, ?_, ?_, ?_⟩
  · rw [sound.forestDigestSize_eq, Route.length_forest sound length]
  · rw [sound.treeIndexSize_eq, Route.length_treePart sound length]
  · rw [Route.length_leafPart sound length]
  · exact congrArg (Prod.mk leaf) (treeAt_zero p tree)
  · intro layer _
    exact ⟨ascend_eq sound tree leaf layer, treeAt_mul_add_leafAt sound tree leaf layer⟩
  · intro layer below
    refine ⟨toNat_treeAt p tree layer, ?_, leafAt_lt sound tree inside layer⟩
    rw [bits_above sound]
    exact toNat_treeAt_lt sound legal below
  · exact treeAt_top sound legal

/-- The widest tree number: 65 layers of height 1 under a digest of which all bits are set. -/
theorem digest_leads_to_top_widest :
    (Params.ofBase .shake 16 65 65 2 3).check = .ok () ∧
    ∃ place : (layer : Nat) → UInt32 × UInt64,
      Route.ofDigest (.ofBase .shake 16 65 65 2 3) (List.replicate 10 0xFF) =
        .ok ⟨[0xFF], 18446744073709551615, 1⟩ ∧
      place 0 = (1, 18446744073709551615) ∧
      (∀ layer < 64, ascend (.ofBase .shake 16 65 65 2 3) (place layer).2 = .ok (place (layer + 1))) ∧
      (place 63).2 = 1 ∧ (place 64).2 = 0 := by
  obtain ⟨_, _, _, _, _, place, read, -, -, -, -, -, -, -, -, -, start, step, places, top⟩ :=
    digest_leads_to_top (.ofBase .shake 16 65 65 2 3) rfl (List.replicate 10 0xFF) rfl
  have known : Route.ofDigest (.ofBase .shake 16 65 65 2 3) (List.replicate 10 0xFF) =
      .ok ⟨[0xFF], 18446744073709551615, 1⟩ := rfl
  obtain ⟨rfl, rfl, rfl⟩ := Route.mk.inj (Except.ok.inj (known.symm.trans read))
  refine ⟨rfl, place, known, start, fun layer below => (step layer (Nat.succ_lt_succ below)).1, ?_,
    top⟩
  exact UInt64.toNat_inj.1 ((places 63 (by decide)).1.trans (by decide))

end Hypertree

end HashSignature
