/-
# HashSignature.Proofs.Address — what is left of an address after its fields are set

The operations of the scheme hand one address on and overwrite its fields again and again, so most
of what an address held is lost before it is hashed. This file says what survives. The laws of
`put` come first: a field written over an older one hides it, and fields at disjoint places commute.

* `setLast` — both of the last two words set, as every call in a chain or a tree does. It hides
  whatever the chain, the step, the height or the index were before.
* `Alike` — two addresses that differ at most in their last two words. All later equations are up to
  this relation, so no proof has to know which call left an address behind.
* `SameTree` — two addresses that differ at most in the kind and in what stands behind it.
-/
import HashSignature.Proofs.Bytes
import HashSignature.Address

namespace HashSignature.Address

set_option autoImplicit false

@[ext] theorem ext {a b : Address} (same : a.bytes = b.bytes) : a = b := by
  cases a; cases b; simp_all

/-! ## Fields written over each other -/

theorem getElem?_put (adrs : Address) (position : Nat) (field : Bytes) (i : Nat) :
    (adrs.put position field).bytes[i]? =
      if position ≤ i ∧ i < position + field.length ∧ i < 32 then field[i - position]?
      else adrs.bytes[i]? := by
  simp [put, Bytes.getElem?_overwrite, adrs.length_bytes]

/-- A field hides what was written inside its place before. -/
theorem put_put_inside (adrs : Address) {p q : Nat} {new old : Bytes} (above : p ≤ q)
    (inside : q + old.length ≤ p + new.length) :
    (adrs.put q old).put p new = adrs.put p new := by
  ext i : 2
  simp only [getElem?_put]
  by_cases written : p ≤ i ∧ i < p + new.length ∧ i < 32
  · simp only [written, and_self, if_true]
  · rw [if_neg written, if_neg written, if_neg (by omega)]

/-- Fields at disjoint places may be written in either order. -/
theorem put_comm (adrs : Address) {p q : Nat} {first second : Bytes}
    (disjoint : p + first.length ≤ q) :
    (adrs.put p first).put q second = (adrs.put q second).put p first := by
  ext i : 2
  simp only [getElem?_put]
  by_cases low : p ≤ i ∧ i < p + first.length ∧ i < 32
  · rw [if_neg (by omega), if_pos low, if_pos low]
  · rw [if_neg low, if_neg low]

theorem slice_put_same (adrs : Address) (p : Nat) (field : Bytes)
    (fits : p + field.length ≤ 32) :
    Bytes.slice p field.length (adrs.put p field).bytes = field := by
  apply List.ext_getElem?
  intro i
  rw [Bytes.getElem?_slice, getElem?_put]
  split
  · rw [if_pos (by omega), Nat.add_sub_cancel_left]
  · rw [List.getElem?_eq_none (by omega)]

theorem slice_put_disjoint (adrs : Address) {p q width : Nat} {field : Bytes}
    (disjoint : p + field.length ≤ q ∨ q + width ≤ p) :
    Bytes.slice q width (adrs.put p field).bytes = Bytes.slice q width adrs.bytes := by
  apply List.ext_getElem?
  intro i
  rw [Bytes.getElem?_slice, Bytes.getElem?_slice, getElem?_put]
  split
  · rw [if_neg (by omega)]
  · rfl

/-! ## The last two words -/

/-- Sets the last two words: chain and step, or height and index. -/
def setLast (adrs : Address) (high low : UInt32) : Address := (adrs.setChain high).setHash low

theorem setChain_setHash (adrs : Address) (high low : UInt32) :
    (adrs.setChain high).setHash low = adrs.setLast high low := rfl

theorem setTreeHeight_setTreeIndex (adrs : Address) (height index : UInt32) :
    (adrs.setTreeHeight height).setTreeIndex index = adrs.setLast height index := rfl

@[simp] theorem setHash_setHash (adrs : Address) (old new : UInt32) :
    (adrs.setHash old).setHash new = adrs.setHash new :=
  put_put_inside _ (by omega) (by simp)

@[simp] theorem setHash_setChain (adrs : Address) (low high : UInt32) :
    (adrs.setHash low).setChain high = adrs.setLast high low :=
  (put_comm _ (by simp)).symm

@[simp] theorem setChain_setChain (adrs : Address) (old new : UInt32) :
    (adrs.setChain old).setChain new = adrs.setChain new :=
  put_put_inside _ (by omega) (by simp)

@[simp] theorem setChain_setLast (adrs : Address) (old high low : UInt32) :
    (adrs.setChain old).setLast high low = adrs.setLast high low :=
  congrArg (setHash · low) (put_put_inside _ (by omega) (by simp))

@[simp] theorem setHash_setLast (adrs : Address) (old high low : UInt32) :
    (adrs.setHash old).setLast high low = adrs.setLast high low := by
  rw [setLast, setHash_setChain, setLast, setHash_setHash, setChain_setHash]

@[simp] theorem setTreeHeight_setLast (adrs : Address) (old high low : UInt32) :
    (adrs.setTreeHeight old).setLast high low = adrs.setLast high low :=
  adrs.setChain_setLast old high low

@[simp] theorem setTreeIndex_setLast (adrs : Address) (old high low : UInt32) :
    (adrs.setTreeIndex old).setLast high low = adrs.setLast high low :=
  adrs.setHash_setLast old high low

@[simp] theorem setLast_setLast (adrs : Address) (high₁ low₁ high low : UInt32) :
    (adrs.setLast high₁ low₁).setLast high low = adrs.setLast high low := by
  change ((adrs.setChain high₁).setHash low₁).setLast high low = _
  rw [setHash_setLast, setChain_setLast]

/-- A change of the kind hides everything behind the kind. -/
@[simp] theorem setType_setType (adrs : Address) (old new : AddressType) :
    (adrs.setType old).setType new = adrs.setType new :=
  put_put_inside _ (by omega) (by simp)

@[simp] theorem setKeyPair_setKeyPair (adrs : Address) (old new : UInt32) :
    (adrs.setKeyPair old).setKeyPair new = adrs.setKeyPair new :=
  put_put_inside _ (by omega) (by simp)

@[simp] theorem setKeyPair_setType (adrs : Address) (keyPair : UInt32) (kind : AddressType) :
    (adrs.setKeyPair keyPair).setType kind = adrs.setType kind :=
  put_put_inside _ (by omega) (by simp)

@[simp] theorem setLast_setType (adrs : Address) (high low : UInt32) (kind : AddressType) :
    (adrs.setLast high low).setType kind = adrs.setType kind :=
  (put_put_inside _ (by omega) (by simp)).trans (put_put_inside _ (by omega) (by simp))

/-! ## The key pair -/

theorem word_put_same (adrs : Address) {position : Nat} (value : UInt32)
    (fits : position + 4 ≤ 32) :
    (adrs.put position (.ofNat 4 value.toNat)).word position = value := by
  have slice := adrs.slice_put_same position (.ofNat 4 value.toNat)
    (by rw [Bytes.length_ofNat]; exact fits)
  rw [Bytes.length_ofNat] at slice
  rw [word, slice, Bytes.toNat_ofNat_of_lt value.toNat_lt, UInt32.ofNat_toNat]

theorem word_put_disjoint (adrs : Address) {p q : Nat} {field : Bytes}
    (disjoint : p + field.length ≤ q ∨ q + 4 ≤ p) :
    (adrs.put p field).word q = adrs.word q := by
  rw [word, slice_put_disjoint _ disjoint, word]

/-- The key pair and the last two words are set in either order. -/
theorem setLast_setKeyPair (adrs : Address) (keyPair high low : UInt32) :
    (adrs.setLast high low).setKeyPair keyPair = (adrs.setKeyPair keyPair).setLast high low := by
  have past_chain : (adrs.setKeyPair keyPair).setChain high = (adrs.setChain high).setKeyPair keyPair :=
    put_comm _ (by simp)
  have past_hash : ((adrs.setChain high).setKeyPair keyPair).setHash low =
      ((adrs.setChain high).setHash low).setKeyPair keyPair := put_comm _ (by simp)
  rw [setLast, setLast, past_chain, past_hash]

@[simp] theorem keyPair_setLast (adrs : Address) (high low : UInt32) :
    (adrs.setLast high low).keyPair = adrs.keyPair :=
  (word_put_disjoint _ (by omega)).trans (word_put_disjoint _ (by omega))

/-! ## Addresses that agree before their last two words -/

/-- Two addresses that differ at most in their last two words. -/
def Alike (a b : Address) : Prop := a.setLast 0 0 = b.setLast 0 0

namespace Alike

variable {a b c : Address}

@[refl] theorem refl (a : Address) : Alike a a := rfl

@[symm] theorem symm (same : Alike a b) : Alike b a := Eq.symm same

theorem trans (first : Alike a b) (second : Alike b c) : Alike a c := Eq.trans first second

theorem setLast (same : Alike a b) (high low : UInt32) : a.setLast high low = b.setLast high low := by
  rw [← a.setLast_setLast 0 0, same, setLast_setLast]

theorem setType (same : Alike a b) (kind : AddressType) : a.setType kind = b.setType kind := by
  rw [← a.setLast_setType 0 0, same, setLast_setType]

theorem keyPair (same : Alike a b) : a.keyPair = b.keyPair := by
  rw [← a.keyPair_setLast 0 0, same, keyPair_setLast]

theorem setKeyPair (same : Alike a b) (keyPair : UInt32) :
    Alike (a.setKeyPair keyPair) (b.setKeyPair keyPair) := by
  rw [Alike, ← setLast_setKeyPair, same, setLast_setKeyPair]

end Alike

@[simp] theorem alike_setLast (adrs : Address) (high low : UInt32) :
    Alike (adrs.setLast high low) adrs := adrs.setLast_setLast high low 0 0

@[simp] theorem alike_setChain (adrs : Address) (chain : UInt32) : Alike (adrs.setChain chain) adrs :=
  adrs.setChain_setLast chain 0 0

@[simp] theorem alike_setHash (adrs : Address) (hash : UInt32) : Alike (adrs.setHash hash) adrs :=
  adrs.setHash_setLast hash 0 0

@[simp] theorem alike_setTreeHeight (adrs : Address) (height : UInt32) :
    Alike (adrs.setTreeHeight height) adrs := adrs.setTreeHeight_setLast height 0 0

@[simp] theorem alike_setTreeIndex (adrs : Address) (index : UInt32) :
    Alike (adrs.setTreeIndex index) adrs := adrs.setTreeIndex_setLast index 0 0

/-- Alike addresses have the same 24 bytes before their last two words. -/
theorem take_of_alike {a b : Address} (alike : Alike a b) : a.bytes.take 24 = b.bytes.take 24 := by
  apply List.ext_getElem?
  intro i
  rw [List.getElem?_take, List.getElem?_take]
  split
  · have here := congrArg (·.bytes[i]?) alike
    simp only [setLast, setChain, setHash, getElem?_put, Bytes.length_ofNat] at here
    rwa [if_neg (by omega), if_neg (by omega), if_neg (by omega), if_neg (by omega)] at here
  · rfl

/-- Addresses are alike if the 24 bytes before their last two words are the same. -/
theorem alike_of_take {a b : Address} (same : a.bytes.take 24 = b.bytes.take 24) : Alike a b := by
  ext i : 2
  simp only [setLast, setChain, setHash, getElem?_put, Bytes.length_ofNat]
  by_cases front : i < 24
  · have here := congrArg (·[i]?) same
    simp only [List.getElem?_take, if_pos front] at here
    rw [if_neg (by omega), if_neg (by omega), if_neg (by omega), if_neg (by omega), here]
  · by_cases inside : i < 32
    · by_cases low : 28 ≤ i
      · rw [if_pos (by omega), if_pos (by omega)]
      · rw [if_neg (by omega), if_pos (by omega), if_neg (by omega), if_pos (by omega)]
    · rw [if_neg (by omega), if_neg (by omega), if_neg (by omega), if_neg (by omega),
        List.getElem?_eq_none (by rw [a.length_bytes]; omega),
        List.getElem?_eq_none (by rw [b.length_bytes]; omega)]

/-! ## Addresses that agree before their kind -/

/-- Two addresses with the same bytes before the kind, which are layer and tree. -/
def SameTree (a b : Address) : Prop := a.bytes.take 16 = b.bytes.take 16

namespace SameTree

variable {a b c : Address}

@[refl] theorem refl (a : Address) : SameTree a a := rfl

@[symm] theorem symm (same : SameTree a b) : SameTree b a := Eq.symm same

theorem trans (first : SameTree a b) (second : SameTree b c) : SameTree a c :=
  Eq.trans first second

theorem of_alike (alike : Alike a b) : SameTree a b := by
  have front := congrArg (List.take 16) (take_of_alike alike)
  rwa [List.take_take, List.take_take] at front

/-- A field behind the tree leaves layer and tree alone. -/
theorem put (adrs : Address) {position : Nat} (behind : 16 ≤ position) (field : Bytes) :
    SameTree (adrs.put position field) adrs := by
  apply List.ext_getElem?
  intro i
  rw [List.getElem?_take, List.getElem?_take]
  split
  · rw [getElem?_put, if_neg (by omega)]
  · rfl

/-- The kind is set together with all that stands behind it. -/
theorem setType (same : SameTree a b) (kind : AddressType) : a.setType kind = b.setType kind := by
  ext i : 2
  rw [Address.setType, Address.setType, getElem?_put, getElem?_put]
  by_cases front : i < 16
  · have here := congrArg (·[i]?) same
    simp only [List.getElem?_take, if_pos front] at here
    rw [if_neg (by omega), if_neg (by omega), here]
  · by_cases inside : i < 32
    · rw [if_pos (by simp; omega), if_pos (by simp; omega)]
    · rw [if_neg (by omega), if_neg (by omega), List.getElem?_eq_none (by rw [a.length_bytes]; omega),
        List.getElem?_eq_none (by rw [b.length_bytes]; omega)]

end SameTree

end HashSignature.Address
