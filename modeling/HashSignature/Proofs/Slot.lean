/-
# HashSignature.Proofs.Slot — a part of a key is found again in its place
-/
import HashSignature.Proofs.Outcome
import HashSignature.Slot

namespace HashSignature.Slot

set_option autoImplicit false

open Outcome

theorem length_front (slot : Slot) {n : Nat} (le : n ≤ width) : (slot.front n).length = n := by
  rw [front, List.length_take, slot.length_bytes]
  exact Nat.min_eq_left le

theorem front_fill {n : Nat} {bytes : Bytes} (fits : bytes.length ≤ width)
    (length : bytes.length = n) : (fill bytes fits).front n = bytes := by
  subst length
  simp [front, fill, Bytes.padTo]

/-- A placed part stands at the front of its place, with zeros behind it. -/
theorem bytes_of_place {n : Nat} {bytes : Bytes} {slot : Slot} (placed : place n bytes = .ok slot) :
    slot.bytes = Bytes.padTo 32 bytes := by
  by_cases fits : bytes.length = n ∧ n ≤ width
  · rw [place, dif_pos fits, Except.ok.injEq] at placed
    rw [← placed, fill]
  · rw [place, dif_neg fits] at placed
    exact absurd placed (broken_ne_ok slot)

theorem place_eq_ok {n : Nat} {bytes : Bytes} {slot : Slot} (placed : place n bytes = .ok slot) :
    bytes.length = n ∧ slot.front n = bytes := by
  by_cases fits : bytes.length = n ∧ n ≤ width
  · rw [place, dif_pos fits, Except.ok.injEq] at placed
    exact ⟨fits.1, placed ▸ front_fill _ fits.1⟩
  · rw [place, dif_neg fits] at placed
    simp at placed

theorem place_of (bytes : Bytes) {n : Nat} (length : bytes.length = n) (le : n ≤ width) :
    ∃ slot, place n bytes = .ok slot ∧ slot.front n = bytes := by
  have placed : place n bytes = .ok (fill bytes (by omega)) := dif_pos ⟨length, le⟩
  exact ⟨_, placed, (place_eq_ok placed).2⟩

theorem ofPart_eq_ok {what : String} {n : Nat} {bytes : Bytes} {slot : Slot}
    (placed : ofPart what n bytes = .ok slot) : bytes.length = n ∧ slot.front n = bytes := by
  unfold ofPart at placed
  split at placed
  · exact place_eq_ok placed
  · simp at placed

theorem ofPart_of (what : String) {n : Nat} {bytes : Bytes} (length : bytes.length = n)
    (le : n ≤ width) : ∃ slot, ofPart what n bytes = .ok slot ∧ slot.front n = bytes := by
  rw [ofPart, if_pos length]
  exact place_of bytes length le

end HashSignature.Slot
