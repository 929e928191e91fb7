/-
# HashSignature.Proofs.Framing — the frame of a message can be taken off in one way only

A frame puts a zero byte and the length of the context, in one byte, before the context and the
message. So what stands in a frame can be read back: the second byte says where the context ends.
That byte is the true length because longer contexts are refused; were the length cut to one byte
instead, a byte of the context could be moved over to the message.

* `unframe_eq_some_iff` — reading back is exact: a string is read as a context and a message if and
  only if it is their frame.
* `frame_inj` — two frames are equal if and only if their contexts and their messages are.
* `framing_is_unambiguous` — the frame that the signers and verifiers work on stands for one context
  and one message.
-/
import HashSignature.Proofs.KeySafety

namespace HashSignature

set_option autoImplicit false

open Outcome

/-! ## Reading a frame -/

/-- The context and the message of a frame, and nothing for a string that is not a frame. -/
def unframe : Bytes → Option (Bytes × Bytes)
  | zero :: length :: rest =>
      if zero = 0 ∧ length.toNat ≤ rest.length then
        some (rest.take length.toNat, rest.drop length.toNat)
      else none
  | _ => none

theorem frame_eq_ok {context message framed : Bytes} :
    frame context message = .ok framed ↔
      context.length ≤ maxContext ∧
        0 :: UInt8.ofNat context.length :: (context ++ message) = framed := by
  by_cases fits : context.length ≤ maxContext
  case pos => simp [frame, fits]
  case neg => simp [frame, fits, refuse_ne_ok]

/-- A length that is accepted is not cut when it is written into one byte. -/
theorem toNat_ofNat_length {context : Bytes} (fits : context.length ≤ maxContext) :
    (UInt8.ofNat context.length).toNat = context.length :=
  UInt8.toNat_ofNat_of_lt' (Nat.lt_succ_of_le fits)

theorem unframe_of_frame {context message framed : Bytes}
    (frame_eq : frame context message = .ok framed) : unframe framed = some (context, message) := by
  obtain ⟨fits, rfl⟩ := frame_eq_ok.1 frame_eq
  have inside : context.length ≤ (context ++ message).length := by simp
  rw [unframe, toNat_ofNat_length fits, if_pos ⟨rfl, inside⟩, List.take_left, List.drop_left]

theorem frame_of_unframe {context message framed : Bytes}
    (unframe_eq : unframe framed = some (context, message)) :
    frame context message = .ok framed := by
  match framed with
  | [] | [_] => cases unframe_eq
  | zero :: length :: rest =>
      rw [unframe] at unframe_eq
      split at unframe_eq
      case isFalse => cases unframe_eq
      case isTrue fits =>
        cases unframe_eq
        have width : (rest.take length.toNat).length = length.toNat := by
          rw [List.length_take, Nat.min_eq_left fits.2]
        refine frame_eq_ok.2 ⟨?_, ?_⟩
        · rw [width]
          exact Nat.le_of_lt_succ length.toNat_lt
        · rw [width, UInt8.ofNat_toNat, List.take_append_drop, fits.1]

/-- A string is read as a context and a message if and only if it is their frame. -/
theorem unframe_eq_some_iff {context message framed : Bytes} :
    unframe framed = some (context, message) ↔ frame context message = .ok framed :=
  ⟨frame_of_unframe, unframe_of_frame⟩

/-- Two frames are equal if and only if they hold the same context and the same message. -/
theorem frame_inj {context message framed context' message' framed' : Bytes}
    (frame_eq : frame context message = .ok framed)
    (frame_eq' : frame context' message' = .ok framed') :
    framed = framed' ↔ context = context' ∧ message = message' := by
  constructor
  · rintro rfl
    have same := (unframe_of_frame frame_eq).symm.trans (unframe_of_frame frame_eq')
    cases same
    exact ⟨rfl, rfl⟩
  · rintro ⟨rfl, rfl⟩
    exact Except.ok.inj (frame_eq.symm.trans frame_eq')

/-! ## What a prepared message stands for -/

/-- A prepared message stands for one context and one message: they are signed and verified as it
is, and nothing else has it as its frame. -/
structure StandsFor (framed context message : Bytes) : Prop where
  sign : ∀ key : PrivateKey, key.sign message context = key.signBare framed
  signRandomized : ∀ key : PrivateKey, ∀ source : RandomSource,
    key.signRandomized message context source = key.signRandomizedBare framed source
  verify : ∀ key : PublicKey, ∀ signature : Bytes,
    key.verify message context signature = key.verifyBare framed signature
  alone : ∀ context' message', frame context' message' = .ok framed →
    context' = context ∧ message' = message

theorem standsFor_of_frame {context message framed : Bytes}
    (frame_eq : frame context message = .ok framed) : StandsFor framed context message where
  sign := fun key => by rw [PrivateKey.sign, frame_eq, ok_bind]
  signRandomized := fun key source => key.signRandomized_of_frame frame_eq source
  verify := fun _ _ => PrivateKey.verify_of_frame frame_eq
  alone := fun _ _ frame_eq' => (frame_inj frame_eq' frame_eq).1 rfl

/-- A context is framed if and only if it has at most 255 bytes, and a longer one is refused with its
true length. Two frames are equal if and only if their contexts and their messages are, so the
message that the signers and the verifiers prepare stands for one context and one message. -/
theorem framing_is_unambiguous (context message : Bytes) :
    ((∃ framed, frame context message = .ok framed) ↔ context.length ≤ 255) ∧
    (255 < context.length →
      frame context message = refuse (.contextTooLong context.length)) ∧
    (∀ context' message' framed framed', frame context message = .ok framed →
      frame context' message' = .ok framed' →
        (framed = framed' ↔ context = context' ∧ message = message')) ∧
    ∀ framed, frame context message = .ok framed → StandsFor framed context message := by
  refine ⟨⟨?short, ?fits⟩, ?long, ?same, ?prepared⟩
  case short =>
    rintro ⟨framed, frame_eq⟩
    exact (frame_eq_ok.1 frame_eq).1
  case fits =>
    intro fits
    exact PrivateKey.frame_of fits message
  case long =>
    intro long
    exact frame_of_lt long message
  case same =>
    intro context' message' framed framed' frame_eq frame_eq'
    exact frame_inj frame_eq frame_eq'
  case prepared =>
    intro framed frame_eq
    exact standsFor_of_frame frame_eq

/-- A byte moved from the context to the message, and a context one byte too long. -/
theorem framing_is_unambiguous_moved :
    ¬ ([0, 2, 97, 98, 99] : Bytes) = [0, 1, 97, 98, 99] ∧
    frame (List.replicate 256 7) [] = refuse (.contextTooLong 256) ∧
    StandsFor [0, 2, 97, 98, 99] [97, 98] [99] := by
  obtain ⟨-, -, same, prepared⟩ := framing_is_unambiguous [97, 98] [99]
  have long := (framing_is_unambiguous (List.replicate 256 7) []).2.1
  refine ⟨fun equal => ?_, ?_, prepared _ rfl⟩
  · have moved := (same [97] [98, 99] _ _ rfl rfl).1 equal
    exact absurd moved.1 (by decide)
  · rw [List.length_replicate] at long
    exact long (by decide)

end HashSignature
