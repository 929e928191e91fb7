/-
# HashSignature.Proofs.KeySafety — no key that the library hands out can break a rule

Keys come from seeds, from encodings and from a random source; they are reloaded, wiped, and private
keys give public ones. Two facts hold of all of them and are all that their operations need: the
parameters are accepted, and each part fills the front of its place and leaves zeros behind it.

* `PrivateKey.Reached`, `PublicKey.Reached` — the keys that the library hands out.
* `PrivateKey.WellFormed`, `PublicKey.WellFormed` — what holds of them, by induction on how they
  were reached.
* `PrivateKey.SignsSafely`, `PublicKey.VerifiesSafely` — how the operations of a key end, whatever
  they are given: no rule is broken, and each fault has its one cause.
-/
import HashSignature.Proofs.Key

namespace HashSignature

set_option autoImplicit false

open Outcome

variable {p : Params}

/-! ## Places with zeros behind the part -/

namespace Slot

/-- Behind its first `n` bytes a place holds zeros. -/
def Padded (slot : Slot) (n : Nat) : Prop := slot.bytes.drop n = Bytes.zeros (width - n)

theorem padded_zero (n : Nat) : zero.Padded n := by
  rw [Padded, show zero.bytes = List.replicate width 0 from rfl, List.drop_replicate]
  rfl

theorem padded_of_place {n : Nat} {bytes : Bytes} {slot : Slot}
    (placed : place n bytes = .ok slot) : slot.Padded n := by
  have length := (place_eq_ok placed).1
  rw [Padded, bytes_of_place placed, Bytes.padTo, List.drop_left' length, length, width]

theorem padded_of_ofPart {what : String} {n : Nat} {bytes : Bytes} {slot : Slot}
    (placed : ofPart what n bytes = .ok slot) : slot.Padded n := by
  unfold ofPart at placed
  split at placed
  · exact padded_of_place placed
  · exact absurd placed (refuse_ne_ok _ slot)

end Slot

/-! ## Keys that are handed out -/

/-- The private keys that the library hands out. -/
inductive PrivateKey.Reached : PrivateKey → Prop where
  | ofSeeds {p : Params} {skSeed skPrf pkSeed : Bytes} {key : PrivateKey}
      (made : PrivateKey.ofSeeds p skSeed skPrf pkSeed = .ok key) : Reached key
  | ofBytes {p : Params} {bytes : Bytes} {key : PrivateKey}
      (decoded : PrivateKey.ofBytes p bytes = .ok key) : Reached key
  | generate {p : Params} {source : RandomSource} {key : PrivateKey}
      (drawn : (PrivateKey.generate p source).1 = .ok key) : Reached key
  | generateKeyPair {p : Params} {source : RandomSource} {keys : PublicKey × PrivateKey}
      (drawn : (HashSignature.generateKeyPair p source).1 = .ok keys) : Reached keys.2
  | reload {key again : PrivateKey} (reached : Reached key)
      (decoded : PrivateKey.ofBytes key.params key.toBytes = .ok again) : Reached again
  | wiped {key : PrivateKey} (reached : Reached key) : Reached key.wiped

/-- The public keys that the library hands out. -/
inductive PublicKey.Reached : PublicKey → Prop where
  | ofBytes {p : Params} {bytes : Bytes} {key : PublicKey}
      (decoded : PublicKey.ofBytes p bytes = .ok key) : Reached key
  | ofHex {p : Params} {text : String} {key : PublicKey}
      (decoded : PublicKey.ofHex p text = .ok key) : Reached key
  | generateKeyPair {p : Params} {source : RandomSource} {keys : PublicKey × PrivateKey}
      (drawn : (HashSignature.generateKeyPair p source).1 = .ok keys) : Reached keys.1
  | ofPrivate {key : PrivateKey} (reached : key.Reached) : Reached key.publicKey
  | reload {key again : PublicKey} (reached : Reached key)
      (decoded : PublicKey.ofBytes key.params key.toBytes = .ok again) : Reached again
  | reloadHex {key again : PublicKey} (reached : Reached key)
      (decoded : PublicKey.ofHex key.params key.toHex = .ok again) : Reached again

/-- A private key of accepted parameters whose parts leave zeros behind them. -/
structure PrivateKey.WellFormed (key : PrivateKey) : Prop where
  accepted : key.params.check = .ok ()
  skSeed : key.skSeed.Padded key.n
  skPrf : key.skPrf.Padded key.n
  pkSeed : key.pkSeed.Padded key.n
  pkRoot : key.pkRoot.Padded key.n

/-- A public key of accepted parameters whose parts leave zeros behind them. -/
structure PublicKey.WellFormed (key : PublicKey) : Prop where
  accepted : key.params.check = .ok ()
  seed : key.seed.Padded key.params.n.toNat
  root : key.root.Padded key.params.n.toNat

namespace PrivateKey

theorem WellFormed.publicKey {key : PrivateKey} (formed : key.WellFormed) :
    key.publicKey.WellFormed :=
  ⟨formed.accepted, formed.pkSeed, formed.pkRoot⟩

theorem WellFormed.wiped {key : PrivateKey} (formed : key.WellFormed) : key.wiped.WellFormed where
  accepted := formed.accepted
  skSeed := Slot.padded_zero _
  skPrf := Slot.padded_zero _
  pkSeed := Slot.padded_zero _
  pkRoot := Slot.padded_zero _

theorem wellFormed_of_ofSeeds {skSeed skPrf pkSeed : Bytes} {key : PrivateKey}
    (made : ofSeeds p skSeed skPrf pkSeed = .ok key) : key.WellFormed := by
  have accepted := (genuine_of_ofSeeds made).accepted
  simp only [ofSeeds, bind_eq_ok, pure_eq_ok, Except.ok.injEq] at made
  obtain ⟨slot, rooted, slot₁, placed₁, slot₂, placed₂, slot₃, placed₃, rfl⟩ := made
  obtain ⟨_, _, -, -, placed⟩ := Signing.publicRoot_eq_ok rooted
  exact ⟨accepted, Slot.padded_of_ofPart placed₁, Slot.padded_of_ofPart placed₂,
    Slot.padded_of_ofPart placed₃, Slot.padded_of_place placed⟩

/-- A decoded key is one of the instance it was decoded for, with four slices of the string in its
places. -/
theorem parts_of_ofBytes {bytes : Bytes} {key : PrivateKey} (decoded : ofBytes p bytes = .ok key) :
    p.check = .ok () ∧ key.params = p ∧
      Slot.ofPart "secret seed" p.n.toNat (Bytes.slice 0 p.n.toNat bytes) = .ok key.skSeed ∧
      Slot.ofPart "PRF key" p.n.toNat (Bytes.slice p.n.toNat p.n.toNat bytes) = .ok key.skPrf ∧
      Slot.ofPart "public seed" p.n.toNat (Bytes.slice (2 * p.n.toNat) p.n.toNat bytes) =
        .ok key.pkSeed ∧
      Slot.ofPart "public root" p.n.toNat (bytes.drop (3 * p.n.toNat)) = .ok key.pkRoot := by
  rw [ofBytes] at decoded
  obtain ⟨_, accepted, decoded⟩ := bind_eq_ok.1 decoded
  obtain ⟨_, -, decoded⟩ := bind_eq_ok.1 decoded
  split at decoded
  case isFalse => exact absurd decoded (refuse_ne_ok _ key)
  simp only [bind_eq_ok, pure_eq_ok, Except.ok.injEq] at decoded
  obtain ⟨slot₁, placed₁, slot₂, placed₂, slot₃, placed₃, slot₄, placed₄, rfl⟩ := decoded
  exact ⟨accepted, rfl, placed₁, placed₂, placed₃, placed₄⟩

theorem wellFormed_of_ofBytes {bytes : Bytes} {key : PrivateKey}
    (decoded : ofBytes p bytes = .ok key) : key.WellFormed := by
  obtain ⟨accepted, rfl, placed₁, placed₂, placed₃, placed₄⟩ := parts_of_ofBytes decoded
  exact ⟨accepted, Slot.padded_of_ofPart placed₁, Slot.padded_of_ofPart placed₂,
    Slot.padded_of_ofPart placed₃, Slot.padded_of_ofPart placed₄⟩

theorem wellFormed_of_generate {source : RandomSource} {key : PrivateKey}
    (drawn : (generate p source).1 = .ok key) : key.WellFormed := by
  obtain ⟨_, _, -, drawn⟩ := Draw.bind_eq_ok drawn
  obtain ⟨_, _, -, drawn⟩ := Draw.bind_eq_ok drawn
  obtain ⟨_, _, -, drawn⟩ := Draw.bind_eq_ok drawn
  obtain ⟨_, _, -, drawn⟩ := Draw.bind_eq_ok drawn
  exact wellFormed_of_ofSeeds drawn

theorem Reached.wellFormed {key : PrivateKey} (reached : key.Reached) : key.WellFormed := by
  induction reached with
  | ofSeeds made => exact wellFormed_of_ofSeeds made
  | ofBytes decoded => exact wellFormed_of_ofBytes decoded
  | generate drawn => exact wellFormed_of_generate drawn
  | generateKeyPair drawn => exact wellFormed_of_generate (generateKeyPair_eq_ok.1 drawn).1
  | reload _ decoded _ => exact wellFormed_of_ofBytes decoded
  | wiped _ ih => exact ih.wiped

end PrivateKey

namespace PublicKey

/-- A decoded key is one of the instance it was decoded for, with the halves of the string in its
places. -/
theorem parts_of_ofBytes {bytes : Bytes} {key : PublicKey} (decoded : ofBytes p bytes = .ok key) :
    p.check = .ok () ∧ key.params = p ∧
      Slot.ofPart "public seed" p.n.toNat (bytes.take p.n.toNat) = .ok key.seed ∧
      Slot.ofPart "public root" p.n.toNat (bytes.drop p.n.toNat) = .ok key.root := by
  rw [ofBytes] at decoded
  obtain ⟨_, accepted, decoded⟩ := bind_eq_ok.1 decoded
  obtain ⟨_, -, decoded⟩ := bind_eq_ok.1 decoded
  split at decoded
  case isFalse => exact absurd decoded (refuse_ne_ok _ key)
  simp only [bind_eq_ok, pure_eq_ok, Except.ok.injEq] at decoded
  obtain ⟨slot₁, placed₁, slot₂, placed₂, rfl⟩ := decoded
  exact ⟨accepted, rfl, placed₁, placed₂⟩

theorem wellFormed_of_ofBytes {bytes : Bytes} {key : PublicKey}
    (decoded : ofBytes p bytes = .ok key) : key.WellFormed := by
  obtain ⟨accepted, rfl, placed₁, placed₂⟩ := parts_of_ofBytes decoded
  exact ⟨accepted, Slot.padded_of_ofPart placed₁, Slot.padded_of_ofPart placed₂⟩

theorem wellFormed_of_ofHex {text : String} {key : PublicKey}
    (decoded : ofHex p text = .ok key) : key.WellFormed := by
  unfold ofHex at decoded
  split at decoded
  · exact wellFormed_of_ofBytes decoded
  · exact absurd decoded (refuse_ne_ok _ key)

theorem Reached.wellFormed {key : PublicKey} (reached : key.Reached) : key.WellFormed := by
  induction reached with
  | ofBytes decoded => exact wellFormed_of_ofBytes decoded
  | ofHex decoded => exact wellFormed_of_ofHex decoded
  | generateKeyPair drawn =>
      obtain ⟨drawn, derived⟩ := PrivateKey.generateKeyPair_eq_ok.1 drawn
      exact derived ▸ (PrivateKey.wellFormed_of_generate drawn).publicKey
  | ofPrivate reached => exact reached.wellFormed.publicKey
  | reload _ decoded _ => exact wellFormed_of_ofBytes decoded
  | reloadHex _ decoded _ => exact wellFormed_of_ofHex decoded

end PublicKey

/-! ## Signing -/

namespace Draw

/-- Too few random bytes are reported, and none is taken. -/
theorem seed_of_lt {n : Nat} (le : n ≤ Slot.width) {source : RandomSource}
    (few : source.pool.length < n) :
    seed n source =
      (refuse (.randomGenerationFailed (.unavailable n source.explanation)), source) := by
  rw [seed, dif_pos le, if_neg (Nat.not_le.2 few)]

end Draw

theorem frame_of_lt {context : Bytes} (long : maxContext < context.length) (message : Bytes) :
    frame context message = refuse (.contextTooLong context.length) :=
  if_neg (Nat.not_le.2 long)

namespace PrivateKey

/-- Signing ended with a signature of full length. -/
def Signed (key : PrivateKey) (outcome : Outcome Bytes) : Prop :=
  ∃ signature, outcome = .ok signature ∧ key.params.signatureSize = .ok signature.length

/-- The fault that reports missing random bytes. -/
def noRandom (key : PrivateKey) (source : RandomSource) : Fault :=
  .randomGenerationFailed (.unavailable key.n source.explanation)

/-- The ways in which a key's signers end, each for its own inputs. -/
structure SignsSafely (key : PrivateKey) : Prop where
  prepared : ∀ message optRand, optRand.length = key.n →
    key.Signed (key.signPrepared message optRand)
  prepared_wrong : ∀ message optRand, optRand.length ≠ key.n →
    key.signPrepared message optRand = refuse (.invalidLength "randomizer" key.n optRand.length)
  bare : ∀ message, key.Signed (key.signBare message)
  framed : ∀ message context, context.length ≤ 255 → key.Signed (key.sign message context)
  framed_long : ∀ message context, 255 < context.length →
    key.sign message context = refuse (.contextTooLong context.length)
  drawnBare : ∀ message (source : RandomSource), key.n ≤ source.pool.length →
    key.Signed (key.signRandomizedBare message source).1
  drawnBare_few : ∀ message (source : RandomSource), source.pool.length < key.n →
    (key.signRandomizedBare message source).1 = refuse (key.noRandom source)
  drawn : ∀ message context (source : RandomSource), context.length ≤ 255 →
    key.n ≤ source.pool.length → key.Signed (key.signRandomized message context source).1
  drawn_few : ∀ message context (source : RandomSource), context.length ≤ 255 →
    source.pool.length < key.n →
      (key.signRandomized message context source).1 = refuse (key.noRandom source)
  drawn_long : ∀ message context (source : RandomSource), 255 < context.length →
    (key.signRandomized message context source).1 = refuse (.contextTooLong context.length)

/-- With random bytes of the right length a prepared message is signed in full length. -/
theorem signed_of_length {key : PrivateKey} (accepted : key.params.check = .ok ())
    {optRand : Bytes} (length : optRand.length = key.n) (message : Bytes) :
    key.Signed (key.signPrepared message optRand) := by
  have sound := Params.sound_of_check accepted
  obtain ⟨H, -, width, signs⟩ := signPrepared_eq accepted
  obtain ⟨signature, signed, full, -⟩ :=
    Signing.verifyWith_signWith sound width key.signingKey message optRand
  exact ⟨signature, (signs message optRand length).trans signed,
    by rw [full, Signing.signatureSize_eq sound]⟩

/-- The length of the random bytes is looked at before anything is signed. -/
theorem signPrepared_of_ne {key : PrivateKey} (accepted : key.params.check = .ok ())
    {optRand : Bytes} (wrong : optRand.length ≠ key.n) (message : Bytes) :
    key.signPrepared message optRand =
      refuse (.invalidLength "randomizer" key.n optRand.length) := by
  rw [signPrepared, Signing.sign, accepted, ok_bind, Signing.checkLength,
    if_neg (show optRand.length ≠ key.params.n.toNat from wrong)]
  rfl

/-- The drawing signer of bare messages fails only for lack of random bytes. -/
theorem signRandomizedBare_cases {key : PrivateKey} (accepted : key.params.check = .ok ())
    (message : Bytes) (source : RandomSource) :
    (key.n ≤ source.pool.length → key.Signed (key.signRandomizedBare message source).1) ∧
      (source.pool.length < key.n →
        (key.signRandomizedBare message source).1 = refuse (key.noRandom source)) := by
  have le : key.n ≤ Slot.width := (Params.sound_of_check accepted).n_le
  rw [signRandomizedBare, Draw.bind_apply]
  constructor
  · intro enough
    obtain ⟨slot, rest, drawn, -⟩ := Draw.seed_of le enough
    rw [drawn]
    exact signed_of_length accepted (slot.length_front le) message
  · intro few
    rw [Draw.seed_of_lt le few]
    rfl

/-- A context that is too long is reported before anything is drawn. -/
theorem signRandomized_of_lt (key : PrivateKey) {context : Bytes}
    (long : maxContext < context.length) (message : Bytes) (source : RandomSource) :
    key.signRandomized message context source =
      (refuse (.contextTooLong context.length), source) := by
  rw [signRandomized, Draw.bind_apply, Draw.ofOutcome, frame_of_lt long]
  rfl

/-- A message in its frame is signed as the framed message is. -/
theorem signRandomized_of_frame (key : PrivateKey) {context message framed : Bytes}
    (framed_eq : frame context message = .ok framed) (source : RandomSource) :
    key.signRandomized message context source = key.signRandomizedBare framed source := by
  rw [signRandomized, bind_of_run (Draw.ofOutcome_of framed_eq source)]

/-- The signers of a key of accepted parameters end as they should. -/
theorem signsSafely {key : PrivateKey} (accepted : key.params.check = .ok ()) :
    key.SignsSafely := by
  have le : key.n ≤ Slot.width := (Params.sound_of_check accepted).n_le
  have bare (message : Bytes) : key.Signed (key.signBare message) :=
    signed_of_length accepted (key.pkSeed.length_front le) message
  refine
    { prepared := fun message optRand length => signed_of_length accepted length message
      prepared_wrong := fun message optRand wrong => signPrepared_of_ne accepted wrong message
      bare
      framed := fun message context fits => ?_
      framed_long := fun message context long => ?_
      drawnBare := fun message source => (signRandomizedBare_cases accepted message source).1
      drawnBare_few := fun message source => (signRandomizedBare_cases accepted message source).2
      drawn := fun message context source fits => ?_
      drawn_few := fun message context source fits => ?_
      drawn_long := fun message context source long => ?_ }
  · obtain ⟨framed, frame_eq⟩ := frame_of fits message
    rw [sign, frame_eq, ok_bind]
    exact bare framed
  · rw [sign, frame_of_lt long]
    rfl
  · obtain ⟨framed, frame_eq⟩ := frame_of fits message
    rw [signRandomized_of_frame key frame_eq]
    exact (signRandomizedBare_cases accepted framed source).1
  · obtain ⟨framed, frame_eq⟩ := frame_of fits message
    rw [signRandomized_of_frame key frame_eq]
    exact (signRandomizedBare_cases accepted framed source).2
  · rw [signRandomized_of_lt key long]

end PrivateKey

/-! ## Verification -/

namespace PublicKey

/-- Every verification ends with a verdict, and what is malformed is rejected. -/
structure VerifiesSafely (key : PublicKey) : Prop where
  prepared : ∀ message signature, ∃ valid, key.verifyPrepared message signature = .ok valid
  bare : ∀ message signature, ∃ valid, key.verifyBare message signature = .ok valid
  framed : ∀ message context signature, ∃ valid, key.verify message context signature = .ok valid
  prepared_wrong : ∀ message signature, key.params.signatureSize ≠ .ok signature.length →
    key.verifyPrepared message signature = .ok false
  bare_wrong : ∀ message signature, key.params.signatureSize ≠ .ok signature.length →
    key.verifyBare message signature = .ok false
  framed_wrong : ∀ message context signature, key.params.signatureSize ≠ .ok signature.length →
    key.verify message context signature = .ok false
  framed_long : ∀ message context signature, 255 < context.length →
    key.verify message context signature = .ok false

/-- A signature of the wrong length is rejected. -/
theorem verifyPrepared_of_ne {key : PublicKey} (accepted : key.params.check = .ok ())
    {signature : Bytes} (wrong : key.params.signatureSize ≠ .ok signature.length)
    (message : Bytes) : key.verifyPrepared message signature = .ok false := by
  have sound := Params.sound_of_check accepted
  rw [sound.signatureSize_eq, ne_eq, Except.ok.injEq] at wrong
  rw [verifyPrepared, Signing.verify, accepted, ok_bind, sound.signatureSize_eq, ok_bind,
    if_neg fun full => wrong full.1.symm]
  rfl

/-- Whatever a signature holds, it gets a verdict. -/
theorem verdict_of_check {key : PublicKey} (accepted : key.params.check = .ok ())
    (message signature : Bytes) : ∃ valid, key.verifyPrepared message signature = .ok valid := by
  by_cases full : key.params.signatureSize = .ok signature.length
  case neg => exact ⟨false, verifyPrepared_of_ne accepted full message⟩
  have sound := Params.sound_of_check accepted
  have part (slot : Slot) : (slot.front key.params.n.toNat).length = key.params.n.toNat :=
    slot.length_front sound.n_le
  obtain ⟨H, hashed, width⟩ := Signing.hash_eq sound (part key.seed)
  rw [Signing.signatureSize_eq sound, Except.ok.injEq] at full
  have length := full.symm
  rw [verifyPrepared, seedBytes, rootBytes,
    Signing.verify_eq accepted (part key.seed) (part key.root) hashed length,
    Signing.verifyWith_eq sound width length]
  exact ⟨_, rfl⟩

/-- With too long a context nothing is valid. -/
theorem verify_of_lt (key : PublicKey) {context : Bytes} (long : maxContext < context.length)
    (message signature : Bytes) : key.verify message context signature = .ok false := by
  rw [verify, frame_of_lt long]
  rfl

/-- A message bound to a context is rejected, or verified in its framed form. -/
theorem verify_cases (key : PublicKey) (message context signature : Bytes) :
    key.verify message context signature = .ok false ∨
      ∃ framed, key.verify message context signature = key.verifyPrepared framed signature := by
  obtain long | fits := Nat.lt_or_ge maxContext context.length
  · exact .inl (verify_of_lt key long message signature)
  · obtain ⟨framed, frame_eq⟩ := PrivateKey.frame_of fits message
    exact .inr ⟨framed, PrivateKey.verify_of_frame frame_eq⟩

/-- The verifiers of a key of accepted parameters end with verdicts. -/
theorem verifiesSafely {key : PublicKey} (accepted : key.params.check = .ok ()) :
    key.VerifiesSafely := by
  refine
    { prepared := verdict_of_check accepted
      bare := verdict_of_check accepted
      framed := fun message context signature => ?_
      prepared_wrong := fun message signature wrong => verifyPrepared_of_ne accepted wrong message
      bare_wrong := fun message signature wrong => verifyPrepared_of_ne accepted wrong message
      framed_wrong := fun message context signature wrong => ?_
      framed_long := fun message context signature long => verify_of_lt key long message signature }
  · obtain rejected | ⟨framed, same⟩ := key.verify_cases message context signature
    · exact ⟨false, rejected⟩
    · exact same ▸ verdict_of_check accepted framed signature
  · obtain rejected | ⟨framed, same⟩ := key.verify_cases message context signature
    · exact rejected
    · exact same ▸ verifyPrepared_of_ne accepted wrong framed

end PublicKey

/-! ## All keys -/

/-- Every key that the library hands out has accepted parameters and zeros behind its parts, and
each of its signers and verifiers ends, for every input, in the way that is meant for that input. -/
theorem reached_keys_are_safe :
    (∀ key : PrivateKey, key.Reached → key.WellFormed ∧ key.SignsSafely) ∧
      ∀ key : PublicKey, key.Reached → key.WellFormed ∧ key.VerifiesSafely := by
  constructor
  · intro key reached
    have formed := reached.wellFormed
    exact ⟨formed, PrivateKey.signsSafely formed.accepted⟩
  · intro key reached
    have formed := reached.wellFormed
    exact ⟨formed, PublicKey.verifiesSafely formed.accepted⟩

/-- A key of zero bytes of the smallest instance, its wiped form and its public key. -/
theorem reached_keys_are_safe_zeros :
    ∃ key, PrivateKey.ofBytes (.ofBase .shake 16 1 1 1 1) (Bytes.zeros 64) = .ok key ∧
      (key.Reached ∧ key.SignsSafely) ∧ (key.wiped.Reached ∧ key.wiped.SignsSafely) ∧
      key.publicKey.Reached ∧ key.publicKey.VerifiesSafely := by
  have part : (Bytes.zeros 16).length = (Params.ofBase .shake 16 1 1 1 1).n.toNat := rfl
  obtain ⟨key, decoded, -⟩ := PrivateKey.ofBytes_append rfl part part part part
  have reached : key.Reached := .ofBytes decoded
  obtain ⟨signers, verifiers⟩ := reached_keys_are_safe
  exact ⟨key, decoded, ⟨reached, (signers key reached).2⟩,
    ⟨.wiped reached, (signers key.wiped (.wiped reached)).2⟩, .ofPrivate reached,
    (verifiers key.publicKey (.ofPrivate reached)).2⟩

end HashSignature
