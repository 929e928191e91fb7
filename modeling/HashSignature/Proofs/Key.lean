/-
# HashSignature.Proofs.Key — a key accepts its own signatures exactly if its root is the right one

The root in an encoded private key is never computed again: signatures are made with it as it is,
and whether they are accepted says whether it is the root of the tree on top.

* `exists_ofSeeds`, `exists_generate` — seeds of the right length make a key, and so do enough random
  bytes.
* `verdict_on_own` — signing with any key of accepted parameters succeeds, and the verdict on the
  signature compares the two roots.
* `Genuine` — a key that holds the right root; every key that is made from seeds or drawn is one.
* `AcceptsOwn` — what a genuine key promises for all signers of the library.
-/
import HashSignature.Proofs.Signing
import HashSignature.Key.Private

namespace HashSignature

set_option autoImplicit false

open Outcome

variable {p : Params}

/-! ## Signing and verifying with checks -/

namespace Signing

/-- With parts of the right lengths signing passes all its checks. -/
theorem sign_eq (accepted : p.check = .ok ()) {key : SigningKey}
    (skSeed : key.skSeed.length = p.n.toNat) (skPrf : key.skPrf.length = p.n.toNat)
    (pkSeed : key.pkSeed.length = p.n.toNat) (pkRoot : key.pkRoot.length = p.n.toNat)
    {H : TweakableHash} (hashed : p.hash key.pkSeed = .ok H) {optRand : Bytes}
    (length : optRand.length = p.n.toNat) (message : Bytes) :
    sign p key message optRand = signWith H p key message optRand := by
  have sound := Params.sound_of_check accepted
  rw [sign, accepted, ok_bind, checkLength_of length, ok_bind, checkLength_of skSeed, ok_bind,
    checkLength_of skPrf, ok_bind, checkLength_of pkSeed, ok_bind, checkLength_of pkRoot, ok_bind,
    sound.signatureSize_eq, ok_bind, buffer_of_le sound.signatureSize_fits, ok_bind, hashed, ok_bind]

/-- A signature of the right length reaches the comparison of roots. -/
theorem verify_eq (accepted : p.check = .ok ()) {pkSeed pkRoot : Bytes}
    (pkSeed_length : pkSeed.length = p.n.toNat) (pkRoot_length : pkRoot.length = p.n.toNat)
    {H : TweakableHash} (hashed : p.hash pkSeed = .ok H) {signature : Bytes}
    (length : signature.length = p.n.toNat + bodyWidth p) (message : Bytes) :
    verify p pkSeed pkRoot message signature =
      rejectFaults (verifyWith H p pkRoot message signature) := by
  have sound := Params.sound_of_check accepted
  rw [bodyWidth, forestWidth, layerWidth, ← Nat.add_assoc] at length
  rw [verify, accepted, ok_bind, sound.signatureSize_eq, ok_bind,
    if_pos ⟨length, pkSeed_length, pkRoot_length⟩, hashed, ok_bind]

end Signing

/-! ## Draws -/

namespace Draw

theorem bind_apply {α β : Type} (draw : Draw α) (next : α → Draw β) (source : RandomSource) :
    (draw >>= next) source = match draw source with
      | (.ok a, rest) => next a rest
      | (.error stop, rest) => (.error stop, rest) := by
  change (ExceptT.bindCont next (draw source).1) (draw source).2 = _
  rcases draw source with ⟨_ | _, _⟩ <;> rfl

theorem ofOutcome_of {α : Type} {outcome : Outcome α} {a : α} (ended : outcome = .ok a)
    (source : RandomSource) : ofOutcome outcome source = (.ok a, source) := by
  rw [ofOutcome, ended]

theorem seed_of {n : Nat} (le : n ≤ Slot.width) {source : RandomSource}
    (enough : n ≤ source.pool.length) :
    ∃ slot rest, seed n source = (.ok slot, rest) ∧
      rest.pool.length = source.pool.length - n := by
  rw [seed, dif_pos le, if_pos enough]
  exact ⟨_, _, rfl, List.length_drop⟩

/-- A draw that ended with a value ended its first part with one. -/
theorem bind_eq_ok {α β : Type} {draw : Draw α} {next : α → Draw β} {source : RandomSource} {b : β}
    (ended : ((draw >>= next) source).1 = .ok b) :
    ∃ a rest, draw source = (.ok a, rest) ∧ (next a rest).1 = .ok b := by
  rw [bind_apply] at ended
  rcases found : draw source with ⟨stop | a, rest⟩
  · rw [found] at ended
    simp at ended
  · rw [found] at ended
    exact ⟨a, rest, rfl, ended⟩

end Draw

/-! ## Keys and their parts -/

namespace PrivateKey

/-- A key decoded from four parts holds them. -/
theorem ofBytes_append (accepted : p.check = .ok ()) {skSeed skPrf pkSeed root : Bytes}
    (skSeed_length : skSeed.length = p.n.toNat) (skPrf_length : skPrf.length = p.n.toNat)
    (pkSeed_length : pkSeed.length = p.n.toNat) (root_length : root.length = p.n.toNat) :
    ∃ key, ofBytes p (skSeed ++ skPrf ++ pkSeed ++ root) = .ok key ∧ key.params = p ∧
      key.signingKey = ⟨skSeed, skPrf, pkSeed, root⟩ := by
  have sound := Params.sound_of_check accepted
  have le : p.n.toNat ≤ Slot.width := sound.n_le
  obtain ⟨slot₁, placed₁, front₁⟩ := Slot.ofPart_of "secret seed" skSeed_length le
  obtain ⟨slot₂, placed₂, front₂⟩ := Slot.ofPart_of "PRF key" skPrf_length le
  obtain ⟨slot₃, placed₃, front₃⟩ := Slot.ofPart_of "public seed" pkSeed_length le
  obtain ⟨slot₄, placed₄, front₄⟩ := Slot.ofPart_of "public root" root_length le
  have first : Bytes.slice 0 p.n.toNat (skSeed ++ skPrf ++ pkSeed ++ root) = skSeed := by
    simp [Bytes.slice, ← skSeed_length, List.append_assoc]
  have second : Bytes.slice p.n.toNat p.n.toNat (skSeed ++ skPrf ++ pkSeed ++ root) = skPrf := by
    rw [List.append_assoc, List.append_assoc, Bytes.slice, List.drop_left' skSeed_length,
      List.take_left' skPrf_length]
  have third : Bytes.slice (2 * p.n.toNat) p.n.toNat (skSeed ++ skPrf ++ pkSeed ++ root) =
      pkSeed := by
    rw [List.append_assoc, Bytes.slice, List.drop_left' (by rw [List.length_append]; omega),
      List.take_left' pkSeed_length]
  have fourth : (skSeed ++ skPrf ++ pkSeed ++ root).drop (3 * p.n.toNat) = root :=
    List.drop_left' (by rw [List.length_append, List.length_append]; omega)
  refine ⟨⟨p, slot₁, slot₂, slot₃, slot₄⟩, ?_, rfl, ?_⟩
  · rw [ofBytes, accepted, ok_bind]
    simp only []
    rw [sound.privateKeySize_eq, ok_bind, if_pos (by simp only [List.length_append]; omega), first,
      placed₁, ok_bind, second, placed₂, ok_bind, third, placed₃, ok_bind, fourth, placed₄, ok_bind,
      pure_eq_ok]
  · rw [signingKey, n, front₁, front₂, front₃, front₄]

/-- A key of accepted parameters that holds the root of the tree on top. -/
structure Genuine (key : PrivateKey) : Prop where
  accepted : key.params.check = .ok ()
  root : ∃ slot, Signing.publicRoot key.params key.signingKey.skSeed key.signingKey.skPrf
    key.signingKey.pkSeed = .ok slot ∧ slot.front key.n = key.signingKey.pkRoot

/-- Seeds of the right length make a key. -/
theorem exists_ofSeeds (accepted : p.check = .ok ()) {skSeed skPrf pkSeed : Bytes}
    (skSeed_length : skSeed.length = p.n.toNat) (skPrf_length : skPrf.length = p.n.toNat)
    (pkSeed_length : pkSeed.length = p.n.toNat) : ∃ key, ofSeeds p skSeed skPrf pkSeed = .ok key := by
  have sound := Params.sound_of_check accepted
  obtain ⟨H, hashed, width⟩ := Signing.hash_eq sound pkSeed_length
  obtain ⟨root, rooted, -⟩ := Signing.publicRoot_eq accepted skSeed_length skPrf_length pkSeed_length
    hashed width
  obtain ⟨slot₁, placed₁, -⟩ := Slot.ofPart_of "secret seed" skSeed_length sound.n_le
  obtain ⟨slot₂, placed₂, -⟩ := Slot.ofPart_of "PRF key" skPrf_length sound.n_le
  obtain ⟨slot₃, placed₃, -⟩ := Slot.ofPart_of "public seed" pkSeed_length sound.n_le
  refine ⟨⟨p, slot₁, slot₂, slot₃, root⟩, ?_⟩
  rw [ofSeeds, rooted, ok_bind]
  simp only []
  rw [placed₁, ok_bind, placed₂, ok_bind, placed₃, ok_bind, pure_eq_ok]

/-- Three seeds make a key. -/
theorem exists_generate (accepted : p.check = .ok ()) {source : RandomSource}
    (enough : 3 * p.n.toNat ≤ source.pool.length) : ∃ key, (generate p source).1 = .ok key := by
  have le : p.n.toNat ≤ Slot.width := (Params.sound_of_check accepted).n_le
  have enough₁ : p.n.toNat ≤ source.pool.length := by omega
  obtain ⟨skSeed, rest₁, drawn₁, left₁⟩ := Draw.seed_of le enough₁
  have enough₂ : p.n.toNat ≤ rest₁.pool.length := by omega
  obtain ⟨skPrf, rest₂, drawn₂, left₂⟩ := Draw.seed_of le enough₂
  have enough₃ : p.n.toNat ≤ rest₂.pool.length := by omega
  obtain ⟨pkSeed, rest₃, drawn₃, -⟩ := Draw.seed_of le enough₃
  obtain ⟨key, made⟩ := exists_ofSeeds accepted (skSeed.length_front le) (skPrf.length_front le)
    (pkSeed.length_front le)
  refine ⟨key, ?_⟩
  rw [generate, bind_of_run (Draw.ofOutcome_of accepted source), bind_of_run drawn₁,
    bind_of_run drawn₂, bind_of_run drawn₃]
  exact made

/-- Keys made from seeds are genuine. -/
theorem genuine_of_ofSeeds {skSeed skPrf pkSeed : Bytes} {key : PrivateKey}
    (made : ofSeeds p skSeed skPrf pkSeed = .ok key) : key.Genuine := by
  simp only [ofSeeds, bind_eq_ok, pure_eq_ok, Except.ok.injEq] at made
  obtain ⟨slot, rooted, slot₁, placed₁, slot₂, placed₂, slot₃, placed₃, rfl⟩ := made
  obtain ⟨-, front₁⟩ := Slot.ofPart_eq_ok placed₁
  obtain ⟨-, front₂⟩ := Slot.ofPart_eq_ok placed₂
  obtain ⟨-, front₃⟩ := Slot.ofPart_eq_ok placed₃
  obtain ⟨_, accepted, -⟩ := bind_eq_ok.1 rooted
  refine ⟨accepted, slot, ?_, rfl⟩
  simp only [signingKey, n, front₁, front₂, front₃, rooted]

/-- Drawn keys are genuine. -/
theorem genuine_of_generate {source : RandomSource} {key : PrivateKey}
    (drawn : (generate p source).1 = .ok key) : key.Genuine := by
  obtain ⟨_, _, -, drawn⟩ := Draw.bind_eq_ok drawn
  obtain ⟨_, _, -, drawn⟩ := Draw.bind_eq_ok drawn
  obtain ⟨_, _, -, drawn⟩ := Draw.bind_eq_ok drawn
  obtain ⟨_, _, -, drawn⟩ := Draw.bind_eq_ok drawn
  exact genuine_of_ofSeeds drawn

/-- A key pair is drawn as its private key is. -/
theorem generateKeyPair_eq_ok {source : RandomSource} {keys : PublicKey × PrivateKey} :
    (generateKeyPair p source).1 = .ok keys ↔
      (generate p source).1 = .ok keys.2 ∧ keys.1 = keys.2.publicKey := by
  constructor
  · intro drawn
    obtain ⟨key, rest, made, paired⟩ := Draw.bind_eq_ok drawn
    obtain rfl : (key.publicKey, key) = keys := Except.ok.inj paired
    exact ⟨by rw [made], rfl⟩
  · rintro ⟨drawn, derived⟩
    rcases ran : generate p source with ⟨ending, rest⟩
    rw [ran] at drawn
    obtain rfl : ending = .ok keys.2 := drawn
    rw [generateKeyPair, bind_of_run ran]
    exact congrArg Except.ok (Prod.ext derived.symm rfl)

/-! ## Verdicts on own signatures -/

/-- A key of accepted parameters signs with hash functions of its instance. -/
theorem signPrepared_eq {key : PrivateKey} (accepted : key.params.check = .ok ()) :
    ∃ H, key.params.hash key.signingKey.pkSeed = .ok H ∧ H.n = key.params.n.toNat ∧
      ∀ message optRand, optRand.length = key.n →
        key.signPrepared message optRand =
          Signing.signWith H key.params key.signingKey message optRand := by
  have sound := Params.sound_of_check accepted
  have part (slot : Slot) : (slot.front key.n).length = key.params.n.toNat :=
    slot.length_front sound.n_le
  obtain ⟨H, hashed, width⟩ := Signing.hash_eq sound (part key.pkSeed)
  refine ⟨H, hashed, width, ?_⟩
  intro message optRand length
  exact Signing.sign_eq accepted (part key.skSeed) (part key.skPrf) (part key.pkSeed)
    (part key.pkRoot) hashed length message

/-- Signing with a key of accepted parameters succeeds, and the verdict on the signature says
whether the root of the tree on top is the root in the key. -/
theorem verdict_on_own {key : PrivateKey} (accepted : key.params.check = .ok ()) :
    ∃ slot, Signing.publicRoot key.params key.signingKey.skSeed key.signingKey.skPrf
        key.signingKey.pkSeed = .ok slot ∧
      ∀ message optRand, optRand.length = key.n →
        ∃ signature, key.signPrepared message optRand = .ok signature ∧
          key.publicKey.verifyPrepared message signature =
            .ok (slot.front key.n == key.signingKey.pkRoot) := by
  have sound := Params.sound_of_check accepted
  have part (slot : Slot) : (slot.front key.n).length = key.params.n.toNat :=
    slot.length_front sound.n_le
  obtain ⟨H, hashed, width, signs⟩ := signPrepared_eq accepted
  obtain ⟨slot, rooted, front⟩ := Signing.publicRoot_eq accepted (part key.skSeed)
    (part key.skPrf) (part key.pkSeed) hashed width
  refine ⟨slot, rooted, ?_⟩
  intro message optRand length
  obtain ⟨signature, signed, full, verdict⟩ :=
    Signing.verifyWith_signWith sound width key.signingKey message optRand
  refine ⟨signature, (signs message optRand length).trans signed, ?_⟩
  rw [PublicKey.verifyPrepared]
  exact (Signing.verify_eq accepted (part key.pkSeed) (part key.pkRoot) hashed full message).trans
    (by rw [show slot.front key.n = _ from front]; exact congrArg Signing.rejectFaults verdict)

/-- A key all of whose signatures its public key accepts, each under the message and the context
that was signed. The randomized signers may fail only for lack of random bytes. -/
structure AcceptsOwn (key : PrivateKey) : Prop where
  bare : ∀ message, ∃ signature, key.signBare message = .ok signature ∧
    key.publicKey.verifyBare message signature = .ok true
  framed : ∀ message context, context.length ≤ maxContext →
    ∃ signature, key.sign message context = .ok signature ∧
      key.publicKey.verify message context signature = .ok true
  randomizedBare : ∀ message (source : RandomSource), key.n ≤ source.pool.length →
    ∃ signature, (key.signRandomizedBare message source).1 = .ok signature
  randomized : ∀ message context (source : RandomSource), context.length ≤ maxContext →
    key.n ≤ source.pool.length →
      ∃ signature, (key.signRandomized message context source).1 = .ok signature
  accepts_randomizedBare : ∀ message source signature,
    (key.signRandomizedBare message source).1 = .ok signature →
      key.publicKey.verifyBare message signature = .ok true
  accepts_randomized : ∀ message context source signature,
    (key.signRandomized message context source).1 = .ok signature →
      key.publicKey.verify message context signature = .ok true

theorem Genuine.signPrepared {key : PrivateKey} (genuine : key.Genuine) {optRand : Bytes}
    (length : optRand.length = key.n) (message : Bytes) :
    ∃ signature, key.signPrepared message optRand = .ok signature ∧
      key.publicKey.verifyPrepared message signature = .ok true := by
  obtain ⟨slot, rooted, verdict⟩ := verdict_on_own genuine.accepted
  obtain ⟨signature, signed, judged⟩ := verdict message optRand length
  obtain ⟨slot', rooted', front⟩ := genuine.root
  rw [rooted, Except.ok.injEq] at rooted'
  refine ⟨signature, signed, ?_⟩
  rw [judged, rooted', front, beq_self_eq_true]

theorem frame_of {context : Bytes} (fits : context.length ≤ maxContext) (message : Bytes) :
    ∃ framed, frame context message = .ok framed := ⟨_, if_pos fits⟩

theorem verify_of_frame {key : PublicKey} {context message framed signature : Bytes}
    (frame_eq : frame context message = .ok framed) :
    key.verify message context signature = key.verifyPrepared framed signature := by
  rw [PublicKey.verify, frame_eq]

/-- A genuine key accepts its own signatures. -/
theorem Genuine.acceptsOwn {key : PrivateKey} (genuine : key.Genuine) : key.AcceptsOwn := by
  have le : key.n ≤ Slot.width := (Params.sound_of_check genuine.accepted).n_le
  have drawn (slot : Slot) (message : Bytes) :=
    genuine.signPrepared (slot.length_front le) message
  have bare (message : Bytes) (source : RandomSource) (enough : key.n ≤ source.pool.length) :
      ∃ signature, (key.signRandomizedBare message source).1 = .ok signature := by
    obtain ⟨slot, rest, seed, -⟩ := Draw.seed_of le enough
    obtain ⟨signature, signed, -⟩ := drawn slot message
    refine ⟨signature, ?_⟩
    rw [signRandomizedBare, Draw.bind_apply, seed]
    exact signed
  have accepts (message : Bytes) (source : RandomSource) (signature : Bytes)
      (signed : (key.signRandomizedBare message source).1 = .ok signature) :
      key.publicKey.verifyBare message signature = .ok true := by
    obtain ⟨slot, _, -, signed⟩ := Draw.bind_eq_ok signed
    obtain ⟨signature', signed', accepted⟩ := drawn slot message
    rw [Draw.ofOutcome, signed', Except.ok.injEq] at signed
    exact signed ▸ accepted
  refine
    { bare := drawn key.pkSeed
      framed := fun message context fits => ?_
      randomizedBare := bare
      randomized := fun message context source fits enough => ?_
      accepts_randomizedBare := accepts
      accepts_randomized := fun message context source signature signed => ?_ }
  · obtain ⟨framed, frame_eq⟩ := frame_of fits message
    obtain ⟨signature, signed, accepted⟩ := drawn key.pkSeed framed
    refine ⟨signature, ?_, (verify_of_frame frame_eq).trans accepted⟩
    rw [sign, frame_eq, ok_bind]
    exact signed
  · obtain ⟨framed, frame_eq⟩ := frame_of fits message
    rw [signRandomized, Draw.bind_apply, Draw.ofOutcome, frame_eq]
    exact bare framed source enough
  · obtain ⟨framed, rest, frame_eq, signed⟩ := Draw.bind_eq_ok signed
    have frame_eq := congrArg Prod.fst frame_eq
    exact (verify_of_frame frame_eq).trans (accepts framed rest signature signed)

/-- A decoded key signs every message, whatever root it was given, and its public key accepts the
signature if and only if that root is the one that key generation computes from the seeds. Seeds of
the right length make a key, and so do enough random bytes; a key that the library made, from seeds
or drawn, accepts all that its signers return. -/
theorem accepts_own_iff_root (p : Params) (accepted : p.check = .ok ()) :
    (∀ skSeed skPrf pkSeed root : Bytes, skSeed.length = p.n.toNat → skPrf.length = p.n.toNat →
      pkSeed.length = p.n.toNat → root.length = p.n.toNat →
        ∃ key slot, ofBytes p (skSeed ++ skPrf ++ pkSeed ++ root) = .ok key ∧
          Signing.publicRoot p skSeed skPrf pkSeed = .ok slot ∧
          ∀ message optRand, optRand.length = p.n.toNat →
            ∃ signature valid, key.signPrepared message optRand = .ok signature ∧
              key.publicKey.verifyPrepared message signature = .ok valid ∧
              (valid = true ↔ root = slot.front p.n.toNat)) ∧
    ((∀ skSeed skPrf pkSeed : Bytes, skSeed.length = p.n.toNat → skPrf.length = p.n.toNat →
        pkSeed.length = p.n.toNat → ∃ key, ofSeeds p skSeed skPrf pkSeed = .ok key) ∧
      ∀ skSeed skPrf pkSeed key, ofSeeds p skSeed skPrf pkSeed = .ok key → key.AcceptsOwn) ∧
    ((∀ source : RandomSource, 3 * p.n.toNat ≤ source.pool.length →
        ∃ key, (generate p source).1 = .ok key) ∧
      ∀ source key, (generate p source).1 = .ok key → key.AcceptsOwn) ∧
    (∀ source : RandomSource, 3 * p.n.toNat ≤ source.pool.length →
      ∃ keys, (generateKeyPair p source).1 = .ok keys) ∧
    ∀ source keys, (generateKeyPair p source).1 = .ok keys →
      keys.1 = keys.2.publicKey ∧ keys.2.AcceptsOwn := by
  refine ⟨?_, ⟨?_, ?_⟩, ⟨?_, ?_⟩, ?_, ?_⟩
  · intro skSeed skPrf pkSeed root skSeed_length skPrf_length pkSeed_length root_length
    obtain ⟨key, decoded, rfl, parts⟩ :=
      ofBytes_append accepted skSeed_length skPrf_length pkSeed_length root_length
    obtain ⟨slot, rooted, verdict⟩ := verdict_on_own accepted
    rw [parts] at rooted verdict
    refine ⟨key, slot, decoded, rooted, ?_⟩
    intro message optRand length
    obtain ⟨signature, signed, judged⟩ := verdict message optRand length
    exact ⟨signature, _, signed, judged, by rw [beq_iff_eq, eq_comm]; rfl⟩
  · intro skSeed skPrf pkSeed skSeed_length skPrf_length pkSeed_length
    exact exists_ofSeeds accepted skSeed_length skPrf_length pkSeed_length
  · intro skSeed skPrf pkSeed key made
    exact (genuine_of_ofSeeds made).acceptsOwn
  · intro source enough
    exact exists_generate accepted enough
  · intro source key drawn
    exact (genuine_of_generate drawn).acceptsOwn
  · intro source enough
    obtain ⟨key, drawn⟩ := exists_generate accepted enough
    exact ⟨(key.publicKey, key), generateKeyPair_eq_ok.2 ⟨drawn, rfl⟩⟩
  · intro source keys drawn
    obtain ⟨drawn, derived⟩ := generateKeyPair_eq_ok.1 drawn
    exact ⟨derived, (genuine_of_generate drawn).acceptsOwn⟩

/-- Two layers of height two over a forest of three trees: a key that is made from seeds accepts the
signature of a message under a context, and one that is decoded with another root signs too. -/
theorem accepts_own_iff_root_two_layers :
    ∃ key signature,
      ofSeeds (.ofBase .shake 16 4 2 2 3) (List.replicate 16 1) (List.replicate 16 2)
        (List.replicate 16 3) = .ok key ∧
      key.sign [1, 2, 3] [4] = .ok signature ∧
      key.publicKey.verify [1, 2, 3] [4] signature = .ok true ∧
      ∃ other slot,
        ofBytes (.ofBase .shake 16 4 2 2 3) (List.replicate 16 1 ++ List.replicate 16 2 ++
          List.replicate 16 3 ++ Bytes.zeros 16) = .ok other ∧
        Signing.publicRoot (.ofBase .shake 16 4 2 2 3) (List.replicate 16 1) (List.replicate 16 2)
          (List.replicate 16 3) = .ok slot ∧
        ∃ signature valid, other.signPrepared [1, 2, 3] (List.replicate 16 5) = .ok signature ∧
          other.publicKey.verifyPrepared [1, 2, 3] signature = .ok valid ∧
          (valid = true ↔ Bytes.zeros 16 = slot.front 16) := by
  obtain ⟨decodes, ⟨makes, accepts⟩, -⟩ := accepts_own_iff_root (.ofBase .shake 16 4 2 2 3) rfl
  obtain ⟨key, made⟩ := makes (List.replicate 16 1) (List.replicate 16 2) (List.replicate 16 3)
    rfl rfl rfl
  obtain ⟨signature, signed, accepted⟩ := (accepts _ _ _ key made).framed [1, 2, 3] [4] (by decide)
  obtain ⟨other, slot, decoded, rooted, verdict⟩ := decodes (List.replicate 16 1)
    (List.replicate 16 2) (List.replicate 16 3) (Bytes.zeros 16) rfl rfl rfl rfl
  exact ⟨key, signature, made, signed, accepted, other, slot, decoded, rooted,
    verdict [1, 2, 3] (List.replicate 16 5) rfl⟩

end PrivateKey

end HashSignature
