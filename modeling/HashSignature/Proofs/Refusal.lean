/-
# HashSignature.Proofs.Refusal — how the checks of the parameters end, and who ends with them

The checks end in an instance or in a refusal, except where the bits that select the leaves cannot
be counted. The leaves are counted first, to keep such numbers away, but in a word that drops high
bits. Whoever takes parameters checks them before it does anything else, and ends as the check does.

* `Stops` — what everything that takes parameters makes of a check that stops.
* `stops_of_check` — it stops there too, before a length or a random byte is looked at.
* `validation_breaks_iff` — where the checks break a rule, where they refuse, and what follows.
* `custom_breaks` — numbers of an instance's shape whose `2 ^ 69` leaves are counted as none.
-/
import HashSignature.Key.Private
import HashSignature.Proofs.Acceptance
import HashSignature.Proofs.Key

namespace HashSignature.Params

set_option autoImplicit false

open Outcome

/-! ## Who checks parameters -/

/-- Everything that takes parameters ends with `stop`, and a verification with `verdict`. -/
structure Stops (p : Params) (stop : Stop) (verdict : Outcome Bool) : Prop where
  publicKey : ∀ bytes, PublicKey.ofBytes p bytes = .error stop
  privateKey : ∀ bytes, PrivateKey.ofBytes p bytes = .error stop
  seeds : ∀ skSeed skPrf pkSeed, PrivateKey.ofSeeds p skSeed skPrf pkSeed = .error stop
  drawn : ∀ source, PrivateKey.generate p source = (.error stop, source)
  drawnPair : ∀ source, generateKeyPair p source = (.error stop, source)
  signed : ∀ key message optRand, Signing.sign p key message optRand = .error stop
  verified : ∀ pkSeed pkRoot message signature,
    Signing.verify p pkSeed pkRoot message signature = verdict

/-- A check that stops ends what takes the parameters; a verification turns a fault into a no. -/
theorem stops_of_check {p : Params} {stop : Stop} (stopped : p.check = .error stop) :
    p.Stops stop (Signing.rejectFaults (.error stop)) := by
  have drawn (source : RandomSource) : PrivateKey.generate p source = (.error stop, source) := by
    rw [PrivateKey.generate, Draw.bind_apply, Draw.ofOutcome, stopped]
  refine
    { publicKey := fun bytes => ?_
      privateKey := fun bytes => ?_
      seeds := fun skSeed skPrf pkSeed => ?_
      drawn
      drawnPair := fun source => ?_
      signed := fun key message optRand => ?_
      verified := fun pkSeed pkRoot message signature => ?_ }
  · rw [PublicKey.ofBytes, stopped, error_bind]
  · rw [PrivateKey.ofBytes, stopped, error_bind]
  · rw [PrivateKey.ofSeeds, Signing.publicRoot, stopped, error_bind, error_bind]
  · rw [generateKeyPair, Draw.bind_apply, drawn]
  · rw [Signing.sign, stopped, error_bind]
  · rw [Signing.verify, stopped, error_bind]

/-! ## The ends of the checks -/

/-- The checks of base numbers break a rule exactly where the leaves are counted as few and the bits
that select them cannot be counted; elsewhere they accept the numbers or refuse them for a cause in
them. The check of assembled parameters does the same, whatever it is given, and it ends everything
that takes the parameters. -/
theorem validation_breaks_iff (family : HashFamily) (n h d a k : UInt64) (p : Params) :
    (custom family n h d a k = broken ↔ Overflows n.toNat h.toNat d.toNat a.toNat k.toNat) ∧
    (¬Overflows n.toNat h.toNat d.toNat a.toNat k.toNat →
      (∃ made, custom family n h d a k = .ok made) ∨
        ∃ reason, custom family n h d a k = refuse (.invalidParameters reason)) ∧
    (p.check = broken ↔ Overflows p.n.toNat p.h.toNat p.d.toNat p.a.toNat p.k.toNat) ∧
    (¬Overflows p.n.toNat p.h.toNat p.d.toNat p.a.toNat p.k.toNat →
      p.check = .ok () ∨ ∃ reason, p.check = refuse (.invalidParameters reason)) ∧
    (∀ cause, p.check = refuse cause → p.Stops (.fault cause) (.ok false)) ∧
    (p.check = broken → p.Stops .broken broken) := by
  refine ⟨custom_eq_broken_iff, ?_, ?_, ?_, ?_, ?_⟩
  · intro fits
    obtain ⟨overflows, -⟩ | ⟨-, ended⟩ | ⟨-, -, reason, ended⟩ := custom_cases family n h d a k
    · exact absurd overflows fits
    · exact .inl ⟨_, ended⟩
    · exact .inr ⟨reason, ended⟩
  · exact check_eq_broken_iff
  · intro fits
    obtain ⟨overflows, -⟩ | ⟨-, ended⟩ := check_cases p
    · exact absurd overflows fits
    · exact ended
  · intro cause refused
    exact stops_of_check refused
  · intro stopped
    exact stops_of_check stopped

/-- One tree more than the count of the leaves allows is refused everywhere; so many trees that
their leaves are counted as none break a rule everywhere. -/
theorem validation_breaks_iff_runs :
    (¬Overflows 16 6 2 8 16777217 ∧ ∃ reason,
      (ofBase .shake 16 6 2 8 16777217).Stops (.fault (.invalidParameters reason)) (.ok false)) ∧
    Overflows 16 6 2 8 2305843009213693952 ∧
      (ofBase .shake 16 6 2 8 2305843009213693952).Stops .broken broken := by
  have fits : ¬Overflows 16 6 2 8 16777217 := fun overflows => absurd overflows.bits (by decide)
  have overflows : Overflows 16 6 2 8 2305843009213693952 :=
    ⟨⟨by decide, by decide, by decide⟩, by decide⟩
  obtain ⟨-, -, -, ends, refused, -⟩ := validation_breaks_iff .shake 16 6 2 8 16777217
    (ofBase .shake 16 6 2 8 16777217)
  obtain ⟨-, -, breaks, -, -, stopped⟩ := validation_breaks_iff .shake 16 6 2 8 2305843009213693952
    (ofBase .shake 16 6 2 8 2305843009213693952)
  obtain ended | ⟨reason, ended⟩ := ends fits
  · exact absurd ended (by decide)
  exact ⟨⟨fits, reason, refused _ ended⟩, overflows, stopped (breaks.2 overflows)⟩

/-- Base numbers for which the checks neither return an instance nor refuse them: `2 ^ 61` trees
with `2 ^ 8` leaves each pass the count of the leaves and break the count of the bits. -/
theorem custom_breaks :
    ¬∀ (family : HashFamily) (n h d a k : UInt64), (∃ p, custom family n h d a k = .ok p) ∨
      ∃ reason, custom family n h d a k = refuse (.invalidParameters reason) := by
  intro every
  have breaks : custom .shake 16 6 2 8 2305843009213693952 = broken := by decide
  obtain ⟨p, made⟩ | ⟨reason, refused⟩ := every .shake 16 6 2 8 2305843009213693952
  · exact broken_ne_ok p (breaks.symm.trans made)
  · exact refuse_ne_broken _ (refused.symm.trans breaks)

end HashSignature.Params
