/-
# HashSignature.RandomSource — a finite supply of random bytes

A request takes the next bytes of the supply, or fails and takes none if too few are left. A
`Draw` is a computation with access to the supply; what was taken before it fails stays taken.
-/
import HashSignature.Slot

namespace HashSignature

set_option autoImplicit false

/-- The bytes that are left, and what the source says when they do not suffice. -/
structure RandomSource where
  pool : Bytes
  explanation : String
deriving DecidableEq, Repr

/-- A computation that may take random bytes, whether or not it ends with a value. -/
abbrev Draw := ExceptT Stop (StateM RandomSource)

namespace Draw

/-- A computation that takes no random bytes. -/
def ofOutcome {α : Type} (outcome : Outcome α) : Draw α := fun source => (outcome, source)

/-- Draws a seed of `n` bytes. -/
def seed (n : Nat) : Draw Slot := fun source =>
  if h : n ≤ Slot.width then
    if n ≤ source.pool.length then
      (.ok (Slot.fill (source.pool.take n) (by simp; omega)),
        { source with pool := source.pool.drop n })
    else
      (Outcome.refuse (.randomGenerationFailed (.unavailable n source.explanation)), source)
  else (Outcome.refuse (.invalidParameters (.seedTooLong n)), source)

end Draw

end HashSignature
