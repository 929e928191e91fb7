/-
# HashSignature.Outcome — results, faults and broken machine rules

A computation of the library ends in one of three ways: with a value, with a reported `Fault`, or
`broken`: a 64-bit or 32-bit result does not fit, a shift is as wide as its word, a buffer is too
large, or a string is cut behind its end. Nothing catches a broken rule; it ends the whole
computation. An operation that could break one asks for it by name here, so a proof that a value
comes out is also a proof that no rule was broken on the way.

Some rules are not asked for because others imply them. A bit reader is filled before it is used: it
then holds the bits that it gives out and fewer than eight more, so that the difference exists and
no shift is as wide as the word (`BitReader.use`). Keys are only made with checked parameters, whose
digests fit the 32 bytes of a place (`Slot.front`). One rule is taken for granted: a string that is
in memory leaves room in a buffer for the 257 bytes that framing adds at most (`frame`).
-/
import HashSignature.Fault

namespace HashSignature

set_option autoImplicit false

/-- Why a computation ends without a value. -/
inductive Stop where
  /-- The input is refused for a reported cause. -/
  | fault (cause : Fault)
  /-- An arithmetic or bounds rule of the machine is broken. -/
  | broken
deriving DecidableEq, Repr

/-- A value, a reported fault, or a broken rule. -/
abbrev Outcome := Except Stop

namespace Outcome

def broken {α : Type} : Outcome α := .error .broken

def refuse {α : Type} (cause : Fault) : Outcome α := .error (.fault cause)

/-- A rule of the machine that has to hold from here on. -/
def ensure (rule : Prop) [Decidable rule] : Outcome Unit := if rule then .ok () else broken

/-- A size: a number that has to fit 64 bits. -/
def size (value : Nat) : Outcome Nat := if value < 2 ^ 64 then .ok value else broken

/-- The largest buffer in bytes: distances inside a buffer are signed 64-bit numbers. -/
def maxBuffer : Nat := 2 ^ 63 - 1

/-- Room for a string of `length` bytes, which has to fit a buffer. -/
def buffer (length : Nat) : Outcome Unit := ensure (length ≤ maxBuffer)

/-- The difference of two sizes, which has to exist. -/
def less (a b : Nat) : Outcome Nat := if b ≤ a then .ok (a - b) else broken

def add32 (a b : UInt32) : Outcome UInt32 :=
  if a.toNat + b.toNat < 2 ^ 32 then .ok (a + b) else broken

def sub32 (a b : UInt32) : Outcome UInt32 := if b ≤ a then .ok (a - b) else broken

/-- A 32-bit word shifted to the left; bits may leave at the top. -/
def shl32 (a : UInt32) (amount : Nat) : Outcome UInt32 :=
  if amount < 32 then .ok (a <<< UInt32.ofNat amount) else broken

def shr32 (a : UInt32) (amount : Nat) : Outcome UInt32 :=
  if amount < 32 then .ok (a >>> UInt32.ofNat amount) else broken

def add64 (a b : UInt64) : Outcome UInt64 :=
  if a.toNat + b.toNat < 2 ^ 64 then .ok (a + b) else broken

/-- A 64-bit word shifted to the left; bits may leave at the top. -/
def shl64 (a : UInt64) (amount : Nat) : Outcome UInt64 :=
  if amount < 64 then .ok (a <<< UInt64.ofNat amount) else broken

def shr64 (a : UInt64) (amount : Nat) : Outcome UInt64 :=
  if amount < 64 then .ok (a >>> UInt64.ofNat amount) else broken

/-- A string cut in two at a position inside it. -/
def cut (position : Nat) (bytes : Bytes) : Outcome (Bytes × Bytes) :=
  if position ≤ bytes.length then .ok (bytes.take position, bytes.drop position) else broken

/-- The string, which has to have exactly `length` bytes. -/
def exactly (length : Nat) (bytes : Bytes) : Outcome Bytes :=
  if bytes.length = length then .ok bytes else broken

end Outcome

end HashSignature
