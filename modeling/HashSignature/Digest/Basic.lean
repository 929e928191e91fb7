/-
# HashSignature.Digest.Basic — digest functions with their widths

The keyed digest and the mask generation are built over any digest function that takes its input in
blocks and returns a fixed number of bytes.
-/
import HashSignature.Bytes

namespace HashSignature

set_option autoImplicit false

/-- A digest function: the size of its input blocks, the size of its output, and the function. -/
structure Digest where
  /-- Bytes of an input block. -/
  blockSize : Nat
  /-- Bytes of the output. -/
  width : Nat
  /-- A digest has at least one byte. -/
  width_pos : 0 < width
  /-- The digest of a message. -/
  hash : Bytes → Bytes
  /-- Every digest has the stated width. -/
  length_hash : ∀ message, (hash message).length = width

end HashSignature
