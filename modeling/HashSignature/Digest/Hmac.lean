/-
# HashSignature.Digest.Hmac — a digest under a secret key

The key is brought to one input block, hashed first if it is longer, and mixed with one constant
before an inner digest of the message and with another before an outer digest of the inner one.
Every key is accepted.
-/
import HashSignature.Digest.Basic

namespace HashSignature.Digest

set_option autoImplicit false

/-- The key as one input block. -/
def keyBlock (D : Digest) (key : Bytes) : Bytes :=
  Bytes.padTo D.blockSize (if D.blockSize < key.length then D.hash key else key)

def mix (constant : UInt8) (bytes : Bytes) : Bytes := bytes.map (· ^^^ constant)

def hmac (D : Digest) (key message : Bytes) : Bytes :=
  let block := D.keyBlock key
  D.hash (mix 0x5c block ++ D.hash (mix 0x36 block ++ message))

@[simp] theorem length_hmac (D : Digest) (key message : Bytes) :
    (D.hmac key message).length = D.width := D.length_hash _

end HashSignature.Digest
