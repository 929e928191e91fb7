/-
# HashSignature.Key.Public — public keys

A public key is the public seed and the public root. Its encoding is the one behind the other, as
bytes or as hexadecimal text. Verification answers yes or no; whatever is malformed is a no.
-/
import HashSignature.Message.Framed
import HashSignature.Signing
import HashSignature.Slot

namespace HashSignature

set_option autoImplicit false

structure PublicKey where
  params : Params
  seed : Slot
  root : Slot
deriving DecidableEq

namespace PublicKey

open Outcome

def seedBytes (key : PublicKey) : Bytes := key.seed.front key.params.n.toNat

def rootBytes (key : PublicKey) : Bytes := key.root.front key.params.n.toNat

/-! ## Encoding -/

/-- Decodes a public key of `2n` bytes. -/
def ofBytes (p : Params) (bytes : Bytes) : Outcome PublicKey := do
  p.check
  let n := p.n.toNat
  let expected ← p.publicKeySize
  if bytes.length = expected then do
    let seed ← Slot.ofPart "public seed" n (bytes.take n)
    let root ← Slot.ofPart "public root" n (bytes.drop n)
    return ⟨p, seed, root⟩
  else refuse (.invalidLength "public key" expected bytes.length)

/-- Decodes a public key written as hexadecimal text; the text is read before anything else. -/
def ofHex (p : Params) (text : String) : Outcome PublicKey :=
  match Bytes.ofHex text with
  | .ok bytes => ofBytes p bytes
  | .error reason => refuse (.invalidKey (.notHex reason))

def toBytes (key : PublicKey) : Bytes := key.seedBytes ++ key.rootBytes

def toHex (key : PublicKey) : String := Bytes.toHex key.toBytes

/-- Whether two public keys belong to the same instance and have the same encoding. -/
def same (key other : PublicKey) : Bool :=
  key.params = other.params && key.toBytes == other.toBytes

/-- A public key as shown: the digest size and the root. -/
def describe (key : PublicKey) : String :=
  s!"PublicKey \x7b n: {key.params.n}, root: " ++ Text.quote (Bytes.toHex key.rootBytes) ++ " \x7d"

/-! ## Verification -/

/-- Whether a signature of a prepared message is valid. -/
def verifyPrepared (key : PublicKey) (message signature : Bytes) : Outcome Bool :=
  Signing.verify key.params key.seedBytes key.rootBytes message signature

/-- Whether a signature of a message bound to a context is valid; with too long a context none is.
-/
def verify (key : PublicKey) (message context signature : Bytes) : Outcome Bool :=
  match frame context message with
  | .ok framed => key.verifyPrepared framed signature
  | .error (.fault _) => .ok false
  | .error .broken => broken

/-- Whether a signature of a message without context is valid. -/
def verifyBare (key : PublicKey) (message signature : Bytes) : Outcome Bool :=
  key.verifyPrepared message signature

end PublicKey

end HashSignature
