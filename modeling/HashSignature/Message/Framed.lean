/-
# HashSignature.Message.Framed — a message bound to a context

The framed form of a message is a zero byte, the length of the context in one byte, the context and
the message. The length fits one byte, so a context has at most 255 bytes.
-/
import HashSignature.Outcome

namespace HashSignature

set_option autoImplicit false

/-- The longest context that a message can be bound to. -/
def maxContext : Nat := 255

def frame (context message : Bytes) : Outcome Bytes :=
  if context.length ≤ maxContext then
    .ok ([0, UInt8.ofNat context.length] ++ context ++ message)
  else Outcome.refuse (.contextTooLong context.length)

end HashSignature
