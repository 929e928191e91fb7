/-
# HashSignature.Bytes.Hex — byte strings written as hexadecimal text

Writing uses lower-case digits. Reading takes either case and looks at the text as UTF-8: an odd
number of bytes is reported before any digit is looked at, and a byte that is no digit is reported
with its byte offset, the leftmost one first.
-/
import HashSignature.Bytes

namespace HashSignature

set_option autoImplicit false

/-- Why a text is not the hexadecimal form of a byte string. -/
inductive HexFault where
  /-- The text has an odd number of bytes. -/
  | oddLength
  /-- A byte of the text, at this offset, is not a hexadecimal digit. -/
  | notDigit (byte : UInt8) (offset : Nat)
deriving DecidableEq, Repr

namespace Bytes

/-- The lower-case digit of a value below 16. -/
def hexDigit (value : Nat) : Char :=
  if value < 10 then Char.ofNat (48 + value) else Char.ofNat (87 + value)

/-- Two lower-case digits for each byte, high half first. -/
def hexChars (bytes : Bytes) : List Char :=
  bytes.flatMap fun b => [hexDigit (b.toNat / 16), hexDigit (b.toNat % 16)]

def toHex (bytes : Bytes) : String := String.ofList (hexChars bytes)

/-- The value of a hexadecimal digit of either case, given as an ASCII code. -/
def hexValue? (code : UInt8) : Option UInt8 :=
  if 48 ≤ code ∧ code ≤ 57 then some (code - 48)
  else if 97 ≤ code ∧ code ≤ 102 then some (code - 87)
  else if 65 ≤ code ∧ code ≤ 70 then some (code - 55)
  else none

/-- Reads pairs of digits; `offset` counts the bytes read so far. -/
def ofHexPairs (offset : Nat) : Bytes → Except HexFault Bytes
  | [] => .ok []
  | [_] => .error .oddLength
  | high :: low :: rest =>
    match hexValue? high, hexValue? low with
    | none, _ => .error (.notDigit high offset)
    | some _, none => .error (.notDigit low (offset + 1))
    | some h, some l => (ofHexPairs (offset + 2) rest).map ((16 * h + l) :: ·)

/-- The bytes whose hexadecimal form is given as UTF-8. -/
def ofHexUtf8 (text : Bytes) : Except HexFault Bytes :=
  if text.length % 2 = 1 then .error .oddLength else ofHexPairs 0 text

def ofHex (text : String) : Except HexFault Bytes := ofHexUtf8 text.toUTF8.toList

end Bytes

end HashSignature
