/-
# HashSignature.Text.Quoted — text and characters as messages quote them

A quoted text stands between double quotes, a quoted character between single quotes. Inside, the
backslash and the quote in use are escaped, the common control characters have short escapes, and
every other hidden character is written by its code point in hexadecimal.
-/
import HashSignature.Text.Printable

namespace HashSignature.Text

set_option autoImplicit false

/-- The form of one character between two `quote` characters. -/
def escape (quote c : Char) : List Char :=
  if c = '\x00' then ['\\', '0']
  else if c = '\t' then ['\\', 't']
  else if c = '\r' then ['\\', 'r']
  else if c = '\n' then ['\\', 'n']
  else if c = '\\' ∨ c = quote then ['\\', c]
  else if isPrintable c then [c]
  else ['\\', 'u', '\x7b'] ++ Nat.toDigits 16 c.toNat ++ ['\x7d']

/-- A text between double quotes. -/
def quote (text : String) : String :=
  String.ofList ('"' :: text.toList.flatMap (escape '"') ++ ['"'])

/-- A character between single quotes. -/
def quoteChar (c : Char) : String := String.ofList ('\'' :: escape '\'' c ++ ['\''])

end HashSignature.Text
