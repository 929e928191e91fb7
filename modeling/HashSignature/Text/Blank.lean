/-
# HashSignature.Text.Blank — white space at the ends of a text

White space is every character with the Unicode property White_Space, not only the ASCII blanks.
-/

namespace HashSignature.Text

set_option autoImplicit false

/-- Whether a character has the property White_Space. -/
def isBlank (c : Char) : Bool :=
  let n := c.toNat
  (9 ≤ n && n ≤ 13) || n == 0x20 || n == 0x85 || n == 0xa0 || n == 0x1680 ||
    (0x2000 ≤ n && n ≤ 0x200a) || n == 0x2028 || n == 0x2029 || n == 0x202f || n == 0x205f ||
    n == 0x3000

/-- The text without the white space at both of its ends. -/
def trim (chars : List Char) : List Char :=
  ((chars.dropWhile isBlank).reverse.dropWhile isBlank).reverse

/-- Upper-case ASCII letters become lower case and all else stays. -/
def lowerAscii (chars : List Char) : List Char := chars.map Char.toLower

end HashSignature.Text
