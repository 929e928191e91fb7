/-
# HashSignature.Json.Basic — JSON values and their texts

A value keeps what the grammar fixes and no more: a number stays the literal it was written as,
and a string whose escapes do not spell out a text, because half of a surrogate pair is missing,
is a string without a value. So a reader can skip such a string and refuse it only where its value
is needed.
-/
import HashSignature.Bytes

namespace HashSignature

set_option autoImplicit false

/-- A JSON value as it was written. -/
inductive Json where
  | null
  | bool (value : Bool)
  /-- A number with its literal. -/
  | number (literal : List Char)
  /-- A string with its value, if its escapes spell out one. -/
  | text (value? : Option String)
  | list (items : List Json)
  /-- A record with all its fields in order, also those of equal name. -/
  | record (fields : List (Option String × Json))

namespace Json

/-! ## Strings -/

/-- A piece of a string: a character, or a 16-bit unit that was written by its number. -/
inductive Piece where
  | char (c : Char)
  | unit (code : Nat)

def hexValue? (c : Char) : Option Nat :=
  let n := c.toNat
  if 48 ≤ n ∧ n ≤ 57 then some (n - 48)
  else if 97 ≤ n ∧ n ≤ 102 then some (n - 87)
  else if 65 ≤ n ∧ n ≤ 70 then some (n - 55)
  else none

/-- The character that a one-letter escape stands for. -/
def escaped? : Char → Option Char
  | '"' => some '"'
  | '\\' => some '\\'
  | '/' => some '/'
  | 'b' => some '\x08'
  | 'f' => some '\x0c'
  | 'n' => some '\n'
  | 'r' => some '\r'
  | 't' => some '\t'
  | _ => none

/-- Reads the pieces of a string up to its closing quote. -/
def readPieces : List Char → Option (List Piece × List Char)
  | [] => none
  | '"' :: rest => some ([], rest)
  | '\\' :: 'u' :: a :: b :: c :: d :: rest => do
    let code := 4096 * (← hexValue? a) + 256 * (← hexValue? b) + 16 * (← hexValue? c) +
      (← hexValue? d)
    let (pieces, rest) ← readPieces rest
    return (.unit code :: pieces, rest)
  | '\\' :: letter :: rest => do
    let c ← escaped? letter
    let (pieces, rest) ← readPieces rest
    return (.char c :: pieces, rest)
  | c :: rest =>
    if c.toNat < 32 ∨ c = '\\' then none
    else do
      let (pieces, rest) ← readPieces rest
      return (.char c :: pieces, rest)

/-- The text that pieces spell out; the two halves of a surrogate pair have to stand together. -/
def spell? : List Piece → Option (List Char)
  | [] => some []
  | .char c :: rest => (spell? rest).map (c :: ·)
  | .unit high :: .unit low :: rest =>
    if 0xd800 ≤ high ∧ high ≤ 0xdbff then
      if 0xdc00 ≤ low ∧ low ≤ 0xdfff then
        (spell? rest).map (Char.ofNat (0x10000 + 1024 * (high - 0xd800) + (low - 0xdc00)) :: ·)
      else none
    else if 0xdc00 ≤ high ∧ high ≤ 0xdfff then none
    else (spell? (.unit low :: rest)).map (Char.ofNat high :: ·)
  | .unit code :: rest =>
    if 0xd800 ≤ code ∧ code ≤ 0xdfff then none else (spell? rest).map (Char.ofNat code :: ·)

/-- Reads a string behind its opening quote. -/
def readText (chars : List Char) : Option (Option String × List Char) := do
  let (pieces, rest) ← readPieces chars
  return ((spell? pieces).map String.ofList, rest)

/-! ## Numbers -/

def readDigits (chars : List Char) : Option (List Char × List Char) :=
  match chars.takeWhile Char.isDigit with
  | [] => none
  | digits => some (digits, chars.dropWhile Char.isDigit)

/-- Reads an integer without sign: a zero, or digits that do not begin with one. -/
def readWhole : List Char → Option (List Char × List Char)
  | '0' :: rest => some (['0'], rest)
  | chars => readDigits chars

/-- Reads what may follow an integer after a point. -/
def readFraction : List Char → Option (List Char × List Char)
  | '.' :: rest => do
    let (digits, rest) ← readDigits rest
    return ('.' :: digits, rest)
  | chars => some ([], chars)

def readSign : List Char → List Char × List Char
  | '+' :: rest => (['+'], rest)
  | '-' :: rest => (['-'], rest)
  | chars => ([], chars)

/-- Reads what may follow as an exponent. -/
def readExponent : List Char → Option (List Char × List Char)
  | 'e' :: rest | 'E' :: rest => do
    let (sign, rest) := readSign rest
    let (digits, rest) ← readDigits rest
    return ('e' :: sign ++ digits, rest)
  | chars => some ([], chars)

def readNumber (chars : List Char) : Option (List Char × List Char) := do
  let (sign, rest) := match chars with
    | '-' :: rest => (['-'], rest)
    | _ => ([], chars)
  let (whole, rest) ← readWhole rest
  let (fraction, rest) ← readFraction rest
  let (exponent, rest) ← readExponent rest
  return (sign ++ whole ++ fraction ++ exponent, rest)

/-! ## Values -/

/-- Leaves out the white space at the front: spaces, tabs and line ends. -/
def skipBlank (chars : List Char) : List Char :=
  chars.dropWhile fun c => c = ' ' || c = '\t' || c = '\n' || c = '\r'

/-- Reads one of the values that are words, or a number. -/
def readScalar (chars : List Char) : Option (Json × List Char) :=
  match "null".toList.isPrefixOf? chars, "true".toList.isPrefixOf? chars,
      "false".toList.isPrefixOf? chars with
  | some rest, _, _ => some (.null, rest)
  | _, some rest, _ => some (.bool true, rest)
  | _, _, some rest => some (.bool false, rest)
  | none, none, none => (readNumber chars).map fun (literal, rest) => (.number literal, rest)

mutual

/-- Reads a value, with white space in front of it, in at most `fuel` nested calls. -/
def readValue : (fuel : Nat) → List Char → Option (Json × List Char)
  | 0, _ => none
  | fuel + 1, chars =>
    match skipBlank chars with
    | '"' :: rest => (readText rest).map fun (value?, rest) => (.text value?, rest)
    | '[' :: rest =>
      match skipBlank rest with
      | ']' :: rest => some (.list [], rest)
      | rest => (readItems fuel rest).map fun (items, rest) => (.list items, rest)
    | '{' :: rest =>
      match skipBlank rest with
      | '}' :: rest => some (.record [], rest)
      | rest => (readFields fuel rest).map fun (fields, rest) => (.record fields, rest)
    | chars => readScalar chars

/-- Reads the items of a list from one of them on, up to the closing bracket. -/
def readItems : (fuel : Nat) → List Char → Option (List Json × List Char)
  | 0, _ => none
  | fuel + 1, chars => do
    let (item, rest) ← readValue fuel chars
    match skipBlank rest with
    | ',' :: rest =>
      let (items, rest) ← readItems fuel rest
      return (item :: items, rest)
    | ']' :: rest => return ([item], rest)
    | _ => none

/-- Reads the fields of a record from one of them on, up to the closing brace. -/
def readFields : (fuel : Nat) → List Char → Option (List (Option String × Json) × List Char)
  | 0, _ => none
  | fuel + 1, chars => do
    let '"' :: rest := skipBlank chars | none
    let (name?, rest) ← readText rest
    let ':' :: rest := skipBlank rest | none
    let (value, rest) ← readValue fuel rest
    match skipBlank rest with
    | ',' :: rest =>
      let (fields, rest) ← readFields fuel rest
      return ((name?, value) :: fields, rest)
    | '}' :: rest => return ([(name?, value)], rest)
    | _ => none

end

/-- Reads a text that holds one value and white space around it. -/
def read? (text : String) : Option Json := do
  let chars := text.toList
  let (value, rest) ← readValue (2 * chars.length + 2) chars
  if skipBlank rest = [] then return value else none

/-! ## Views -/

/-- The value of a literal that is digits only and fits 64 bits. -/
def word64? : Json → Option UInt64
  | .number literal =>
    if literal.all Char.isDigit then
      let value := literal.foldl (fun value c => 10 * value + (c.toNat - 48)) 0
      if value < 2 ^ 64 then some (UInt64.ofNat value) else none
    else none
  | _ => none

/-- The name of a choice without data: a string, or a record whose only field is null. -/
def choice? : Json → Option String
  | .text value? => value?
  | .record [(name?, .null)] => name?
  | _ => none

/-- The value of a field that occurs exactly once. -/
def field? (fields : List (Option String × Json)) (name : String) : Option Json :=
  match fields.filter fun field => field.1 == some name with
  | [(_, value)] => some value
  | _ => none

end Json

end HashSignature
