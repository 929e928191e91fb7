/-
# HashSignature.Fault — what the library reports when it refuses an input

A fault is a cause with the values that a caller needs to see. Its wording is in one place:
`Fault.message` is the sentence for a reader, `Fault.describe` the cause with its values spelled
out. A cause that another party words itself is kept as `stated` text.
-/
import HashSignature.Bytes.Hex
import HashSignature.Text.Quoted

namespace HashSignature

set_option autoImplicit false

/-- Why a parameter set is refused. -/
inductive ParameterFault where
  /-- The digest size is none of the three supported ones. -/
  | digestSize (n : Nat)
  /-- The total height does not split into the given number of layers. -/
  | totalHeight (h d : Nat)
  /-- One layer is too high. -/
  | layerHeight (height : Nat)
  /-- Naming a tree of layer 0 takes too many bits. -/
  | treeBits (bits : Nat)
  /-- The forest has trees that are too high, or no trees. -/
  | forestShape (a k : Nat)
  /-- The forest has too many leaves for the index field of an address. -/
  | forestLeaves (k a : Nat)
  /-- The message digest is too long. -/
  | messageDigest (m : Nat)
  /-- The derived sizes are not those of the base parameters. -/
  | derivedSizes
  /-- No parameter set has the given name. -/
  | unknownSet (name : String)
  /-- More random bytes are asked for than one seed has. -/
  | seedTooLong (n : Nat)
  /-- A cause given in words. -/
  | stated (text : String)
deriving DecidableEq, Repr

namespace ParameterFault

def text : ParameterFault → String
  | digestSize n => s!"n must be 16, 24 or 32, got {n}"
  | totalHeight h d => s!"h ({h}) must be a positive multiple of d ({d})"
  | layerHeight height => s!"layer height {height} exceeds 20"
  | treeBits bits => s!"tree address needs {bits} bits, at most 64 are available"
  | forestShape a k => s!"FORS needs 1 <= a <= 24 and k >= 1, got a={a}, k={k}"
  | forestLeaves k a => s!"k * 2^a overflows the tree index field (k={k}, a={a})"
  | messageDigest m => s!"digest length {m} exceeds 64 bytes"
  | derivedSizes => "derived sizes do not match the base parameters"
  | unknownSet name => "unknown parameter set " ++ Text.quote name
  | seedTooLong n => s!"n must be at most 32, got {n}"
  | stated text => text

end ParameterFault

/-- Why a random source gave no bytes. -/
inductive DrawFault where
  /-- A request for `count` bytes failed with the source's own explanation. -/
  | unavailable (count : Nat) (explanation : String)
  /-- A cause given in words. -/
  | stated (text : String)
deriving DecidableEq, Repr

def DrawFault.text : DrawFault → String
  | unavailable count explanation => s!"failed to read {count} random bytes: {explanation}"
  | stated text => text

def HexFault.text : HexFault → String
  | oddLength => "Odd number of digits"
  | notDigit byte offset =>
    "Invalid character " ++ Text.quoteChar (Char.ofNat byte.toNat) ++ s!" at position {offset}"

/-- Why an encoded key is malformed. -/
inductive KeyFault where
  /-- Its text is not hexadecimal. -/
  | notHex (reason : HexFault)
  /-- A cause given in words. -/
  | stated (text : String)
deriving DecidableEq, Repr

def KeyFault.text : KeyFault → String
  | notHex reason => "Hex decode error: " ++ reason.text
  | stated text => text

/-- What the library reports when it refuses an input. -/
inductive Fault where
  /-- The parameter set is unsupported or inconsistent. -/
  | invalidParameters (reason : ParameterFault)
  /-- An input has the wrong number of bytes. -/
  | invalidLength (what : String) (expected actual : Nat)
  /-- The context has more than 255 bytes. -/
  | contextTooLong (length : Nat)
  /-- A tree is too high, or a node lies outside it. -/
  | invalidTree (height : UInt32) (index : UInt64)
  /-- A hash function could not be keyed or fed. -/
  | hash (text : String)
  /-- The random source gave no bytes. -/
  | randomGenerationFailed (reason : DrawFault)
  /-- An encoded key is malformed. -/
  | invalidKey (reason : KeyFault)
deriving DecidableEq, Repr

namespace Fault

/-- The sentence that reports a fault. -/
def message : Fault → String
  | invalidParameters reason => "invalid SLH-DSA parameter: " ++ reason.text
  | invalidLength what expected actual =>
    "invalid " ++ what ++ s!" length: expected {expected}, got {actual}"
  | contextTooLong length => s!"context is larger than 255 bytes: {length}"
  | invalidTree height index =>
    s!"invalid tree height or tree index: height {height}, index {index}"
  | hash text => "failed to write to a hash function: " ++ text
  | randomGenerationFailed reason => "random generation failed: " ++ reason.text
  | invalidKey reason => "invalid key: " ++ reason.text

def name : Fault → String
  | invalidParameters _ => "InvalidParameters"
  | invalidLength _ _ _ => "InvalidLength"
  | contextTooLong _ => "ContextTooLong"
  | invalidTree _ _ => "InvalidTree"
  | hash _ => "Hash"
  | randomGenerationFailed _ => "RandomGenerationFailed"
  | invalidKey _ => "InvalidKey"

/-- A cause in words, quoted, behind the name of its kind. -/
def describeText (name text : String) : String := name ++ "(" ++ Text.quote text ++ ")"

/-- The cause's name with all its values, texts quoted. -/
def describe (fault : Fault) : String :=
  match fault with
  | invalidParameters reason => describeText fault.name reason.text
  | invalidLength what expected actual =>
    fault.name ++ " \x7b what: " ++ Text.quote what ++
      s!", expected: {expected}, actual: {actual} \x7d"
  | contextTooLong length => fault.name ++ s!"({length})"
  | invalidTree height index => fault.name ++ s!" \x7b height: {height}, index: {index} \x7d"
  | hash text => describeText fault.name text
  | randomGenerationFailed reason => describeText fault.name reason.text
  | invalidKey reason => describeText fault.name reason.text

end Fault

end HashSignature
