/-
# HashSignature.ParameterSet — the twelve named parameter sets

Each set has a canonical name such as `SLH-DSA-SHA2-128s`. Reading a name forgives white space at
its ends, the case of ASCII letters and a missing `SLH-DSA-`; writing is always canonical.
-/
import HashSignature.Params
import HashSignature.Text.Blank

namespace HashSignature

set_option autoImplicit false

/-- A named parameter set: its hash family, its category, and `s` for small signatures or `f` for
fast signing. -/
inductive ParameterSet where
  | sha2_128s | shake128s | sha2_128f | shake128f
  | sha2_192s | shake192s | sha2_192f | shake192f
  | sha2_256s | shake256s | sha2_256f | shake256f
deriving DecidableEq, Repr

namespace ParameterSet

/-- All sets in the order of their table. -/
def all : List ParameterSet :=
  [sha2_128s, shake128s, sha2_128f, shake128f,
   sha2_192s, shake192s, sha2_192f, shake192f,
   sha2_256s, shake256s, sha2_256f, shake256f]

/-- The set to take where none is named. -/
def default : ParameterSet := shake128f

def family : ParameterSet → HashFamily
  | sha2_128s | sha2_128f | sha2_192s | sha2_192f | sha2_256s | sha2_256f => .sha2
  | shake128s | shake128f | shake192s | shake192f | shake256s | shake256f => .shake

def params (set : ParameterSet) : Params :=
  match set with
  | sha2_128s | shake128s => .ofBase set.family 16 63 7 12 14
  | sha2_128f | shake128f => .ofBase set.family 16 66 22 6 33
  | sha2_192s | shake192s => .ofBase set.family 24 63 7 14 17
  | sha2_192f | shake192f => .ofBase set.family 24 66 22 8 33
  | sha2_256s | shake256s => .ofBase set.family 32 64 8 14 22
  | sha2_256f | shake256f => .ofBase set.family 32 68 17 9 35

/-- The security category: 1, 3 or 5. -/
def securityLevel (set : ParameterSet) : Nat :=
  if set.params.n = 16 then 1 else if set.params.n = 24 then 3 else 5

def isFast : ParameterSet → Bool
  | sha2_128f | shake128f | sha2_192f | shake192f | sha2_256f | shake256f => true
  | sha2_128s | shake128s | sha2_192s | shake192s | sha2_256s | shake256s => false

def isSmall (set : ParameterSet) : Bool := !set.isFast

def name : ParameterSet → String
  | sha2_128s => "SLH-DSA-SHA2-128s"
  | shake128s => "SLH-DSA-SHAKE-128s"
  | sha2_128f => "SLH-DSA-SHA2-128f"
  | shake128f => "SLH-DSA-SHAKE-128f"
  | sha2_192s => "SLH-DSA-SHA2-192s"
  | shake192s => "SLH-DSA-SHAKE-192s"
  | sha2_192f => "SLH-DSA-SHA2-192f"
  | shake192f => "SLH-DSA-SHAKE-192f"
  | sha2_256s => "SLH-DSA-SHA2-256s"
  | shake256s => "SLH-DSA-SHAKE-256s"
  | sha2_256f => "SLH-DSA-SHA2-256f"
  | shake256f => "SLH-DSA-SHAKE-256f"

/-- The name in a JSON text: the canonical one in lower case. -/
def key (set : ParameterSet) : String := String.ofList (Text.lowerAscii set.name.toList)

/-- What may be left out of a name, in lower case. -/
def scheme : List Char := "slh-dsa-".toList

/-- A name as it is compared: trimmed, in lower case, without the scheme. -/
def bareName (text : List Char) : List Char :=
  let lowered := Text.lowerAscii (Text.trim text)
  (scheme.isPrefixOf? lowered).getD lowered

/-- The set that a text names. -/
def ofName? (text : String) : Option ParameterSet :=
  all.find? fun set =>
    scheme.isPrefixOf? (Text.lowerAscii set.name.toList) == some (bareName text.toList)

/-- The set that a text names; any other text is refused with the text as it came. -/
def parse (text : String) : Outcome ParameterSet :=
  match ofName? text with
  | some set => .ok set
  | none => Outcome.refuse (.invalidParameters (.unknownSet text))

end ParameterSet

end HashSignature
