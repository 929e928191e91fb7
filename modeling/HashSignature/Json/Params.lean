/-
# HashSignature.Json.Params — parameters as JSON

A named set is written as a string, parameters as a record with the fields in a fixed order.
Reading takes the fields in any order and skips unknown ones, or takes a list of exactly the
eleven values. It does not check that the sizes belong together; `Params.check` does.
-/
import HashSignature.Json.Basic
import HashSignature.ParameterSet

namespace HashSignature

set_option autoImplicit false

/-- The hash family that a JSON value names. -/
def HashFamily.ofJson? (json : Json) : Option HashFamily :=
  json.choice?.bind fun name => [HashFamily.sha2, .shake].find? fun family => family.key == name

namespace ParameterSet

def toJson (set : ParameterSet) : String := Text.quote set.key

/-- The set that a JSON text names by its lower-case name. -/
def ofJson? (text : String) : Option ParameterSet := do
  let name ← (← Json.read? text).choice?
  all.find? fun set => set.key == name

end ParameterSet

namespace Params

/-- The sizes with their names, in order. -/
def sizes (p : Params) : List (String × UInt64) :=
  [("n", p.n), ("h", p.h), ("d", p.d), ("hp", p.hp), ("a", p.a), ("k", p.k), ("m", p.m),
   ("len1", p.len1), ("len2", p.len2), ("len", p.len)]

def toJson (p : Params) : String :=
  let family := Text.quote "family" ++ ":" ++ Text.quote p.family.key
  let fields := p.sizes.map fun (name, value) => Text.quote name ++ s!":{value}"
  "\x7b" ++ String.intercalate "," (family :: fields) ++ "\x7d"

/-- The values of parameters in order, as a list or as the fields of a record. -/
def values? : Json → Option (List Json)
  | .list items => some items
  | .record fields =>
    if fields.all fun field => field.1.isSome then
      ["family", "n", "h", "d", "hp", "a", "k", "m", "len1", "len2", "len"].mapM
        (Json.field? fields)
    else none
  | _ => none

def ofJson? (text : String) : Option Params := do
  match ← values? (← Json.read? text) with
  | [family, n, h, d, hp, a, k, m, len1, len2, len] =>
    return {
      family := ← HashFamily.ofJson? family
      n := ← n.word64?
      h := ← h.word64?
      d := ← d.word64?
      hp := ← hp.word64?
      a := ← a.word64?
      k := ← k.word64?
      m := ← m.word64?
      len1 := ← len1.word64?
      len2 := ← len2.word64?
      len := ← len.word64? }
  | _ => none

end Params

end HashSignature
