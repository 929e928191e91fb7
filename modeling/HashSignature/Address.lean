/-
# HashSignature.Address — the 32-byte tag of every hash call

No two hash calls of different purpose may see the same input, so each call is tagged with where
it stands: layer, tree, kind of call, and three words whose meaning depends on the kind. The tag
is kept as the 32 bytes that are hashed; a setter writes its field big-endian at a fixed place.

```text
0..4 layer   4..8 zero   8..16 tree   16..20 kind   20..24 key pair
24..28 chain, or height of a node       28..32 step of a chain, or index of a node
```

The short form drops the bytes that stay zero in use: 22 of the 32 remain.
-/
import HashSignature.Bytes

namespace HashSignature

set_option autoImplicit false

/-- The kind of a hash call. -/
inductive AddressType where
  /-- A step of a one-time chain. -/
  | wotsHash
  /-- The compression of the ends of all chains. -/
  | wotsPk
  /-- An inner node of a layer's tree. -/
  | tree
  /-- A leaf or node of a tree of the forest. -/
  | forsTree
  /-- The compression of the roots of the forest. -/
  | forsRoots
  /-- The secret start of a one-time chain. -/
  | wotsPrf
  /-- A secret leaf of the forest. -/
  | forsPrf
deriving DecidableEq, Repr

namespace AddressType

/-- The number that stands for the kind in an address. -/
def code : AddressType → Nat
  | wotsHash => 0
  | wotsPk => 1
  | tree => 2
  | forsTree => 3
  | forsRoots => 4
  | wotsPrf => 5
  | forsPrf => 6

/-- The kind that a number stands for. -/
def ofCode? : Nat → Option AddressType
  | 0 => some wotsHash
  | 1 => some wotsPk
  | 2 => some tree
  | 3 => some forsTree
  | 4 => some forsRoots
  | 5 => some wotsPrf
  | 6 => some forsPrf
  | _ => none

def display : AddressType → String
  | wotsHash => "WotsHash"
  | wotsPk => "WotsPk"
  | tree => "Tree"
  | forsTree => "ForsTree"
  | forsRoots => "ForsRoots"
  | wotsPrf => "WotsPrf"
  | forsPrf => "ForsPrf"

@[simp] theorem ofCode?_code (kind : AddressType) : ofCode? kind.code = some kind := by
  cases kind <;> rfl

end AddressType

/-- The tag of a hash call: 32 bytes. -/
structure Address where
  /-- The bytes that are hashed. -/
  bytes : Bytes
  /-- There are always 32 of them. -/
  length_bytes : bytes.length = 32
deriving DecidableEq

namespace Address

def zero : Address := ⟨Bytes.zeros 32, by simp⟩

def put (adrs : Address) (position : Nat) (field : Bytes) : Address :=
  ⟨Bytes.overwrite position field adrs.bytes, by simp [adrs.length_bytes]⟩

/-- The 32-bit word at a position. -/
def word (adrs : Address) (position : Nat) : UInt32 :=
  UInt32.ofNat (Bytes.slice position 4 adrs.bytes).toNat

/-! ## Setters -/

def setLayer (adrs : Address) (layer : UInt32) : Address := adrs.put 0 (.ofNat 4 layer.toNat)

/-- Sets the index of the tree within its layer; the four bytes before it become zero. -/
def setTree (adrs : Address) (tree : UInt64) : Address := adrs.put 4 (.ofNat 12 tree.toNat)

/-- Sets the kind; the three words behind it become zero. -/
def setType (adrs : Address) (kind : AddressType) : Address :=
  adrs.put 16 (Bytes.ofNat 4 kind.code ++ Bytes.zeros 12)

def setKeyPair (adrs : Address) (keyPair : UInt32) : Address := adrs.put 20 (.ofNat 4 keyPair.toNat)

def setChain (adrs : Address) (chain : UInt32) : Address := adrs.put 24 (.ofNat 4 chain.toNat)

def setHash (adrs : Address) (hash : UInt32) : Address := adrs.put 28 (.ofNat 4 hash.toNat)

/-- Sets the height of a node, which shares its place with the chain. -/
def setTreeHeight (adrs : Address) (height : UInt32) : Address :=
  adrs.put 24 (.ofNat 4 height.toNat)

/-- Sets the index of a node, which shares its place with the step. -/
def setTreeIndex (adrs : Address) (index : UInt32) : Address := adrs.put 28 (.ofNat 4 index.toNat)

/-! ## Getters -/

def layer (adrs : Address) : UInt32 := adrs.word 0

/-- The index of the tree within its layer. -/
def tree (adrs : Address) : UInt64 := UInt64.ofNat (Bytes.slice 8 8 adrs.bytes).toNat

/-- The kind, if the bytes hold one. -/
def type? (adrs : Address) : Option AddressType := AddressType.ofCode? (adrs.word 16).toNat

def keyPair (adrs : Address) : UInt32 := adrs.word 20

def chain (adrs : Address) : UInt32 := adrs.word 24

def hash (adrs : Address) : UInt32 := adrs.word 28

def treeHeight (adrs : Address) : UInt32 := adrs.word 24

def treeIndex (adrs : Address) : UInt32 := adrs.word 28

/-! ## Short form -/

/-- The short form: lowest byte of the layer, tree, lowest byte of the kind, and the last words. -/
def compressed (adrs : Address) : Bytes :=
  Bytes.slice 3 1 adrs.bytes ++ Bytes.slice 8 8 adrs.bytes ++ Bytes.slice 19 1 adrs.bytes ++
    Bytes.slice 20 12 adrs.bytes

@[simp] theorem length_compressed (adrs : Address) : adrs.compressed.length = 22 := by
  simp [compressed, Bytes.slice, adrs.length_bytes]

/-! ## Operations by name -/

/-- One change of an address. -/
inductive Update where
  /-- Starts again from the zero address. -/
  | reset
  | layer (value : UInt32)
  | tree (value : UInt64)
  | type (kind : AddressType)
  | keyPair (value : UInt32)
  | chain (value : UInt32)
  | hash (value : UInt32)
  | treeHeight (value : UInt32)
  | treeIndex (value : UInt32)
deriving DecidableEq, Repr

def update (adrs : Address) : Update → Address
  | .reset => zero
  | .layer value => adrs.setLayer value
  | .tree value => adrs.setTree value
  | .type kind => adrs.setType kind
  | .keyPair value => adrs.setKeyPair value
  | .chain value => adrs.setChain value
  | .hash value => adrs.setHash value
  | .treeHeight value => adrs.setTreeHeight value
  | .treeIndex value => adrs.setTreeIndex value

end Address

end HashSignature
