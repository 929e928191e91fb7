/-
# HashSignature.Proofs.Tags — every hash call has a tag of its own

Two of the four functions are the same function underneath, and so are the other two, so only their
tags keep the roles apart. `Place` names the places of the scheme where something is hashed, by
numbers that no machine word bounds. A place has a tag, the numbers that its address should hold, and
a call, which follows from the secret seed.

* `Tag.ReadFrom` — the address holds the numbers of the tag: no word wrapped, and the short form
  cuts nothing off.
* `Place.eq_of_tag_eq` — no two places have one tag. The nodes of all trees of a forest share one
  numbering, and still do not meet.
* `calls_have_own_tags` — key generation and signing make calls of places only, so no two different
  calls are ever made under one short address.
-/
import HashSignature.Proofs.Calls
import HashSignature.Proofs.Fields

namespace HashSignature

set_option autoImplicit false

open Outcome HashProgram

/-! ## Tags -/

/-- The numbers that an address should hold. -/
structure Tag where
  layer : Nat
  tree : Nat
  kind : AddressType
  keyPair : Nat
  high : Nat
  low : Nat

namespace Tag

/-- The numbers fit their words, and the layer fits one byte. -/
structure Fits (tag : Tag) : Prop where
  layer : tag.layer < 256
  tree : tag.tree < 2 ^ 64
  keyPair : tag.keyPair < 2 ^ 32
  high : tag.high < 2 ^ 32
  low : tag.low < 2 ^ 32

/-- The words that the numbers are put into. -/
def fields (tag : Tag) : Address.Fields :=
  ⟨.ofNat tag.layer, .ofNat tag.tree, tag.kind, .ofNat tag.keyPair, .ofNat tag.high,
    .ofNat tag.low⟩

/-- The short form of the numbers. -/
def short (tag : Tag) : Bytes :=
  Bytes.ofNat 1 tag.layer ++ (Bytes.ofNat 8 tag.tree ++ (Bytes.ofNat 1 tag.kind.code ++
    (Bytes.ofNat 4 tag.keyPair ++ (Bytes.ofNat 4 tag.high ++ Bytes.ofNat 4 tag.low))))

/-- An address holds the numbers of a tag, in its fields and in its short form. -/
structure ReadFrom (tag : Tag) (adrs : Address) : Prop where
  layer : adrs.layer.toNat = tag.layer
  tree : adrs.tree.toNat = tag.tree
  kind : adrs.type? = some tag.kind
  keyPair : adrs.keyPair.toNat = tag.keyPair
  high : adrs.chain.toNat = tag.high ∧ adrs.treeHeight.toNat = tag.high
  low : adrs.hash.toNat = tag.low ∧ adrs.treeIndex.toNat = tag.low
  short : adrs.compressed = tag.short

theorem toNat_ofNat32 {number : Nat} (fits : number < 2 ^ 32) :
    (UInt32.ofNat number).toNat = number := by
  rw [UInt32.toNat_ofNat', Nat.mod_eq_of_lt fits]

theorem toNat_ofNat64 {number : Nat} (fits : number < 2 ^ 64) :
    (UInt64.ofNat number).toNat = number := by
  rw [UInt64.toNat_ofNat', Nat.mod_eq_of_lt fits]

variable {tag tag' : Tag}

theorem Fits.layer_lt (fits : tag.Fits) : tag.layer < 2 ^ 32 :=
  Nat.lt_trans fits.layer (by decide)

theorem readFrom_encode (fits : tag.Fits) : tag.ReadFrom tag.fields.encode where
  layer := by rw [Address.Fields.layer_encode, fields, toNat_ofNat32 fits.layer_lt]
  tree := by rw [Address.Fields.tree_encode, fields, toNat_ofNat64 fits.tree]
  kind := Address.Fields.type?_encode _
  keyPair := by rw [Address.Fields.keyPair_encode, fields, toNat_ofNat32 fits.keyPair]
  high := by
    rw [Address.Fields.chain_encode, Address.Fields.treeHeight_encode, fields,
      toNat_ofNat32 fits.high]
    exact ⟨rfl, rfl⟩
  low := by
    rw [Address.Fields.hash_encode, Address.Fields.treeIndex_encode, fields,
      toNat_ofNat32 fits.low]
    exact ⟨rfl, rfl⟩
  short := by
    rw [Address.Fields.compressed_encode, Address.Fields.short, fields, short,
      toNat_ofNat32 fits.layer_lt, toNat_ofNat64 fits.tree, toNat_ofNat32 fits.keyPair,
      toNat_ofNat32 fits.high, toNat_ofNat32 fits.low]

/-- Tags that fit are told apart by their short forms. -/
theorem eq_of_compressed_eq {adrs adrs' : Address} (fits : tag.Fits) (fits' : tag'.Fits)
    (reads : adrs = tag.fields.encode) (reads' : adrs' = tag'.fields.encode)
    (same : adrs.compressed = adrs'.compressed) : tag = tag' := by
  have one_byte : tag.fields.layer.toNat < 256 := by
    rw [fields, toNat_ofNat32 fits.layer_lt]; exact fits.layer
  have one_byte' : tag'.fields.layer.toNat < 256 := by
    rw [fields, toNat_ofNat32 fits'.layer_lt]; exact fits'.layer
  have words : tag.fields = tag'.fields :=
    Address.Fields.eq_of_compressed_eq one_byte one_byte' (reads ▸ reads' ▸ same)
  have here := readFrom_encode fits
  have there := readFrom_encode fits'
  rw [words] at here
  cases tag with
  | mk layer tree kind keyPair high low =>
      cases tag' with
      | mk layer' tree' kind' keyPair' high' low' =>
          obtain rfl : layer = layer' := here.layer.symm.trans there.layer
          obtain rfl : tree = tree' := here.tree.symm.trans there.tree
          obtain rfl : kind = kind' := Option.some.inj (here.kind.symm.trans there.kind)
          obtain rfl : keyPair = keyPair' := here.keyPair.symm.trans there.keyPair
          obtain rfl : high = high' := here.high.1.symm.trans there.high.1
          obtain rfl : low = low' := here.low.1.symm.trans there.low.1
          rfl

end Tag

/-! ## Places -/

/-- Where in the scheme something is hashed. The nodes above the leaves are counted by the level
below them, and the trees of a forest one by one. -/
inductive Place where
  /-- The secret at the start of a chain. -/
  | chainSecret (layer tree keyPair chain : Nat)
  /-- A step of a chain. -/
  | chainStep (layer tree keyPair chain step : Nat)
  /-- The compression of the ends of all chains. -/
  | oneTimeKey (layer tree keyPair : Nat)
  /-- A node of a layer's tree. -/
  | node (layer tree level index : Nat)
  /-- The secret behind a leaf of a forest. -/
  | forestSecret (tree leaf forestTree index : Nat)
  /-- A leaf of a forest. -/
  | forestLeaf (tree leaf forestTree index : Nat)
  /-- A node of a tree of a forest. -/
  | forestNode (tree leaf forestTree level index : Nat)
  /-- The compression of the roots of a forest. -/
  | forestKey (tree leaf : Nat)

namespace Place

variable {H : TweakableHash} {p : Params}

/-- A layer has a tree. -/
def HasTree (p : Params) (layer tree : Nat) : Prop :=
  layer < p.d.toNat ∧ tree < 2 ^ ((p.d.toNat - 1 - layer) * p.hp.toNat)

/-- The place exists in an instance. -/
def Legal (p : Params) : Place → Prop
  | chainSecret layer tree keyPair chain =>
    HasTree p layer tree ∧ keyPair < 2 ^ p.hp.toNat ∧ chain < p.len.toNat
  | chainStep layer tree keyPair chain step =>
    HasTree p layer tree ∧ keyPair < 2 ^ p.hp.toNat ∧ chain < p.len.toNat ∧ step < 15
  | oneTimeKey layer tree keyPair => HasTree p layer tree ∧ keyPair < 2 ^ p.hp.toNat
  | node layer tree level index =>
    HasTree p layer tree ∧ level < p.hp.toNat ∧ index < 2 ^ (p.hp.toNat - (level + 1))
  | forestSecret tree leaf forestTree index
  | forestLeaf tree leaf forestTree index =>
    HasTree p 0 tree ∧ leaf < 2 ^ p.hp.toNat ∧ forestTree < p.k.toNat ∧ index < 2 ^ p.a.toNat
  | forestNode tree leaf forestTree level index =>
    HasTree p 0 tree ∧ leaf < 2 ^ p.hp.toNat ∧ forestTree < p.k.toNat ∧
      level < p.a.toNat ∧ index < 2 ^ (p.a.toNat - (level + 1))
  | forestKey tree leaf => HasTree p 0 tree ∧ leaf < 2 ^ p.hp.toNat

/-- The tag of a place. -/
def tag (p : Params) : Place → Tag
  | chainSecret layer tree keyPair chain => ⟨layer, tree, .wotsPrf, keyPair, chain, 0⟩
  | chainStep layer tree keyPair chain step => ⟨layer, tree, .wotsHash, keyPair, chain, step⟩
  | oneTimeKey layer tree keyPair => ⟨layer, tree, .wotsPk, keyPair, 0, 0⟩
  | node layer tree level index => ⟨layer, tree, .tree, 0, level + 1, index⟩
  | forestSecret tree leaf forestTree index =>
    ⟨0, tree, .forsPrf, leaf, 0, Forest.firstLeaf p forestTree + index⟩
  | forestLeaf tree leaf forestTree index =>
    ⟨0, tree, .forsTree, leaf, 0, Forest.firstLeaf p forestTree + index⟩
  | forestNode tree leaf forestTree level index =>
    ⟨0, tree, .forsTree, leaf, level + 1,
      Forest.firstLeaf p forestTree / 2 ^ (level + 1) + index⟩
  | forestKey tree leaf => ⟨0, tree, .forsRoots, leaf, 0, 0⟩

/-- The address of a tree of a layer, and that of a forest. -/
def treeAddress (layer tree : Nat) : Address :=
  Layer.address (UInt32.ofNat layer) (UInt64.ofNat tree)

def keyAddress (layer tree keyPair : Nat) : Address :=
  Layer.keyAddress (treeAddress layer tree) (UInt32.ofNat keyPair)

def forestAddress (tree leaf : Nat) : Address :=
  Signing.forestAddress (UInt64.ofNat tree) (UInt32.ofNat leaf)

/-- The call of a place. -/
def call (H : TweakableHash) (p : Params) (skSeed : Bytes) : Place → HashCall
  | chainSecret layer tree keyPair chain =>
    OneTime.secretCall skSeed (keyAddress layer tree keyPair) chain
  | chainStep layer tree keyPair chain step =>
    OneTime.stepCall H skSeed (keyAddress layer tree keyPair) chain step
  | oneTimeKey layer tree keyPair =>
    OneTime.keyCall H p.len.toNat skSeed (keyAddress layer tree keyPair)
  | node layer tree level index =>
    MerkleTree.nodeCall H ((treeAddress layer tree).setType .tree) 0
      (Layer.keyOf H p skSeed (treeAddress layer tree)) level index
  | forestSecret tree leaf forestTree index =>
    Forest.secretCall skSeed (forestAddress tree leaf) (Forest.firstLeaf p forestTree + index)
  | forestLeaf tree leaf forestTree index =>
    Forest.leafCall H skSeed (forestAddress tree leaf) (Forest.firstLeaf p forestTree + index)
  | forestNode tree leaf forestTree level index =>
    Forest.nodeCall H p skSeed (forestAddress tree leaf) forestTree level index
  | forestKey tree leaf => Forest.keyCall H p skSeed (forestAddress tree leaf)

/-! ## The tag of a place is in its address -/

theorem treeAddress_eq (layer tree : Nat) : treeAddress layer tree =
    Address.Fields.encode ⟨.ofNat layer, .ofNat tree, .wotsHash, 0, 0, 0⟩ := by
  simp [treeAddress, Layer.address, ← Address.Fields.encode_none, Address.Fields.none]

theorem keyAddress_eq (layer tree keyPair : Nat) : keyAddress layer tree keyPair =
    Address.Fields.encode ⟨.ofNat layer, .ofNat tree, .wotsHash, .ofNat keyPair, 0, 0⟩ := by
  simp [keyAddress, Layer.keyAddress, treeAddress_eq]

theorem forestAddress_eq (tree leaf : Nat) : forestAddress tree leaf =
    Address.Fields.encode ⟨0, .ofNat tree, .forsTree, .ofNat leaf, 0, 0⟩ := by
  simp [forestAddress, Signing.forestAddress, ← Address.Fields.encode_none, Address.Fields.none]

theorem adrs_call (skSeed : Bytes) (place : Place) :
    (place.call H p skSeed).adrs = (place.tag p).fields.encode := by
  cases place with
  | chainSecret layer tree keyPair chain =>
      simp [call, OneTime.secretCall, HashCall.adrs, OneTime.secretAddress, keyAddress_eq, tag,
        Tag.fields]
  | chainStep layer tree keyPair chain step =>
      simp [call, OneTime.stepCall, HashCall.adrs, keyAddress_eq, tag, Tag.fields]
  | oneTimeKey layer tree keyPair =>
      simp [call, OneTime.keyCall, HashCall.adrs, keyAddress_eq, tag, Tag.fields]
  | node layer tree level index =>
      simp [call, MerkleTree.nodeCall, HashCall.adrs, treeAddress_eq, tag, Tag.fields]
  | forestSecret tree leaf forestTree index =>
      simp [call, Forest.secretCall, HashCall.adrs, Forest.secretAddress, forestAddress_eq, tag,
        Tag.fields]
  | forestLeaf tree leaf forestTree index =>
      simp [call, Forest.leafCall, HashCall.adrs, forestAddress_eq, tag, Tag.fields]
  | forestNode tree leaf forestTree level index =>
      simp [call, Forest.nodeCall, MerkleTree.nodeCall, HashCall.adrs, forestAddress_eq, tag,
        Tag.fields]
  | forestKey tree leaf =>
      simp [call, Forest.keyCall, HashCall.adrs, forestAddress_eq, tag, Tag.fields]

/-! ## No two places have one tag -/

/-- The layer and the number of a tree fit, so a tag with them fits if its other numbers do. -/
theorem HasTree.fits (sound : p.Sound) {layer tree : Nat} (legal : HasTree p layer tree)
    {kind : AddressType} {keyPair high low : Nat} (keyPair_fits : keyPair < 2 ^ 32)
    (high_fits : high < 2 ^ 32) (low_fits : low < 2 ^ 32) :
    Tag.Fits ⟨layer, tree, kind, keyPair, high, low⟩ := by
  obtain ⟨inside, lt⟩ := legal
  have layers := sound.layers_le
  have bits := sound.tree_bits
  rw [sound.tree_bits_eq] at bits
  have fewer : (p.d.toNat - 1 - layer) * p.hp.toNat ≤ (p.d.toNat - 1) * p.hp.toNat :=
    Nat.mul_le_mul_right _ (Nat.sub_le _ _)
  have power : 2 ^ ((p.d.toNat - 1 - layer) * p.hp.toNat) ≤ 2 ^ 64 :=
    Nat.pow_le_pow_right (by decide) (Nat.le_trans fewer bits)
  constructor
  case layer => exact Nat.lt_of_lt_of_le inside (by omega)
  case tree => exact Nat.lt_of_lt_of_le lt power
  case keyPair => exact keyPair_fits
  case high => exact high_fits
  case low => exact low_fits

theorem keyPair_fits (sound : p.Sound) {keyPair : Nat} (lt : keyPair < 2 ^ p.hp.toNat) :
    keyPair < 2 ^ 32 :=
  Nat.lt_of_lt_of_le lt
    (Nat.pow_le_pow_right (by decide) (Nat.le_trans sound.layer_le (by decide)))

theorem forestIndex_fits (sound : p.Sound) {forestTree index : Nat}
    (inside : forestTree < p.k.toNat) (lt : index < 2 ^ p.a.toNat) :
    Forest.firstLeaf p forestTree + index < 2 ^ 32 :=
  Nat.lt_of_lt_of_le (Nat.add_lt_add_left lt _) (Forest.firstLeaf_add_le sound inside)

/-- The trees of a forest also stand side by side on the levels above the leaves. -/
theorem firstLeaf_div {forestTree level : Nat} (below : level < p.a.toNat) :
    Forest.firstLeaf p forestTree / 2 ^ (level + 1) =
      forestTree * 2 ^ (p.a.toNat - (level + 1)) := by
  have split : 2 ^ p.a.toNat = 2 ^ (p.a.toNat - (level + 1)) * 2 ^ (level + 1) := by
    rw [← Nat.pow_add, Nat.sub_add_cancel below]
  rw [Forest.firstLeaf, split, ← Nat.mul_assoc, Nat.mul_div_cancel _ (Nat.two_pow_pos _)]

theorem forestNode_fits (sound : p.Sound) {forestTree level index : Nat}
    (inside : forestTree < p.k.toNat) (lt : index < 2 ^ (p.a.toNat - (level + 1))) :
    Forest.firstLeaf p forestTree / 2 ^ (level + 1) + index < 2 ^ 32 := by
  have ends := Forest.firstLeaf_add_le sound inside
  have smaller : Forest.firstLeaf p forestTree / 2 ^ (level + 1) ≤ Forest.firstLeaf p forestTree :=
    Nat.div_le_self _ _
  have power : 2 ^ (p.a.toNat - (level + 1)) ≤ 2 ^ p.a.toNat :=
    Nat.pow_le_pow_right (by decide) (Nat.sub_le _ _)
  omega

theorem fits_tag (sound : p.Sound) {place : Place} (legal : place.Legal p) :
    (place.tag p).Fits := by
  have chains := sound.chains_le
  have heights := sound.layer_le
  have forest_heights := sound.forest_le
  cases place with
  | chainSecret layer tree keyPair chain =>
      obtain ⟨has_tree, pair, inside⟩ := legal
      exact has_tree.fits sound (keyPair_fits sound pair) (by omega) (by decide)
  | chainStep layer tree keyPair chain step =>
      obtain ⟨has_tree, pair, inside, low⟩ := legal
      exact has_tree.fits sound (keyPair_fits sound pair) (by omega) (by omega)
  | oneTimeKey layer tree keyPair =>
      obtain ⟨has_tree, pair⟩ := legal
      exact has_tree.fits sound (keyPair_fits sound pair) (by decide) (by decide)
  | node layer tree level index =>
      obtain ⟨has_tree, low, inside⟩ := legal
      have power : 2 ^ (p.hp.toNat - (level + 1)) ≤ 2 ^ p.hp.toNat :=
        Nat.pow_le_pow_right (by decide) (Nat.sub_le _ _)
      exact has_tree.fits sound (by decide) (by omega)
        (keyPair_fits sound (Nat.lt_of_lt_of_le inside power))
  | forestSecret tree leaf forestTree index =>
      obtain ⟨has_tree, pair, inside, lt⟩ := legal
      exact has_tree.fits sound (keyPair_fits sound pair) (by decide)
        (forestIndex_fits sound inside lt)
  | forestLeaf tree leaf forestTree index =>
      obtain ⟨has_tree, pair, inside, lt⟩ := legal
      exact has_tree.fits sound (keyPair_fits sound pair) (by decide)
        (forestIndex_fits sound inside lt)
  | forestNode tree leaf forestTree level index =>
      obtain ⟨has_tree, pair, inside, low, lt⟩ := legal
      exact has_tree.fits sound (keyPair_fits sound pair) (by omega)
        (forestNode_fits sound inside lt)
  | forestKey tree leaf =>
      obtain ⟨has_tree, pair⟩ := legal
      exact has_tree.fits sound (keyPair_fits sound pair) (by decide) (by decide)

/-- Numbers of consecutive blocks of one width are never shared. -/
theorem eq_of_block_add_eq {width block block' index index' : Nat} (lt : index < width)
    (lt' : index' < width) (same : block * width + index = block' * width + index') :
    block = block' ∧ index = index' := by
  have quotient (b i : Nat) (small : i < width) : (b * width + i) / width = b := by
    rw [Nat.add_comm, Nat.add_mul_div_right _ _ (Nat.zero_lt_of_lt small), Nat.div_eq_of_lt small,
      Nat.zero_add]
  have blocks : block = block' := by
    rw [← quotient block index lt, same, quotient block' index' lt']
  subst blocks
  exact ⟨rfl, Nat.add_left_cancel same⟩

/-- No two places have one tag. -/
theorem eq_of_tag_eq {place place' : Place} (legal : place.Legal p) (legal' : place'.Legal p)
    (same : place.tag p = place'.tag p) : place = place' := by
  -- places of two constructors differ in the kind, or one of them is a leaf and the other a node
  cases place <;> cases place' <;>
    simp only [tag, Tag.mk.injEq, reduceCtorEq, false_and, and_false] at same
  case chainSecret.chainSecret =>
      obtain ⟨rfl, rfl, -, rfl, rfl, -⟩ := same
      rfl
  case chainStep.chainStep =>
      obtain ⟨rfl, rfl, -, rfl, rfl, rfl⟩ := same
      rfl
  case oneTimeKey.oneTimeKey =>
      obtain ⟨rfl, rfl, -, rfl, -, -⟩ := same
      rfl
  case node.node =>
      obtain ⟨rfl, rfl, -, -, level, rfl⟩ := same
      obtain rfl := Nat.succ.inj level
      rfl
  case forestSecret.forestSecret =>
      obtain ⟨-, rfl, -, rfl, -, number⟩ := same
      obtain ⟨rfl, rfl⟩ := eq_of_block_add_eq legal.2.2.2 legal'.2.2.2 number
      rfl
  case forestLeaf.forestLeaf =>
      obtain ⟨-, rfl, -, rfl, -, number⟩ := same
      obtain ⟨rfl, rfl⟩ := eq_of_block_add_eq legal.2.2.2 legal'.2.2.2 number
      rfl
  case forestNode.forestNode =>
      obtain ⟨-, rfl, -, rfl, level, number⟩ := same
      obtain rfl := Nat.succ.inj level
      rw [firstLeaf_div legal.2.2.2.1, firstLeaf_div legal.2.2.2.1] at number
      obtain ⟨rfl, rfl⟩ := eq_of_block_add_eq legal.2.2.2.2 legal'.2.2.2.2 number
      rfl
  case forestKey.forestKey =>
      obtain ⟨-, rfl, -, rfl, -, -⟩ := same
      rfl

/-- Places whose calls have one short address are one place. -/
theorem eq_of_compressed_eq (sound : p.Sound) (skSeed : Bytes) {place place' : Place}
    (legal : place.Legal p) (legal' : place'.Legal p)
    (same : (place.call H p skSeed).adrs.compressed = (place'.call H p skSeed).adrs.compressed) :
    place = place' :=
  eq_of_tag_eq legal legal' (Tag.eq_of_compressed_eq (fits_tag sound legal) (fits_tag sound legal')
    (adrs_call skSeed place) (adrs_call skSeed place') same)

end Place

/-! ## The table of calls -/

section Table

variable {H : TweakableHash} {p : Params}

/-- The call is that of a place. -/
def InTable (H : TweakableHash) (p : Params) (skSeed : Bytes) (c : HashCall) : Prop :=
  ∃ place : Place, place.Legal p ∧ c = place.call H p skSeed

theorem covers_layer (skSeed : Bytes) {layer : Nat} {tree : UInt64}
    (legal : Place.HasTree p layer tree.toNat) :
    Layer.Covers (InTable H p skSeed) H p skSeed (Layer.address (UInt32.ofNat layer) tree) := by
  have address : Layer.address (UInt32.ofNat layer) tree = Place.treeAddress layer tree.toNat := by
    rw [Place.treeAddress, UInt64.ofNat_toNat]
  rw [address]
  constructor
  case keyPair =>
    intro keyPair pair
    constructor
    case secret =>
      intro chain inside
      exact ⟨.chainSecret layer tree.toNat keyPair chain, ⟨legal, pair, inside⟩, rfl⟩
    case step =>
      intro chain inside step low
      exact ⟨.chainStep layer tree.toNat keyPair chain step, ⟨legal, pair, inside, low⟩, rfl⟩
    case key => exact ⟨.oneTimeKey layer tree.toNat keyPair, ⟨legal, pair⟩, rfl⟩
  case node =>
    intro level low index inside
    exact ⟨.node layer tree.toNat level index, ⟨legal, low, inside⟩, rfl⟩

theorem covers_forest (skSeed : Bytes) {tree : UInt64} {leaf : UInt32}
    (legal : Place.HasTree p 0 tree.toNat) (pair : leaf.toNat < 2 ^ p.hp.toNat) :
    Forest.Covers (InTable H p skSeed) H p skSeed (Signing.forestAddress tree leaf) := by
  have address : Signing.forestAddress tree leaf = Place.forestAddress tree.toNat leaf.toNat := by
    rw [Place.forestAddress, UInt64.ofNat_toNat, UInt32.ofNat_toNat]
  rw [address]
  constructor
  case secret =>
    intro forestTree inside index lt
    exact ⟨.forestSecret tree.toNat leaf.toNat forestTree index, ⟨legal, pair, inside, lt⟩, rfl⟩
  case leaf =>
    intro forestTree inside index lt
    exact ⟨.forestLeaf tree.toNat leaf.toNat forestTree index, ⟨legal, pair, inside, lt⟩, rfl⟩
  case node =>
    intro forestTree inside level low index lt
    exact ⟨.forestNode tree.toNat leaf.toNat forestTree level index,
      ⟨legal, pair, inside, low, lt⟩, rfl⟩
  case key => exact ⟨.forestKey tree.toNat leaf.toNat, ⟨legal, pair⟩, rfl⟩

end Table

/-- Each of the four functions is called under its own kinds of addresses only. -/
def HashCall.InRole : HashCall → Prop
  | prf adrs _ => adrs.type? = some .wotsPrf ∨ adrs.type? = some .forsPrf
  | f adrs _ =>
    adrs.type? = some .wotsHash ∨ adrs.type? = some .forsTree ∧ adrs.treeHeight = 0
  | h adrs _ _ =>
    adrs.type? = some .tree ∨ adrs.type? = some .forsTree ∧ 1 ≤ adrs.treeHeight.toNat
  | t adrs _ => adrs.type? = some .wotsPk ∨ adrs.type? = some .forsRoots

theorem Place.inRole_call {H : TweakableHash} {p : Params} (sound : p.Sound) (skSeed : Bytes)
    {place : Place} (legal : place.Legal p) : (place.call H p skSeed).InRole := by
  have reads := Tag.readFrom_encode (fits_tag sound legal)
  rw [← adrs_call (H := H) skSeed] at reads
  cases place with
  | chainSecret => exact .inl reads.kind
  | chainStep => exact .inl reads.kind
  | oneTimeKey => exact .inl reads.kind
  | node => exact .inl reads.kind
  | forestSecret => exact .inr reads.kind
  | forestLeaf => exact .inr ⟨reads.kind, UInt32.toNat_inj.1 reads.high.2⟩
  | forestNode => exact .inr ⟨reads.kind, reads.high.2 ▸ Nat.succ_pos _⟩
  | forestKey => exact .inr reads.kind

/-! ## The calls of key generation and signing -/

namespace Signing

variable {H : TweakableHash} {p : Params}

/-- Signing a message as a program, with the randomizer and the digest at hand. -/
def messageProgram (H : TweakableHash) (p : Params) (key : SigningKey) (message optRand : Bytes) :
    HashProgram Bytes :=
  let randomizer := H.prfMsg key.skPrf optRand message
  signProgram H.n p key.skSeed randomizer (H.hMsg randomizer key.pkRoot message p.m.toNat)

/-- A call that key generation makes, or signing of some message with some key of these seeds. -/
inductive Called (H : TweakableHash) (p : Params) (skSeed : Bytes) : HashCall → Prop
  | generating {c : HashCall} (member : c ∈ (rootProgram H.n p skSeed).calls H) :
    Called H p skSeed c
  | signing {c : HashCall} (key : SigningKey) (message optRand : Bytes)
    (at_seed : key.skSeed = skSeed) (member : c ∈ (messageProgram H p key message optRand).calls H) :
    Called H p skSeed c

theorem stays_rootProgram_table (sound : p.Sound) (width : H.n = p.n.toNat) (skSeed : Bytes) :
    Stays H (InTable H p skSeed) (rootProgram H.n p skSeed) := by
  have layers := sound.layers
  refine stays_rootProgram sound width (covers_layer skSeed ⟨by omega, Nat.two_pow_pos _⟩)

theorem stays_signProgram_table (sound : p.Sound) (width : H.n = p.n.toNat)
    (skSeed randomizer : Bytes) {digest : Bytes} (length : digest.length = p.m.toNat) :
    Stays H (InTable H p skSeed) (signProgram H.n p skSeed randomizer digest) := by
  have legal := Route.toNat_tree_lt sound digest
  refine stays_signProgram sound width length randomizer ?_ fun l inside => ?_
  · refine covers_forest skSeed ⟨sound.layers, ?_⟩ (Route.toNat_leaf_lt sound digest)
    rw [Nat.sub_zero, ← sound.tree_bits_eq]
    exact legal
  · exact covers_layer skSeed ⟨inside, Hypertree.toNat_treeAt_lt sound legal inside⟩

theorem Called.inTable (sound : p.Sound) (width : H.n = p.n.toNat) {skSeed : Bytes} {c : HashCall}
    (called : Called H p skSeed c) : InTable H p skSeed c := by
  cases called with
  | generating member => exact stays_rootProgram_table sound width skSeed c member
  | signing key message optRand at_seed member =>
      subst at_seed
      exact stays_signProgram_table sound width key.skSeed _ (H.length_hMsg _ _ _ _) c member

/-- Hash functions with digests as long as those of `H`, and the same replies inside the table. -/
structure AgreesInTable (H H' : TweakableHash) (p : Params) (skSeed : Bytes) : Prop where
  width : H'.n = H.n
  reply : ∀ place : Place, place.Legal p →
    (place.call H p skSeed).reply H' = (place.call H p skSeed).reply H

theorem AgreesInTable.agree {H' : TweakableHash} {skSeed : Bytes}
    (agrees : AgreesInTable H H' p skSeed) (c : HashCall) (inside : InTable H p skSeed c) :
    c.reply H' = c.reply H := by
  obtain ⟨place, legal, rfl⟩ := inside
  exact agrees.reply place legal

theorem root_eq_of_agrees (sound : p.Sound) (width : H.n = p.n.toNat) {H' : TweakableHash}
    {skSeed : Bytes} (agrees : AgreesInTable H H' p skSeed) :
    Layer.root H' p skSeed (UInt32.ofNat (p.d.toNat - 1)) 0 =
      Layer.root H p skSeed (UInt32.ofNat (p.d.toNat - 1)) 0 := by
  have layers := sound.layers
  have stays : Stays H (InTable H p skSeed)
      (Layer.rootProgram H.n p skSeed (UInt32.ofNat (p.d.toNat - 1)) 0) :=
    Layer.stays_rootProgram sound width (covers_layer skSeed ⟨by omega, Nat.two_pow_pos _⟩)
  rw [← Layer.answer_rootProgram, ← Layer.answer_rootProgram, agrees.width]
  exact stays.answer_eq agrees.agree

theorem signWith_eq_of_agrees (sound : p.Sound) (width : H.n = p.n.toNat) {H' : TweakableHash}
    {key key' : SigningKey} (at_seed : key'.skSeed = key.skSeed)
    (agrees : AgreesInTable H H' p key.skSeed) {message message' optRand optRand' : Bytes}
    (randomizer : H'.prfMsg key'.skPrf optRand' message' = H.prfMsg key.skPrf optRand message)
    (digest : H'.hMsg (H'.prfMsg key'.skPrf optRand' message') key'.pkRoot message' p.m.toNat =
      H.hMsg (H.prfMsg key.skPrf optRand message) key.pkRoot message p.m.toNat) :
    signWith H' p key' message' optRand' = signWith H p key message optRand := by
  have stays := stays_signProgram_table sound width key.skSeed
    (H.prfMsg key.skPrf optRand message) (H.length_hMsg
      (H.prfMsg key.skPrf optRand message) key.pkRoot message p.m.toNat)
  rw [← answer_signProgram, ← answer_signProgram, agrees.width, at_seed, digest, randomizer]
  exact stays.answer_eq agrees.agree

theorem answer_rootProgram_eq (sound : p.Sound) (skSeed : Bytes) :
    (rootProgram H.n p skSeed).answer H =
      Layer.root H p skSeed (UInt32.ofNat (p.d.toNat - 1)) 0 := by
  rw [answer_rootProgram, sound.arenaSize_eq, ok_bind, buffer_of_le sound.arenaSize_fits, ok_bind,
    less_of_le sound.layers, ok_bind]

theorem root_of_publicRoot {skSeed skPrf pkSeed : Bytes} (hashed : p.hash pkSeed = .ok H)
    {slot : Slot} (made : publicRoot p skSeed skPrf pkSeed = .ok slot) :
    Layer.root H p skSeed (UInt32.ofNat (p.d.toNat - 1)) 0 = .ok (slot.front p.n.toNat) := by
  obtain ⟨H', root, hashed', built, placed⟩ := publicRoot_eq_ok made
  obtain rfl : H = H' := Except.ok.inj (hashed.symm.trans hashed')
  rw [built, (Slot.place_eq_ok placed).2]

theorem signWith_of_sign {key : SigningKey} (hashed : p.hash key.pkSeed = .ok H)
    {message optRand signature : Bytes} (made : sign p key message optRand = .ok signature) :
    signWith H p key message optRand = .ok signature := by
  simp only [sign, bind_eq_ok] at made
  obtain ⟨_, -, _, -, _, -, _, -, _, -, _, -, _, -, _, -, H', hashed', made⟩ := made
  obtain rfl : H = H' := Except.ok.inj (hashed.symm.trans hashed')
  exact made

/-- Over all runs under one secret seed and one public seed every hash call has a tag of its own.
Key generation and signing are programs, under all hash functions. Their calls under one short
address are one call, each in the role of its address and at a place whose numbers its address holds
unchanged. So these runs see no more of the hash functions than a table with at most one entry for
each short address: others that agree with them there give the same root, and for the same
randomizer and digest the same signature. -/
theorem calls_have_own_tags {p : Params} (accepted : p.check = .ok ()) (skSeed pkSeed : Bytes)
    {H : TweakableHash} (hashed : p.hash pkSeed = .ok H) :
    ((∀ skPrf slot, publicRoot p skSeed skPrf pkSeed = .ok slot →
        Layer.root H p skSeed (UInt32.ofNat (p.d.toNat - 1)) 0 = .ok (slot.front p.n.toNat)) ∧
      (∀ H', (rootProgram H'.n p skSeed).answer H' =
        Layer.root H' p skSeed (UInt32.ofNat (p.d.toNat - 1)) 0) ∧
      (∀ key message optRand signature, key.pkSeed = pkSeed →
        sign p key message optRand = .ok signature →
          signWith H p key message optRand = .ok signature) ∧
      ∀ H' key message optRand, (messageProgram H' p key message optRand).answer H' =
        signWith H' p key message optRand) ∧
    (∀ c c', Called H p skSeed c → Called H p skSeed c' →
      c.adrs.compressed = c'.adrs.compressed → c = c') ∧
    (∀ c, Called H p skSeed c → c.InRole ∧ ∃ place : Place, place.Legal p ∧
      c = place.call H p skSeed ∧ (place.tag p).ReadFrom c.adrs) ∧
    (∀ place place' : Place, place.Legal p → place'.Legal p →
      (place.call H p skSeed).adrs.compressed = (place'.call H p skSeed).adrs.compressed →
        place = place') ∧
    ∀ H', AgreesInTable H H' p skSeed →
      Layer.root H' p skSeed (UInt32.ofNat (p.d.toNat - 1)) 0 =
        Layer.root H p skSeed (UInt32.ofNat (p.d.toNat - 1)) 0 ∧
      ∀ key key' message message' optRand optRand',
        key.skSeed = skSeed → key'.skSeed = skSeed →
        H'.prfMsg key'.skPrf optRand' message' = H.prfMsg key.skPrf optRand message →
        H'.hMsg (H'.prfMsg key'.skPrf optRand' message') key'.pkRoot message' p.m.toNat =
          H.hMsg (H.prfMsg key.skPrf optRand message) key.pkRoot message p.m.toNat →
        signWith H' p key' message' optRand' = signWith H p key message optRand := by
  have sound := Params.sound_of_check accepted
  have width := width_of_hash hashed
  refine ⟨⟨?_, ?_, ?_, ?_⟩, ?_, ?_, ?_, ?_⟩
  · intro skPrf slot made
    exact root_of_publicRoot hashed made
  · intro H'
    exact answer_rootProgram_eq sound skSeed
  · intro key message optRand signature at_public made
    subst at_public
    exact signWith_of_sign hashed made
  · intro H' key message optRand
    exact answer_signProgram key message optRand
  · intro c c' called called' same
    obtain ⟨place, legal, rfl⟩ := called.inTable sound width
    obtain ⟨place', legal', rfl⟩ := called'.inTable sound width
    rw [Place.eq_of_compressed_eq sound skSeed legal legal' same]
  · intro c called
    obtain ⟨place, legal, rfl⟩ := called.inTable sound width
    have reads := Tag.readFrom_encode (Place.fits_tag sound legal)
    rw [← Place.adrs_call (H := H) skSeed] at reads
    exact ⟨Place.inRole_call sound skSeed legal, place, legal, rfl, reads⟩
  · intro place place' legal legal' same
    exact Place.eq_of_compressed_eq sound skSeed legal legal' same
  · intro H' agrees
    refine ⟨root_eq_of_agrees sound width agrees, ?_⟩
    intro key key' message message' optRand optRand' at_seed at_seed' randomizer digest
    subst at_seed
    exact signWith_eq_of_agrees sound width at_seed' agrees randomizer digest

/-- Key generation of the smallest instance makes calls, and each has its own tag. -/
theorem calls_have_own_tags_smallest :
    ∃ c, Called (.shake 16 (Bytes.zeros 16)) (.ofBase .shake 16 1 1 1 1) (Bytes.zeros 16) c ∧
      ∀ c', Called (.shake 16 (Bytes.zeros 16)) (.ofBase .shake 16 1 1 1 1) (Bytes.zeros 16) c' →
        c.adrs.compressed = c'.adrs.compressed → c = c' := by
  have hashed : (Params.ofBase .shake 16 1 1 1 1).hash (Bytes.zeros 16) =
      .ok (.shake 16 (Bytes.zeros 16)) := rfl
  obtain ⟨-, own, -⟩ := calls_have_own_tags (p := .ofBase .shake 16 1 1 1 1) rfl (Bytes.zeros 16)
    (Bytes.zeros 16) hashed
  obtain ⟨c, rest, made⟩ : ∃ c rest,
      (rootProgram (TweakableHash.shake 16 (Bytes.zeros 16)).n (.ofBase .shake 16 1 1 1 1)
        (Bytes.zeros 16)).calls (.shake 16 (Bytes.zeros 16)) = c :: rest := ⟨_, _, rfl⟩
  have called : Called (.shake 16 (Bytes.zeros 16)) (.ofBase .shake 16 1 1 1 1) (Bytes.zeros 16)
      c := .generating (made ▸ List.mem_cons_self)
  exact ⟨c, called, fun c' called' => own c c' called called'⟩

end Signing

end HashSignature
