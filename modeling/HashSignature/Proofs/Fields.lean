/-
# HashSignature.Proofs.Fields — an address is a record of six fields

Every address that the operations reach is the encoding of a record, because each setter is the
update of one field: of the kind together with the three words behind it. Whatever was written
before can then be read off a record instead of off 32 bytes.

* `encode_update` — a setter on the encoding is an update of the record.
* `slice_encode` — the bytes of a place are those of its value; all getters read them.
* `compressed_encode` — the short form keeps all fields and the lowest byte of the layer.
* `short_eq_iff` — and it keeps nothing else, so it loses the upper bytes of the layer only.
* `eq_of_compressed_eq` — so it loses nothing if layers fit one byte.
-/
import HashSignature.Proofs.Address

namespace HashSignature

set_option autoImplicit false

namespace Bytes

/-! ## Fields side by side -/

/-- A field written over one of the same length leaves its neighbours alone. -/
theorem overwrite_append {front old new back : Bytes} {skip : Nat} (length : front.length = skip)
    (same : new.length = old.length) :
    overwrite skip new (front ++ (old ++ back)) = front ++ (new ++ back) := by
  subst length
  induction front with
  | cons b front ih => exact congrArg (b :: ·) ih
  | nil =>
      induction old generalizing new with
      | nil =>
          obtain rfl := List.length_eq_zero_iff.1 same
          cases back <;> rfl
      | cons b old ih =>
          obtain ⟨v, new, rfl⟩ := List.exists_cons_of_length_eq_add_one same
          exact congrArg (v :: ·) (ih (by simpa using same))

theorem slice_of_append {front field back : Bytes} {skip width : Nat}
    (length : front.length = skip) (field_length : field.length = width) :
    slice skip width (front ++ (field ++ back)) = field := by
  rw [slice, List.drop_left' length, List.take_left' field_length]

/-- The highest bytes of a small number are zero. -/
theorem ofNat_add_of_lt {w n : Nat} (more : Nat) (small : n < 256 ^ w) :
    ofNat (more + w) n = zeros more ++ ofNat w n := by
  induction more with
  | zero => rw [Nat.zero_add]; rfl
  | succ more ih =>
      have zero : n >>> (8 * (more + w)) = 0 := by
        rw [Nat.shiftRight_eq_div_pow, Nat.pow_mul]
        exact Nat.div_eq_of_lt (Nat.lt_of_lt_of_le small
          (Nat.pow_le_pow_right (by decide) (Nat.le_add_left w more)))
      rw [show more + 1 + w = more + w + 1 by omega, ofNat, zero, ih]
      rfl

/-- Numbers that fit are equal if their bytes are. -/
theorem eq_of_ofNat_eq {w m n : Nat} (m_lt : m < 256 ^ w) (n_lt : n < 256 ^ w)
    (same : ofNat w m = ofNat w n) : m = n := by
  rw [← toNat_ofNat_of_lt m_lt, same, toNat_ofNat_of_lt n_lt]

/-- One byte holds of a number what is left of it modulo 256. -/
theorem ofNat_one_eq_iff {m n : Nat} : ofNat 1 m = ofNat 1 n ↔ m % 256 = n % 256 := by
  have low (k : Nat) : ofNat 1 k = [UInt8.ofNat (k % 256)] :=
    congrArg ([·]) (UInt8.ofNat_mod_size (x := k)).symm
  constructor
  · intro same
    have read := congrArg toNat same
    rwa [toNat_ofNat, toNat_ofNat, Nat.pow_one] at read
  · intro same
    rw [low, low, same]

end Bytes

namespace Address

/-- A place that holds a value: the four bytes that are always zero are none. -/
inductive Field where
  | layer
  | tree
  | kind
  | keyPair
  /-- The chain, or the height of a node. -/
  | high
  /-- The step within a chain, or the index of a node. -/
  | low
deriving DecidableEq, Repr

namespace Field

/-- The first byte of a place. -/
def start : Field → Nat
  | layer => 0
  | tree => 8
  | kind => 16
  | keyPair => 20
  | high => 24
  | low => 28

/-- The bytes of a place. -/
def width : Field → Nat
  | tree => 8
  | _ => 4

end Field

/-- What an address holds. Chain and height share a field, and so do step and index. -/
structure Fields where
  layer : UInt32
  tree : UInt64
  kind : AddressType
  keyPair : UInt32
  high : UInt32
  low : UInt32
deriving DecidableEq, Repr

namespace Fields

/-- The fields in their order, each big-endian. -/
def bytes (fields : Fields) : Bytes :=
  Bytes.ofNat 4 fields.layer.toNat ++ Bytes.zeros 4 ++ Bytes.ofNat 8 fields.tree.toNat ++
    Bytes.ofNat 4 fields.kind.code ++ Bytes.ofNat 4 fields.keyPair.toNat ++
    Bytes.ofNat 4 fields.high.toNat ++ Bytes.ofNat 4 fields.low.toNat

/-- The address that holds the fields of a record. -/
def encode (fields : Fields) : Address := ⟨fields.bytes, by simp [bytes]⟩

/-- The record of the zero address. -/
def none : Fields := ⟨0, 0, .wotsHash, 0, 0, 0⟩

/-- One change of a record. -/
def update (fields : Fields) : Update → Fields
  | .reset => none
  | .layer value => { fields with layer := value }
  | .tree value => { fields with tree := value }
  | .type kind => { fields with kind, keyPair := 0, high := 0, low := 0 }
  | .keyPair value => { fields with keyPair := value }
  | .chain value => { fields with high := value }
  | .hash value => { fields with low := value }
  | .treeHeight value => { fields with high := value }
  | .treeIndex value => { fields with low := value }

/-! ## Setters -/

theorem encode_none : none.encode = zero := rfl

/-- Writing over one part of an encoding encodes the record with that part. -/
theorem encode_put {fields changed : Fields} (front old new back : Bytes) {position : Nat}
    (length : front.length = position) (same : new.length = old.length)
    (parts : fields.bytes = front ++ (old ++ back))
    (made : changed.bytes = front ++ (new ++ back)) :
    fields.encode.put position new = changed.encode := by
  apply ext
  change Bytes.overwrite position new fields.bytes = changed.bytes
  rw [parts, made, Bytes.overwrite_append length same]

/-- The fields before the kind. -/
def place (fields : Fields) : Bytes :=
  Bytes.ofNat 4 fields.layer.toNat ++ Bytes.zeros 4 ++ Bytes.ofNat 8 fields.tree.toNat

@[simp] theorem encode_setLayer (fields : Fields) (value : UInt32) :
    fields.encode.setLayer value = { fields with layer := value }.encode := by
  apply encode_put [] (.ofNat 4 fields.layer.toNat) _ (Bytes.zeros 4 ++
    Bytes.ofNat 8 fields.tree.toNat ++ Bytes.ofNat 4 fields.kind.code ++
    Bytes.ofNat 4 fields.keyPair.toNat ++ Bytes.ofNat 4 fields.high.toNat ++
    Bytes.ofNat 4 fields.low.toNat) rfl <;> simp [bytes]

@[simp] theorem encode_setTree (fields : Fields) (value : UInt64) :
    fields.encode.setTree value = { fields with tree := value }.encode := by
  have wide : Bytes.ofNat (4 + 8) value.toNat = Bytes.zeros 4 ++ Bytes.ofNat 8 value.toNat :=
    Bytes.ofNat_add_of_lt 4 value.toNat_lt
  rw [show 4 + 8 = 12 from rfl] at wide
  apply encode_put (.ofNat 4 fields.layer.toNat) (Bytes.zeros 4 ++ Bytes.ofNat 8 fields.tree.toNat) _
    (Bytes.ofNat 4 fields.kind.code ++ Bytes.ofNat 4 fields.keyPair.toNat ++
      Bytes.ofNat 4 fields.high.toNat ++ Bytes.ofNat 4 fields.low.toNat) <;> simp [bytes, wide]

@[simp] theorem encode_setType (fields : Fields) (kind : AddressType) :
    fields.encode.setType kind =
      { fields with kind, keyPair := 0, high := 0, low := 0 : Fields }.encode := by
  apply encode_put fields.place (Bytes.ofNat 4 fields.kind.code ++
    Bytes.ofNat 4 fields.keyPair.toNat ++ Bytes.ofNat 4 fields.high.toNat ++
    Bytes.ofNat 4 fields.low.toNat) _ [] <;> simp [bytes, place]
  rfl

@[simp] theorem encode_setKeyPair (fields : Fields) (value : UInt32) :
    fields.encode.setKeyPair value = { fields with keyPair := value }.encode := by
  apply encode_put (fields.place ++ Bytes.ofNat 4 fields.kind.code)
    (Bytes.ofNat 4 fields.keyPair.toNat) _
    (Bytes.ofNat 4 fields.high.toNat ++ Bytes.ofNat 4 fields.low.toNat) <;> simp [bytes, place]

@[simp] theorem encode_setChain (fields : Fields) (value : UInt32) :
    fields.encode.setChain value = { fields with high := value }.encode := by
  apply encode_put (fields.place ++ Bytes.ofNat 4 fields.kind.code ++
    Bytes.ofNat 4 fields.keyPair.toNat) (Bytes.ofNat 4 fields.high.toNat) _
    (Bytes.ofNat 4 fields.low.toNat) <;> simp [bytes, place]

@[simp] theorem encode_setHash (fields : Fields) (value : UInt32) :
    fields.encode.setHash value = { fields with low := value }.encode := by
  apply encode_put (fields.place ++ Bytes.ofNat 4 fields.kind.code ++
    Bytes.ofNat 4 fields.keyPair.toNat ++ Bytes.ofNat 4 fields.high.toNat)
    (Bytes.ofNat 4 fields.low.toNat) _ [] <;> simp [bytes, place]

@[simp] theorem encode_setTreeHeight (fields : Fields) (value : UInt32) :
    fields.encode.setTreeHeight value = { fields with high := value }.encode :=
  fields.encode_setChain value

@[simp] theorem encode_setTreeIndex (fields : Fields) (value : UInt32) :
    fields.encode.setTreeIndex value = { fields with low := value }.encode :=
  fields.encode_setHash value

@[simp] theorem encode_setLast (fields : Fields) (high low : UInt32) :
    fields.encode.setLast high low = { fields with high, low }.encode := by
  rw [setLast, encode_setChain, encode_setHash]

/-- A setter on the encoding of a record is the update of the record. -/
theorem encode_update (fields : Fields) (u : Update) :
    fields.encode.update u = (fields.update u).encode := by
  cases u with
  | reset => exact encode_none.symm
  | layer value => exact fields.encode_setLayer value
  | tree value => exact fields.encode_setTree value
  | type kind => exact fields.encode_setType kind
  | keyPair value => exact fields.encode_setKeyPair value
  | chain value => exact fields.encode_setChain value
  | hash value => exact fields.encode_setHash value
  | treeHeight value => exact fields.encode_setTreeHeight value
  | treeIndex value => exact fields.encode_setTreeIndex value

/-! ## Getters -/

/-- The value at a place. -/
def value (fields : Fields) : Field → Nat
  | .layer => fields.layer.toNat
  | .tree => fields.tree.toNat
  | .kind => fields.kind.code
  | .keyPair => fields.keyPair.toNat
  | .high => fields.high.toNat
  | .low => fields.low.toNat

/-- The bytes of a place are those of its value. -/
theorem slice_encode (fields : Fields) (field : Field) :
    Bytes.slice field.start field.width fields.encode.bytes =
      Bytes.ofNat field.width (fields.value field) := by
  simp only [encode, bytes, List.append_assoc]
  cases field with
  | layer =>
      exact Bytes.slice_of_append (List.length_nil : ([] : Bytes).length = 0) (Bytes.length_ofNat _ _)
  | tree =>
      rw [← List.append_assoc]
      exact Bytes.slice_of_append (by simp [Field.start]) (Bytes.length_ofNat _ _)
  | kind =>
      rw [← List.append_assoc, ← List.append_assoc]
      exact Bytes.slice_of_append (by simp [Field.start]) (Bytes.length_ofNat _ _)
  | keyPair =>
      rw [← List.append_assoc, ← List.append_assoc, ← List.append_assoc]
      exact Bytes.slice_of_append (by simp [Field.start]) (Bytes.length_ofNat _ _)
  | high =>
      rw [← List.append_assoc, ← List.append_assoc, ← List.append_assoc, ← List.append_assoc]
      exact Bytes.slice_of_append (by simp [Field.start]) (Bytes.length_ofNat _ _)
  | low =>
      rw [← List.append_nil (Bytes.ofNat 4 fields.low.toNat), ← List.append_assoc,
        ← List.append_assoc, ← List.append_assoc, ← List.append_assoc, ← List.append_assoc]
      exact Bytes.slice_of_append (by simp [Field.start]) (Bytes.length_ofNat _ _)

/-- A place of four bytes is read as its value. -/
theorem word_encode (fields : Fields) (field : Field) (narrow : field.width = 4) {value : UInt32}
    (holds : fields.value field = value.toNat) : fields.encode.word field.start = value := by
  have read := slice_encode fields field
  rw [narrow, holds] at read
  rw [word, read, Bytes.toNat_ofNat_of_lt value.toNat_lt, UInt32.ofNat_toNat]

@[simp] theorem layer_encode (fields : Fields) : fields.encode.layer = fields.layer :=
  fields.word_encode .layer rfl rfl

@[simp] theorem keyPair_encode (fields : Fields) : fields.encode.keyPair = fields.keyPair :=
  fields.word_encode .keyPair rfl rfl

@[simp] theorem chain_encode (fields : Fields) : fields.encode.chain = fields.high :=
  fields.word_encode .high rfl rfl

@[simp] theorem hash_encode (fields : Fields) : fields.encode.hash = fields.low :=
  fields.word_encode .low rfl rfl

@[simp] theorem treeHeight_encode (fields : Fields) : fields.encode.treeHeight = fields.high :=
  fields.chain_encode

@[simp] theorem treeIndex_encode (fields : Fields) : fields.encode.treeIndex = fields.low :=
  fields.hash_encode

@[simp] theorem tree_encode (fields : Fields) : fields.encode.tree = fields.tree := by
  have read : Bytes.slice 8 8 fields.encode.bytes = Bytes.ofNat 8 fields.tree.toNat :=
    slice_encode fields .tree
  rw [Address.tree, read, Bytes.toNat_ofNat_of_lt fields.tree.toNat_lt, UInt64.ofNat_toNat]

@[simp] theorem type?_encode (fields : Fields) : fields.encode.type? = some fields.kind := by
  have read : Bytes.slice 16 4 fields.encode.bytes = Bytes.ofNat 4 fields.kind.code :=
    slice_encode fields .kind
  rw [type?, word, read, ← AddressType.ofCode?_code fields.kind]
  cases fields.kind <;> rfl

/-! ## Short form -/

/-- What the short form holds: one byte of the layer, the tree, one byte of the kind, the rest. -/
def short (fields : Fields) : Bytes :=
  Bytes.ofNat 1 fields.layer.toNat ++ (Bytes.ofNat 8 fields.tree.toNat ++
    (Bytes.ofNat 1 fields.kind.code ++ (Bytes.ofNat 4 fields.keyPair.toNat ++
      (Bytes.ofNat 4 fields.high.toNat ++ Bytes.ofNat 4 fields.low.toNat))))

/-- The lowest byte of a number stands at the end of its bytes. -/
theorem ofNat_four (n : Nat) : ∃ front : Bytes, front.length = 3 ∧
    Bytes.ofNat 4 n = front ++ Bytes.ofNat 1 n :=
  ⟨[.ofNat (n >>> 24), .ofNat (n >>> 16), .ofNat (n >>> 8)], rfl, rfl⟩

theorem compressed_encode (fields : Fields) : fields.encode.compressed = fields.short := by
  obtain ⟨layer_front, layer_length, layer⟩ := ofNat_four fields.layer.toNat
  obtain ⟨kind_front, kind_length, kind⟩ := ofNat_four fields.kind.code
  generalize back_eq : Bytes.ofNat 4 fields.keyPair.toNat ++ (Bytes.ofNat 4 fields.high.toNat ++
    Bytes.ofNat 4 fields.low.toNat) = back
  have back_length : back.length = 12 := by simp [← back_eq]
  have bytes_eq : fields.encode.bytes = layer_front ++ (Bytes.ofNat 1 fields.layer.toNat ++
      (Bytes.zeros 4 ++ (Bytes.ofNat 8 fields.tree.toNat ++ (kind_front ++
        (Bytes.ofNat 1 fields.kind.code ++ (back ++ [])))))) := by
    simp [encode, bytes, layer, kind, ← back_eq]
  have at_layer : Bytes.slice 3 1 fields.encode.bytes = Bytes.ofNat 1 fields.layer.toNat := by
    rw [bytes_eq]
    exact Bytes.slice_of_append layer_length rfl
  have at_tree : Bytes.slice 8 8 fields.encode.bytes = Bytes.ofNat 8 fields.tree.toNat := by
    rw [bytes_eq, ← List.append_assoc, ← List.append_assoc]
    exact Bytes.slice_of_append (by simp [layer_length]) (Bytes.length_ofNat _ _)
  have at_kind : Bytes.slice 19 1 fields.encode.bytes = Bytes.ofNat 1 fields.kind.code := by
    rw [bytes_eq, ← List.append_assoc, ← List.append_assoc, ← List.append_assoc,
      ← List.append_assoc]
    exact Bytes.slice_of_append (by simp [layer_length, kind_length]) rfl
  have at_back : Bytes.slice 20 12 fields.encode.bytes = back := by
    rw [bytes_eq, ← List.append_assoc, ← List.append_assoc, ← List.append_assoc,
      ← List.append_assoc, ← List.append_assoc]
    exact Bytes.slice_of_append (by simp [layer_length, kind_length]) back_length
  rw [compressed, at_layer, at_tree, at_kind, at_back, short, ← back_eq]
  simp only [List.append_assoc]

/-- Two short forms are equal if and only if all fields are, the layers up to their lowest byte. -/
theorem short_eq_iff {fields other : Fields} :
    fields.short = other.short ↔
      fields.layer.toNat % 256 = other.layer.toNat % 256 ∧ fields.tree = other.tree ∧
        fields.kind = other.kind ∧ fields.keyPair = other.keyPair ∧ fields.high = other.high ∧
        fields.low = other.low := by
  constructor
  · intro same
    rw [short, short] at same
    obtain ⟨layer, same⟩ := List.append_inj same (by simp)
    obtain ⟨tree, same⟩ := List.append_inj same (by simp)
    obtain ⟨kind, same⟩ := List.append_inj same (by simp)
    obtain ⟨keyPair, same⟩ := List.append_inj same (by simp)
    obtain ⟨high, low⟩ := List.append_inj same (by simp)
    have code_lt (kind : AddressType) : kind.code < 256 ^ 1 := by cases kind <;> decide
    have code := Bytes.eq_of_ofNat_eq (code_lt _) (code_lt _) kind
    have kind_eq : fields.kind = other.kind := by
      have read := AddressType.ofCode?_code fields.kind
      rw [code, AddressType.ofCode?_code, Option.some.injEq] at read
      exact read.symm
    have word {a b : UInt32} (bytes : Bytes.ofNat 4 a.toNat = Bytes.ofNat 4 b.toNat) : a = b :=
      UInt32.toNat_inj.1 (Bytes.eq_of_ofNat_eq a.toNat_lt b.toNat_lt bytes)
    have tree_eq := Bytes.eq_of_ofNat_eq fields.tree.toNat_lt other.tree.toNat_lt tree
    exact ⟨Bytes.ofNat_one_eq_iff.1 layer, UInt64.toNat_inj.1 tree_eq, kind_eq, word keyPair,
      word high, word low⟩
  · rintro ⟨layer, tree, kind, keyPair, high, low⟩
    rw [short, short, Bytes.ofNat_one_eq_iff.2 layer, tree, kind, keyPair, high, low]

/-- The short form tells records apart whose layers fit one byte. -/
theorem eq_of_compressed_eq {fields other : Fields} (low : fields.layer.toNat < 256)
    (low' : other.layer.toNat < 256)
    (same : fields.encode.compressed = other.encode.compressed) : fields = other := by
  rw [compressed_encode, compressed_encode, short_eq_iff, Nat.mod_eq_of_lt low,
    Nat.mod_eq_of_lt low'] at same
  cases fields with
  | mk layer tree kind keyPair high low =>
      cases other with
      | mk layer' tree' kind' keyPair' high' low' =>
          obtain ⟨layer_eq, rfl, rfl, rfl, rfl, rfl⟩ := same
          obtain rfl : layer = layer' := UInt32.toNat_inj.1 layer_eq
          rfl

end Fields

end Address

end HashSignature
