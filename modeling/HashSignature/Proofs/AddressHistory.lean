/-
# HashSignature.Proofs.AddressHistory — an address remembers the last value of each field

An address is changed in place by any number of operations, some of which share a place: chain and
height, step and index. A change of the kind clears the three words behind it. This file follows an
address through all of its changes.

* `Update.written?` — what one operation leaves in one of the six places, if it writes there at all.
* `value_update` — the step: an operation replaces what it writes and keeps the rest.
* `value_after` — the run: a place holds the last value that was written to it.
* `sameTree_after_iff` — what stands before the kind is layer and tree.
* `after_encodes_history` — so the bytes are those of a record that was changed alongside.
-/
import HashSignature.Proofs.Fields

namespace HashSignature.Address

set_option autoImplicit false

/-- The address after operations one after the other, from the zero address on. -/
def after (updates : List Update) : Address := updates.foldl update zero

/-! ## What operations write -/

/-- What an operation leaves in a place, if it writes there. -/
def Update.written? : Update → Field → Option Nat
  | .reset, _ => some 0
  | .layer value, .layer => some value.toNat
  | .tree value, .tree => some value.toNat
  | .type kind, .kind => some kind.code
  | .type _, .keyPair | .type _, .high | .type _, .low => some 0
  | .keyPair value, .keyPair => some value.toNat
  | .chain value, .high | .treeHeight value, .high => some value.toNat
  | .hash value, .low | .treeIndex value, .low => some value.toNat
  | _, _ => none

/-- The values that operations write to a place, in their order. -/
def written (updates : List Update) (field : Field) : List Nat :=
  updates.filterMap (·.written? field)

/-- The last value that operations wrote to a place, zero if none did. -/
def lastWritten (updates : List Update) (field : Field) : Nat :=
  (written updates field).getLast?.getD 0

/-! ## The record alongside -/

namespace Fields

/-- The record after the operations. -/
def after (updates : List Update) : Fields := updates.foldl update none

/-- An operation replaces what it writes and keeps the rest. -/
theorem value_update (fields : Fields) (u : Update) (field : Field) :
    (fields.update u).value field = (u.written? field).getD (fields.value field) := by
  cases u with
  | reset => cases field <;> rfl
  | layer value => cases field <;> rfl
  | tree value => cases field <;> rfl
  | type kind => cases field <;> rfl
  | keyPair value => cases field <;> rfl
  | chain value => cases field <;> rfl
  | hash value => cases field <;> rfl
  | treeHeight value => cases field <;> rfl
  | treeIndex value => cases field <;> rfl

/-- After any operations a place holds the last value that they wrote there, or what it held. -/
theorem value_foldl (updates : List Update) (fields : Fields) (field : Field) :
    (updates.foldl update fields).value field =
      (written updates field).getLast?.getD (fields.value field) := by
  induction updates generalizing fields with
  | nil => rfl
  | cons u rest ih =>
      rw [List.foldl_cons, ih, value_update, written, written, List.filterMap_cons]
      cases u.written? field with
      | none => rfl
      | some value => rw [List.getLast?_cons, Option.getD_some, Option.getD_some]

theorem value_after (updates : List Update) (field : Field) :
    (after updates).value field = lastWritten updates field := by
  rw [after, value_foldl, lastWritten]
  cases field <;> rfl

/-- Operations on an address encode the operations on its record. -/
theorem encode_foldl (updates : List Update) (fields : Fields) :
    (updates.foldl update fields).encode = updates.foldl Address.update fields.encode := by
  induction updates generalizing fields with
  | nil => rfl
  | cons u rest ih => rw [List.foldl_cons, List.foldl_cons, ih, encode_update]

theorem encode_after (updates : List Update) : (after updates).encode = Address.after updates := by
  rw [after, encode_foldl, encode_none, Address.after]

end Fields

/-! ## What the getters and the bytes show -/

/-- The getters return the values of the places; those that share a place return the same. -/
structure Shows (adrs : Address) (value : Field → Nat) : Prop where
  layer : adrs.layer.toNat = value .layer
  tree : adrs.tree.toNat = value .tree
  kind : ∃ kind, adrs.type? = some kind ∧ kind.code = value .kind
  keyPair : adrs.keyPair.toNat = value .keyPair
  chain : adrs.chain.toNat = value .high
  treeHeight : adrs.treeHeight.toNat = value .high
  hash : adrs.hash.toNat = value .low
  treeIndex : adrs.treeIndex.toNat = value .low

theorem Fields.shows_encode (fields : Fields) : fields.encode.Shows fields.value where
  layer := by rw [layer_encode]; rfl
  tree := by rw [tree_encode]; rfl
  kind := ⟨fields.kind, fields.type?_encode, rfl⟩
  keyPair := by rw [keyPair_encode]; rfl
  chain := by rw [chain_encode]; rfl
  treeHeight := by rw [treeHeight_encode]; rfl
  hash := by rw [hash_encode]; rfl
  treeIndex := by rw [treeIndex_encode]; rfl

/-- The four bytes between layer and tree stay zero. -/
theorem Fields.slice_gap (fields : Fields) :
    Bytes.slice 4 4 fields.encode.bytes = Bytes.zeros 4 := by
  simp only [encode, bytes, List.append_assoc]
  exact Bytes.slice_of_append (Bytes.length_ofNat _ _) (Bytes.length_zeros 4)

/-- A kind is a small number, so the bytes before its last one stay zero. -/
theorem Fields.slice_kind_front (fields : Fields) :
    Bytes.slice 16 3 fields.encode.bytes = Bytes.zeros 3 := by
  have front : Bytes.slice 0 3 (Bytes.slice Field.kind.start Field.kind.width fields.encode.bytes) =
      Bytes.zeros 3 := by
    rw [slice_encode, value]
    cases fields.kind <;> rfl
  rwa [Bytes.slice_slice _ _ (by decide)] at front

/-- The sixteen bytes before the kind are layer and tree. -/
theorem Fields.take_encode (fields : Fields) : fields.encode.bytes.take 16 = fields.place := by
  have length : fields.place.length = 16 := by simp [place]
  have front : fields.bytes = fields.place ++ (Bytes.ofNat 4 fields.kind.code ++
      (Bytes.ofNat 4 fields.keyPair.toNat ++ (Bytes.ofNat 4 fields.high.toNat ++
        Bytes.ofNat 4 fields.low.toNat))) := by simp [bytes, place]
  exact (congrArg (List.take 16) front).trans (List.take_left' length)

/-- After any operations, two addresses agree before the kind if and only if they have the same layer
and the same tree. -/
theorem sameTree_after_iff (updates other : List Update) :
    SameTree (after updates) (after other) ↔
      (after updates).layer = (after other).layer ∧ (after updates).tree = (after other).tree := by
  rw [← Fields.encode_after, ← Fields.encode_after, SameTree, Fields.take_encode,
    Fields.take_encode, Fields.layer_encode, Fields.layer_encode, Fields.tree_encode,
    Fields.tree_encode, Fields.place, Fields.place]
  constructor
  · intro same
    obtain ⟨front, tree⟩ := List.append_inj same (by simp)
    obtain ⟨layer, -⟩ := List.append_inj front (by simp)
    have layer_eq := Bytes.eq_of_ofNat_eq (UInt32.toNat_lt _) (UInt32.toNat_lt _) layer
    have tree_eq := Bytes.eq_of_ofNat_eq (UInt64.toNat_lt _) (UInt64.toNat_lt _) tree
    exact ⟨UInt32.toNat_inj.1 layer_eq, UInt64.toNat_inj.1 tree_eq⟩
  · rintro ⟨layer, tree⟩
    rw [layer, tree]

/-- A change of the kind leaves of an address its layer and its tree only. -/
theorem setType_after_congr {updates other : List Update}
    (layer : (after other).layer = (after updates).layer)
    (tree : (after other).tree = (after updates).tree) (kind : AddressType) :
    (after other).setType kind = (after updates).setType kind :=
  ((sameTree_after_iff other updates).2 ⟨layer, tree⟩).setType kind

/-- After any operations the bytes of an address are those of the record that went through the same
operations. Every getter returns the last value written to its place, the kind among them, so there
is always one; the next operation writes its own places and leaves the bytes of all others; and the
bytes that no place needs are zero. -/
theorem after_encodes_history (updates : List Update) :
    (after updates).bytes = (Fields.after updates).bytes ∧
    (after updates).Shows (lastWritten updates) ∧
    (∀ (u : Update) (field : Field),
      Bytes.slice field.start field.width ((after updates).update u).bytes =
        match u.written? field with
        | some value => Bytes.ofNat field.width value
        | none => Bytes.slice field.start field.width (after updates).bytes) ∧
    Bytes.slice 4 4 (after updates).bytes = Bytes.zeros 4 ∧
    Bytes.slice 16 3 (after updates).bytes = Bytes.zeros 3 := by
  have history : lastWritten updates = (Fields.after updates).value :=
    funext fun field => (Fields.value_after updates field).symm
  rw [← Fields.encode_after, history]
  refine ⟨rfl, Fields.shows_encode _, ?_, Fields.slice_gap _, Fields.slice_kind_front _⟩
  intro u field
  rw [Fields.encode_update, Fields.slice_encode, Fields.slice_encode, Fields.value_update]
  cases u.written? field with
  | none => rfl
  | some value => rfl

/-- A height written where a chain stood is the chain that is read, and the key pair is gone with
the old kind. -/
example : (after [.keyPair 2, .chain 7, .type .tree, .treeHeight 4]).chain = 4 ∧
    (after [.keyPair 2, .chain 7, .type .tree, .treeHeight 4]).keyPair = 0 := by decide

end HashSignature.Address
