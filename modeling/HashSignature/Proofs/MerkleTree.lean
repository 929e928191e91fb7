/-
# HashSignature.Proofs.MerkleTree — a tree built in place is the tree, and its paths lead to its root

`node` is the tree as a recursive value: a leaf, or the digest of two nodes one level down. The
trees of the library stand at an offset in a common numbering, so the index in a node's address is
the shifted offset plus the node's own index.

* `build_eq` — the builder returns the root and the siblings of the leaf's ancestors.
* `rootOf_eq` — the verifier returns the value that `ascent` climbs to.
* `ascent_path` — climbing from a leaf along its path ends at the root if the offset is aligned.
  The two numberings of the nodes agree only then.
-/
import HashSignature.Proofs.Address
import HashSignature.Proofs.Outcome
import HashSignature.MerkleTree

namespace HashSignature.MerkleTree

set_option autoImplicit false

open Outcome

variable {H : TweakableHash} {adrs adrs' : Address}

/-! ## The tree as a value -/

/-- The node of a level, counted from the left end of the tree that starts at `offset`. -/
def node (H : TweakableHash) (adrs : Address) (offset : Nat) (leaf : Nat → Bytes) :
    (level index : Nat) → Bytes
  | 0, index => leaf index
  | level + 1, index =>
    H.h (adrs.setLast (UInt32.ofNat (level + 1))
        (UInt32.ofNat (offset / 2 ^ (level + 1) + index)))
      (node H adrs offset leaf level (2 * index)) (node H adrs offset leaf level (2 * index + 1))

/-- The siblings of a leaf's ancestors on `more` levels from a level on. -/
def pathFrom (H : TweakableHash) (adrs : Address) (offset : Nat) (leaf : Nat → Bytes)
    (leafIndex level more : Nat) : List Bytes :=
  (List.range' level more).map fun z => node H adrs offset leaf z ((leafIndex / 2 ^ z) ^^^ 1)

theorem node_congr (alike : adrs.Alike adrs') (offset : Nat) (leaf : Nat → Bytes)
    (level index : Nat) :
    node H adrs offset leaf level index = node H adrs' offset leaf level index := by
  induction level generalizing index with
  | zero => rfl
  | succ level ih => rw [node, node, alike.setLast, ih, ih]

theorem pathFrom_congr (alike : adrs.Alike adrs') (offset : Nat) (leaf : Nat → Bytes)
    (leafIndex level more : Nat) :
    pathFrom H adrs offset leaf leafIndex level more =
      pathFrom H adrs' offset leaf leafIndex level more := by
  simp only [pathFrom, node_congr alike]

theorem length_node {offset : Nat} {leaf : Nat → Bytes} (full : ∀ i, (leaf i).length = H.n)
    (level index : Nat) : (node H adrs offset leaf level index).length = H.n := by
  cases level with
  | zero => exact full index
  | succ level => exact H.length_h _ _ _

theorem length_of_mem_pathFrom {offset : Nat} {leaf : Nat → Bytes}
    (full : ∀ i, (leaf i).length = H.n) {leafIndex level more : Nat} {block : Bytes}
    (member : block ∈ pathFrom H adrs offset leaf leafIndex level more) : block.length = H.n := by
  obtain ⟨_, -, rfl⟩ := List.mem_map.1 member
  exact length_node full _ _

@[simp] theorem length_pathFrom (offset : Nat) (leaf : Nat → Bytes) (leafIndex level more : Nat) :
    (pathFrom H adrs offset leaf leafIndex level more).length = more := by simp [pathFrom]

theorem length_flatten_pathFrom {offset : Nat} {leaf : Nat → Bytes}
    (full : ∀ i, (leaf i).length = H.n) (leafIndex level more : Nat) :
    (pathFrom H adrs offset leaf leafIndex level more).flatten.length = more * H.n := by
  rw [Bytes.length_flatten_of fun block => length_of_mem_pathFrom full, length_pathFrom]

/-- A path is cut into its nodes. -/
theorem blocks_pathFrom {offset : Nat} {leaf : Nat → Bytes} (full : ∀ i, (leaf i).length = H.n)
    (leafIndex level more : Nat) :
    Bytes.blocks H.n more (pathFrom H adrs offset leaf leafIndex level more).flatten =
      pathFrom H adrs offset leaf leafIndex level more :=
  Bytes.blocks_flatten (length_pathFrom _ _ _ _ _) fun _ => length_of_mem_pathFrom full

/-! ## Bounds -/

theorem checkBounds_of {height : Nat} {offset leafIndex : UInt32} (low : height ≤ 31)
    (inside : leafIndex.toNat < 2 ^ height) (ends : offset.toNat + 2 ^ height ≤ 2 ^ 32) :
    checkBounds height offset leafIndex = .ok () := by
  obtain ⟨width, shifted, width_eq⟩ := shl64_one_eq (show height < 64 by omega)
  have offset_eq : offset.toUInt64.toNat = offset.toNat := rfl
  have leaf_eq : leafIndex.toUInt64.toNat = leafIndex.toNat := rfl
  have sum : (offset.toUInt64 + width).toNat = offset.toNat + 2 ^ height := by
    rw [UInt64.toNat_add, offset_eq, width_eq, Nat.mod_eq_of_lt (by omega)]
  rw [checkBounds, if_neg (by rw [maxHeight]; omega), shifted, ok_bind,
    if_neg (by rw [UInt64.le_iff_toNat_le, width_eq, leaf_eq]; omega),
    add64_of_lt (by rw [offset_eq, width_eq]; omega), ok_bind, if_neg (by rw [sum]; omega),
    pure_eq_ok]

/-- The tree is too high, the leaf is not one of its leaves, or it ends behind the last index. -/
def Outside (height : Nat) (offset leafIndex : UInt32) : Prop :=
  31 < height ∨ 2 ^ height ≤ leafIndex.toNat ∨ 2 ^ 32 < offset.toNat + 2 ^ height

/-- What does not fit the numbering is refused with the number of the leaf behind the offset. The
power of two is looked at only for heights that have one. -/
theorem checkBounds_of_outside {height : Nat} {offset leafIndex : UInt32}
    (outside : Outside height offset leafIndex) :
    checkBounds height offset leafIndex = refuse
      (.invalidTree (UInt32.ofNat height) (offset.toUInt64 + leafIndex.toUInt64)) := by
  by_cases high : maxHeight < height
  · rw [checkBounds, if_pos high]
  · have low : height ≤ 31 := Nat.not_lt.1 high
    have offset_lt := offset.toNat_lt
    have power : 2 ^ height ≤ 2 ^ 31 := Nat.pow_le_pow_right (by decide) low
    obtain ⟨width, shifted, width_eq⟩ := shl64_one_eq (show height < 64 by omega)
    have offset_eq : offset.toUInt64.toNat = offset.toNat := rfl
    have leaf_eq : leafIndex.toUInt64.toNat = leafIndex.toNat := rfl
    rw [checkBounds, if_neg high, shifted, ok_bind]
    by_cases behind : 2 ^ height ≤ leafIndex.toNat
    · rw [if_pos (by rw [UInt64.le_iff_toNat_le, width_eq, leaf_eq]; exact behind)]
    · have ends : 2 ^ 32 < offset.toNat + 2 ^ height := by
        rcases outside with above | past | ends
        · exact absurd above high
        · exact absurd past behind
        · exact ends
      have sum : (offset.toUInt64 + width).toNat = offset.toNat + 2 ^ height := by
        rw [UInt64.toNat_add, offset_eq, width_eq, Nat.mod_eq_of_lt (by omega)]
      rw [if_neg (by rw [UInt64.le_iff_toNat_le, width_eq, leaf_eq]; exact behind),
        add64_of_lt (by rw [offset_eq, width_eq]; omega), ok_bind, if_pos (by rw [sum]; exact ends)]

theorem checkPath_of {n height length : Nat} (small : height * n < 2 ^ 64)
    (exact : length = height * n) : checkPath n height length = .ok () := by
  rw [checkPath, size_of_lt small, ok_bind, if_pos exact, pure_eq_ok]

theorem checkPath_of_ne {n height length : Nat} (small : height * n < 2 ^ 64)
    (wrong : length ≠ height * n) : checkPath n height length =
      refuse (.invalidLength "authentication path" (height * n) length) := by
  rw [checkPath, size_of_lt small, ok_bind, if_neg wrong]

/-! ## Building -/

@[simp] theorem setTreeIndex_setTreeIndex (adrs : Address) (old new : UInt32) :
    (adrs.setTreeIndex old).setTreeIndex new = adrs.setTreeIndex new :=
  adrs.setHash_setHash old new

/-- A level is paired up from the node with number `index` on. -/
theorem pairUp_eq (f : Nat → Bytes) {base : UInt32} (index count : Nat)
    (fits : base.toNat + index + count ≤ 2 ^ 32) (adrs : Address) :
    ∃ left, pairUp H base (UInt32.ofNat index) adrs ((List.range' (2 * index) (2 * count)).map f) =
      .ok ((List.range' index count).map fun i =>
        H.h (adrs.setTreeIndex (UInt32.ofNat (base.toNat + i))) (f (2 * i)) (f (2 * i + 1)), left) ∧
        left.Alike adrs := by
  induction count generalizing index adrs with
  | zero => exact ⟨adrs, by simp [pairUp], rfl⟩
  | succ count ih =>
      have index_eq : (UInt32.ofNat index).toNat = index := by
        rw [UInt32.toNat_ofNat', Nat.mod_eq_of_lt (by omega)]
      have sum : base + UInt32.ofNat index = UInt32.ofNat (base.toNat + index) := by
        rw [UInt32.ofNat_add, UInt32.ofNat_toNat]
      obtain ⟨left, others, alike⟩ := ih (index + 1) (by omega)
        (adrs.setTreeIndex (UInt32.ofNat (base.toNat + index)))
      refine ⟨left, ?_, alike.trans (Address.alike_setTreeIndex _ _)⟩
      have next : UInt32.ofNat index + 1 = UInt32.ofNat (index + 1) := (UInt32.ofNat_add _ _).symm
      rw [show 2 * (count + 1) = 2 * count + 1 + 1 by omega, List.range'_succ, List.range'_succ,
        List.map_cons, List.map_cons, pairUp, add32_of_lt (by omega), ok_bind, sum, next,
        show 2 * index + 1 + 1 = 2 * (index + 1) by omega]
      simp only []
      rw [others, ok_bind, List.range'_succ, List.map_cons]
      simp only [setTreeIndex_setTreeIndex, pure_eq_ok]

theorem xor_one_lt {index more : Nat} (lt : index < 2 ^ (more + 1)) : index ^^^ 1 < 2 ^ (more + 1) :=
  Nat.xor_lt_two_pow lt (Nat.one_lt_two_pow (by omega))

theorem sibling_eq {leafIndex : UInt32} {level more : Nat} (f : Nat → Bytes) (low : level < 32)
    (inside : leafIndex.toNat < 2 ^ (level + (more + 1))) :
    sibling leafIndex level ((List.range (2 ^ (more + 1))).map f) =
      .ok (f ((leafIndex.toNat / 2 ^ level) ^^^ 1)) := by
  obtain ⟨position, shifted, position_eq⟩ := shr32_eq leafIndex low
  have lt : leafIndex.toNat / 2 ^ level < 2 ^ (more + 1) := by
    rw [Nat.div_lt_iff_lt_mul (Nat.two_pow_pos _), ← Nat.pow_add, Nat.add_comm]; exact inside
  have index_eq : (position ^^^ 1).toNat = (leafIndex.toNat / 2 ^ level) ^^^ 1 := by
    rw [UInt32.toNat_xor, position_eq]; rfl
  rw [sibling, shifted, ok_bind, index_eq, List.getElem?_map, List.getElem?_range (xor_one_lt lt)]
  rfl

/-- One level up, once each of its steps is known. -/
theorem climb_succ {offset leafIndex base : UInt32} {withPath : Bool} {more level : Nat}
    {nodes above : List Bytes} {beside : Bytes} {between : Address} {built : Built}
    (taken : (if withPath then sibling leafIndex level nodes else .ok []) = .ok beside)
    (shifted : shr32 offset (level + 1) = .ok base)
    (paired : pairUp H base 0 (adrs.setTreeHeight (UInt32.ofNat (level + 1))) nodes =
      .ok (above, between))
    (climbed : climb H offset leafIndex withPath more (level + 1) between above = .ok built) :
    climb H offset leafIndex withPath (more + 1) level adrs nodes =
      .ok { built with path := beside ++ built.path } := by
  rw [climb]
  cases withPath with
  | true =>
      rw [if_pos rfl] at taken
      rw [if_pos rfl, taken]
      simp only [shifted, paired, climbed, ok_bind, pure_eq_ok]
  | false =>
      obtain rfl : [] = beside := Except.ok.inj taken
      rw [if_neg Bool.false_ne_true]
      simp only [shifted, paired, climbed, ok_bind, pure_eq_ok]

/-- A complete level, as the pairs of its nodes. -/
theorem map_range_pairs (f : Nat → Bytes) (more : Nat) :
    (List.range (2 ^ (more + 1))).map f = (List.range' (2 * 0) (2 * 2 ^ more)).map f := by
  rw [List.range_eq_range', Nat.pow_succ, Nat.mul_comm 2 (2 ^ more)]

/-- The nodes of the next level have numbers. -/
theorem base_add_le {offset base : UInt32} {level more : Nat}
    (base_eq : base.toNat = offset.toNat / 2 ^ (level + 1))
    (ends : offset.toNat + 2 ^ (level + 1 + more) ≤ 2 ^ 32) :
    base.toNat + 0 + 2 ^ more ≤ 2 ^ 32 := by
  have power : 2 ^ more ≤ 2 ^ (level + 1 + more) := Nat.pow_le_pow_right (by decide) (by omega)
  have le : offset.toNat / 2 ^ (level + 1) ≤ offset.toNat := Nat.div_le_self _ _
  omega

/-- Pairing up a complete level gives the level above it. -/
theorem pairUp_level {offset base : UInt32} (leaf : Nat → Bytes) {level more : Nat}
    (base_eq : base.toNat = offset.toNat / 2 ^ (level + 1))
    (ends : offset.toNat + 2 ^ (level + 1 + more) ≤ 2 ^ 32) (adrs : Address) :
    ∃ left, pairUp H base 0 (adrs.setTreeHeight (UInt32.ofNat (level + 1)))
        ((List.range (2 ^ (more + 1))).map (node H adrs offset.toNat leaf level)) =
      .ok ((List.range (2 ^ more)).map (node H left offset.toNat leaf (level + 1)), left) ∧
        left.Alike adrs := by
  obtain ⟨left, paired, alike⟩ := pairUp_eq (H := H) (node H adrs offset.toNat leaf level) 0
    (2 ^ more) (base_add_le base_eq ends) (adrs.setTreeHeight (UInt32.ofNat (level + 1)))
  have alike_adrs : left.Alike adrs := alike.trans (Address.alike_setTreeHeight _ _)
  refine ⟨left, ?_, alike_adrs⟩
  rw [map_range_pairs, show (0 : UInt32) = UInt32.ofNat 0 from rfl, paired, List.range_eq_range']
  congr 2
  apply List.map_congr_left
  intro i _
  rw [node_congr alike_adrs, node, Address.setTreeHeight_setTreeIndex, base_eq]

/-- Climbing from a complete level builds the levels above it. -/
theorem climb_eq {offset leafIndex : UInt32} (leaf : Nat → Bytes) (withPath : Bool)
    (more level : Nat) (low : level + more ≤ 31) (inside : leafIndex.toNat < 2 ^ (level + more))
    (ends : offset.toNat + 2 ^ (level + more) ≤ 2 ^ 32) (adrs : Address) :
    ∃ left, climb H offset leafIndex withPath more level adrs
        ((List.range (2 ^ more)).map (node H adrs offset.toNat leaf level)) =
      .ok ⟨node H adrs offset.toNat leaf (level + more) 0,
        if withPath then
          (pathFrom H adrs offset.toNat leaf leafIndex.toNat level more).flatten else [], left⟩ ∧
        left.Alike adrs := by
  induction more generalizing level adrs with
  | zero => exact ⟨adrs, by simp [climb, pathFrom], rfl⟩
  | succ more ih =>
      have height : level + (more + 1) = level + 1 + more := by omega
      obtain ⟨base, shifted, base_eq⟩ := shr32_eq offset (show level + 1 < 32 by omega)
      obtain ⟨between, paired, alike⟩ := pairUp_level (H := H) leaf base_eq (height ▸ ends) adrs
      obtain ⟨left, built, alike'⟩ := ih (level + 1) (by omega) (height ▸ inside) (height ▸ ends)
        between
      refine ⟨left, ?_, alike'.trans alike⟩
      have taken : (if withPath then sibling leafIndex level ((List.range (2 ^ (more + 1))).map
          (node H adrs offset.toNat leaf level)) else .ok []) =
          .ok (if withPath then
            node H adrs offset.toNat leaf level ((leafIndex.toNat / 2 ^ level) ^^^ 1) else []) := by
        cases withPath with
        | true => exact sibling_eq _ (by omega) inside
        | false => rfl
      rw [climb_succ taken shifted paired built, height, node_congr alike, pathFrom_congr alike]
      cases withPath with
      | true =>
          rw [pathFrom, pathFrom, List.range'_succ, List.map_cons]
          rfl
      | false => rfl

/-- The builder returns the root, and the path of the leaf if it is asked for. -/
theorem build_eq {height : Nat} (offset leafIndex : UInt32) (room : Option Nat)
    {leaf : UInt32 → Outcome Bytes} {value : Nat → Bytes} (low : height ≤ 31)
    (inside : leafIndex.toNat < 2 ^ height) (ends : offset.toNat + 2 ^ height ≤ 2 ^ 32)
    (pos : 0 < H.n) (small : H.n ≤ 32)
    (asked : ∀ length, room = some length → length = height * H.n)
    (leaves : ∀ i < 2 ^ height, leaf (UInt32.ofNat i) = .ok (value i)) (adrs : Address) :
    ∃ left, build H adrs height offset leafIndex room leaf =
      .ok ⟨node H adrs offset.toNat value height 0,
        if room.isSome then
          (pathFrom H adrs offset.toNat value leafIndex.toNat 0 height).flatten else [], left⟩ ∧
        left.Alike adrs := by
  have width : height * H.n ≤ 31 * 32 := Nat.mul_le_mul low small
  have buffered : buffer (room.getD 0) = .ok () := by
    cases room with
    | none => exact buffer_of_le (Nat.zero_le _)
    | some length => exact buffer_of_le (by rw [Option.getD_some, asked length rfl, maxBuffer]; omega)
  have level : (List.range (2 ^ height)).mapM (fun i => leaf (UInt32.ofNat i)) =
      .ok ((List.range (2 ^ height)).map (node H adrs offset.toNat value 0)) :=
    mapM_eq_ok fun i member => leaves i (List.mem_range.1 member)
  obtain ⟨left, climbed, alike⟩ := climb_eq (H := H) value room.isSome height 0 (by omega)
    (by rwa [Nat.zero_add]) (by rwa [Nat.zero_add]) adrs
  refine ⟨left, ?_, alike⟩
  have rest : (do
      ensure (0 < H.n)
      let leaves ← (List.range (2 ^ height)).mapM fun i => leaf (UInt32.ofNat i)
      climb H offset leafIndex room.isSome height 0 adrs leaves) =
      .ok ⟨node H adrs offset.toNat value height 0,
        if room.isSome then
          (pathFrom H adrs offset.toNat value leafIndex.toNat 0 height).flatten else [], left⟩ := by
    rw [ensure_of pos, ok_bind, level, ok_bind, climbed, Nat.zero_add]
  rw [build, buffered, ok_bind, checkBounds_of low inside ends, ok_bind]
  cases room with
  | none => exact rest
  | some length =>
      simp only []
      rw [checkPath_of (by omega) (asked length rfl), ok_bind]
      exact rest

/-- No tree is built for a leaf outside it. -/
theorem build_of_outside {height : Nat} {offset leafIndex : UInt32} (room : Option Nat)
    (fits : room.getD 0 ≤ maxBuffer) (outside : Outside height offset leafIndex)
    (leaf : UInt32 → Outcome Bytes) (adrs : Address) :
    build H adrs height offset leafIndex room leaf = refuse
      (.invalidTree (UInt32.ofNat height) (offset.toUInt64 + leafIndex.toUInt64)) := by
  rw [build, buffer_of_le fits, ok_bind, checkBounds_of_outside outside, refuse_bind]

/-! ## Following a path -/

/-- The value that a node of a level climbs to with the nodes beside it. -/
def ascent (H : TweakableHash) (adrs : Address) (offset leafIndex : Nat) :
    (level : Nat) → (node : Bytes) → (path : List Bytes) → Bytes
  | _, node, [] => node
  | level, node, beside :: path =>
    let nodeAdrs := adrs.setLast (UInt32.ofNat (level + 1))
      (UInt32.ofNat ((offset + leafIndex) / 2 ^ (level + 1)))
    ascent H adrs offset leafIndex (level + 1)
      (if leafIndex / 2 ^ level % 2 = 0 then H.h nodeAdrs node beside
        else H.h nodeAdrs beside node) path

theorem ascent_congr (alike : adrs.Alike adrs') (offset leafIndex level : Nat) (node : Bytes)
    (path : List Bytes) :
    ascent H adrs offset leafIndex level node path =
      ascent H adrs' offset leafIndex level node path := by
  induction path generalizing level node with
  | nil => rfl
  | cons beside path ih => rw [ascent, ascent, alike.setLast, ih]

theorem length_ascent {offset leafIndex level : Nat} {node : Bytes} {path : List Bytes}
    (length : node.length = H.n) :
    (ascent H adrs offset leafIndex level node path).length = H.n := by
  induction path generalizing level node with
  | nil => exact length
  | cons beside path ih =>
      apply ih
      split <;> exact H.length_h _ _ _

/-- The lowest bit of a position says whether it is even. -/
theorem even_position {leafIndex position : UInt32} {level : Nat}
    (position_eq : position.toNat = leafIndex.toNat / 2 ^ level) :
    position &&& 1 = 0 ↔ leafIndex.toNat / 2 ^ level % 2 = 0 := by
  rw [← UInt32.toNat_inj, UInt32.toNat_and, position_eq,
    show (1 : UInt32).toNat = 2 ^ 1 - 1 from rfl, Nat.and_two_pow_sub_one_eq_mod]
  rfl

/-- Following a path takes the turns that the bits of the leaf's index say. -/
theorem follow_eq {offset leafIndex globalIndex : UInt32}
    (global : globalIndex.toNat = offset.toNat + leafIndex.toNat) (path : List Bytes) (level : Nat)
    (low : level + path.length ≤ 31) (node : Bytes) (adrs : Address) :
    ∃ left, follow H leafIndex globalIndex level adrs node path =
      .ok (ascent H adrs offset.toNat leafIndex.toNat level node path, left) ∧ left.Alike adrs := by
  induction path generalizing level node adrs with
  | nil => exact ⟨adrs, rfl, rfl⟩
  | cons beside path ih =>
      rw [List.length_cons] at low
      obtain ⟨index, shifted, index_eq⟩ := shr32_eq globalIndex (show level + 1 < 32 by omega)
      obtain ⟨position, shifted', position_eq⟩ := shr32_eq leafIndex (show level < 32 by omega)
      have index_word : index = UInt32.ofNat ((offset.toNat + leafIndex.toNat) / 2 ^ (level + 1)) := by
        rw [← global, ← index_eq, UInt32.ofNat_toNat]
      have turn := even_position position_eq
      let nodeAdrs := adrs.setLast (UInt32.ofNat (level + 1)) index
      obtain ⟨left, followed, alike⟩ := ih (level + 1) (by omega)
        (if position &&& 1 = 0 then H.h nodeAdrs node beside else H.h nodeAdrs beside node) nodeAdrs
      refine ⟨left, ?_, alike.trans (Address.alike_setLast _ _ _)⟩
      rw [follow, shifted, ok_bind, Address.setTreeHeight_setTreeIndex]
      simp only []
      rw [shifted', ok_bind, followed, ascent_congr (Address.alike_setLast _ _ _), ascent]
      simp only [turn, nodeAdrs, index_word]

/-- The verifier returns what the leaf climbs to. -/
theorem rootOf_eq {height : Nat} (offset leafIndex : UInt32) (leaf path : Bytes) (low : height ≤ 31)
    (inside : leafIndex.toNat < 2 ^ height) (ends : offset.toNat + 2 ^ height ≤ 2 ^ 32)
    (pos : 0 < H.n) (small : H.n ≤ 32) (length : leaf.length = H.n)
    (path_length : path.length = height * H.n) (adrs : Address) :
    ∃ left, rootOf H adrs height offset leafIndex leaf path =
      .ok (ascent H adrs offset.toNat leafIndex.toNat 0 leaf (Bytes.blocks H.n height path), left) ∧
        left.Alike adrs := by
  have width : height * H.n ≤ 31 * 32 := Nat.mul_le_mul low small
  have sum : (offset + leafIndex).toNat = offset.toNat + leafIndex.toNat := by
    rw [UInt32.toNat_add, Nat.mod_eq_of_lt (by omega)]
  obtain ⟨left, followed, alike⟩ := follow_eq (H := H) sum (Bytes.blocks H.n height path) 0
    (by rw [Bytes.length_blocks]; omega) leaf adrs
  refine ⟨left, ?_, alike⟩
  rw [rootOf, checkBounds_of low inside ends, ok_bind, checkPath_of (by omega) path_length, ok_bind,
    ensure_of pos, ok_bind, exactly_of_eq length, ok_bind, add32_of_lt (by omega), ok_bind, followed]

/-- No path is followed from a leaf outside its tree. -/
theorem rootOf_of_outside {height : Nat} {offset leafIndex : UInt32}
    (outside : Outside height offset leafIndex) (leaf path : Bytes) (adrs : Address) :
    rootOf H adrs height offset leafIndex leaf path = refuse
      (.invalidTree (UInt32.ofNat height) (offset.toUInt64 + leafIndex.toUInt64)) := by
  rw [rootOf, checkBounds_of_outside outside, refuse_bind]

/-! ## Paths lead to the root -/

theorem xor_one_two_mul (j : Nat) : 2 * j ^^^ 1 = 2 * j + 1 := by
  have half : (2 * j ^^^ 1) / 2 = j := by rw [Nat.xor_div_two]; simp
  have parity : (2 * j ^^^ 1) % 2 = 1 := by rw [Nat.xor_mod_two_eq_one]; omega
  omega

theorem xor_one_two_mul_add_one (j : Nat) : (2 * j + 1) ^^^ 1 = 2 * j := by
  have half : ((2 * j + 1) ^^^ 1) / 2 = j := by rw [Nat.xor_div_two]; simp; omega
  have parity : ¬((2 * j + 1) ^^^ 1) % 2 = 1 := by rw [Nat.xor_mod_two_eq_one]; omega
  omega

/-- Under an aligned offset the numbers of a leaf's ancestors in the common numbering are those in
the tree, moved by the shifted offset. -/
theorem add_div_of_dvd {offset level : Nat} (aligned : 2 ^ level ∣ offset) (leafIndex : Nat) :
    (offset + leafIndex) / 2 ^ level = offset / 2 ^ level + leafIndex / 2 ^ level := by
  obtain ⟨tree, rfl⟩ := aligned
  rw [Nat.mul_add_div (Nat.two_pow_pos _), Nat.mul_div_cancel_left _ (Nat.two_pow_pos _)]

/-- A node climbs with the siblings of a leaf's ancestors to the leaf's ancestor above. -/
theorem ascent_pathFrom (adrs : Address) (offset : Nat) (leaf : Nat → Bytes)
    (leafIndex level more : Nat)
    (aligned : 2 ^ (level + more) ∣ offset) :
    ascent H adrs offset leafIndex level (node H adrs offset leaf level (leafIndex / 2 ^ level))
        (pathFrom H adrs offset leaf leafIndex level more) =
      node H adrs offset leaf (level + more) (leafIndex / 2 ^ (level + more)) := by
  induction more generalizing level with
  | zero => rfl
  | succ more ih =>
      have half : leafIndex / 2 ^ (level + 1) = leafIndex / 2 ^ level / 2 := by
        rw [Nat.pow_succ, Nat.div_div_eq_div_mul]
      have here : 2 ^ (level + 1) ∣ offset :=
        Nat.dvd_trans (Nat.pow_dvd_pow 2 (by omega)) aligned
      rw [show level + (more + 1) = level + 1 + more by omega] at aligned ⊢
      rw [← ih _ aligned, pathFrom, List.range'_succ, List.map_cons, ascent, ← pathFrom, node,
        add_div_of_dvd here, half]
      generalize leafIndex / 2 ^ level = index
      obtain ⟨j, even | odd⟩ : ∃ j, index = 2 * j ∨ index = 2 * j + 1 := ⟨index / 2, by omega⟩
      · rw [even, Nat.mul_mod_right, if_pos rfl, Nat.mul_div_cancel_left _ (by decide),
          xor_one_two_mul]
      · rw [odd, if_neg (by omega), show (2 * j + 1) / 2 = j by omega, xor_one_two_mul_add_one]

/-- A leaf climbs along its path to the root. -/
theorem ascent_path (adrs : Address) {offset : Nat} (leaf : Nat → Bytes) {leafIndex height : Nat}
    (aligned : 2 ^ height ∣ offset) (inside : leafIndex < 2 ^ height) :
    ascent H adrs offset leafIndex 0 (leaf leafIndex)
        (pathFrom H adrs offset leaf leafIndex 0 height) = node H adrs offset leaf height 0 := by
  have climbed := ascent_pathFrom (H := H) adrs offset leaf leafIndex 0 height
    (by rwa [Nat.zero_add])
  rwa [Nat.zero_add, Nat.div_eq_of_lt inside, Nat.pow_zero, Nat.div_one] at climbed

end HashSignature.MerkleTree
