/-
# HashSignature.Proofs.InPlace — a tree built over its own leaves is the tree

The builder that works in one buffer is followed by an invariant on that buffer. While a level is
paired up the arena holds, in this order, the parents that are made, a gap that nobody reads again,
and the nodes that are still to be paired up; the gap is as long as the parents, so a parent never
covers a node of a later pair. A node of the path is copied while its whole level still stands.

* `hashPairs_eq` — pairing up in the arena writes the nodes that `pairUp` returns.
* `raise_eq` — the levels that are built in the arena are those that `climb` builds.
* `buildIn_eq` — what the buffers receive is what `build` returns.
* `buildIn_arena` — a tree that passes the checks does not depend on what the arena held.
* `rootIn_eq` — what is written when a path is followed is what `rootOf` returns.
* `builds_merkle_tree` — both builders give the root and the path of the Merkle tree.
-/
import HashSignature.MerkleTree.InPlace
import HashSignature.Proofs.Fields
import HashSignature.Proofs.MerkleTree
import HashSignature.Tweakable.Shake

namespace HashSignature.MerkleTree

set_option autoImplicit false

open Outcome

variable {H : TweakableHash} {n : Nat}

/-! ## Blocks of a buffer -/

theorem blockAt_eq {number : Nat} {buffer : Bytes} (inside : (number + 1) * n ≤ buffer.length) :
    blockAt n number buffer = .ok (Bytes.slice (number * n) n buffer) := by
  rw [blockAt, ensure_of inside, ok_bind, pure_eq_ok]

theorem blockAt_append {number : Nat} {front block back : Bytes} (length : front.length = number * n)
    (block_length : block.length = n) : blockAt n number (front ++ (block ++ back)) = .ok block := by
  have inside : (number + 1) * n ≤ (front ++ (block ++ back)).length := by
    rw [Nat.succ_mul, List.length_append, List.length_append]; omega
  rw [blockAt, ensure_of inside, ok_bind, pure_eq_ok, Bytes.slice_of_append length block_length]

/-- A node among those in front of a buffer is read at its number. -/
theorem blockAt_flatten {nodes : List Bytes} (full : ∀ node ∈ nodes, node.length = n) (tail : Bytes)
    {number : Nat} {node : Bytes} (found : nodes[number]? = some node) :
    blockAt n number (nodes.flatten ++ tail) = .ok node := by
  have below := Nat.mul_le_mul_right n
    (show number + 1 ≤ nodes.length from (List.getElem?_eq_some_iff.1 found).1)
  rw [← Bytes.length_flatten_of full] at below
  rw [blockAt_eq (by rw [List.length_append]; omega), Bytes.slice_append_left (by
    rw [Nat.succ_mul] at below; omega), Bytes.slice_flatten full found]

/-- A block covers as much of what stands behind a string as it is long. -/
theorem putBlock_append {number : Nat} {front behind block : Bytes}
    (length : front.length = number * n) (enough : n ≤ behind.length)
    (block_length : block.length = n) :
    putBlock n number block (front ++ behind) = .ok (front ++ (block ++ behind.drop n)) := by
  have inside : (number + 1) * n ≤ (front ++ behind).length := by
    rw [Nat.succ_mul, List.length_append]; omega
  have covered : (behind.take n).length = n := by rw [List.length_take]; omega
  rw [putBlock, ensure_of ⟨block_length, inside⟩, ok_bind, pure_eq_ok]
  conv => lhs; rw [← List.take_append_drop n behind]
  rw [Bytes.overwrite_append length (block_length.trans covered.symm)]

namespace Building

/-! ## Steps -/

variable {α : Type} (work : Workspace)

theorem ofOutcome_of {outcome : Outcome α} {a : α} (ended : outcome = .ok a) :
    ofOutcome outcome work = (.ok a, work) := by rw [ofOutcome, ended]

theorem node_of {number : Nat} {block : Bytes} (found : blockAt n number work.arena = .ok block) :
    node n number work = (.ok block, work) := by
  rw [node, get_bind, ofOutcome_of work found]

theorem setNode_of {number : Nat} {block arena : Bytes}
    (put : putBlock n number block work.arena = .ok arena) :
    setNode n number block work = (.ok ⟨⟩, { work with arena }) := by
  rw [setNode, get_bind, bind_of_run (ofOutcome_of work put)]
  rfl

theorem saveRoot_of {root : Bytes} (room : work.root.length = n) :
    saveRoot n root work = (.ok ⟨⟩, { work with root }) := by
  rw [saveRoot, get_bind, bind_of_run (ofOutcome_of work (ensure_of room))]
  rfl

end Building

open Building

/-! ## Leaves -/

/-- The leaves fill the rest of the arena, whatever stood there. -/
theorem fillLeaves_eq {leaf : UInt32 → Outcome Bytes} {count index : Nat} {leaves : List Bytes}
    (made : (List.range' index count).mapM (fun i => leaf (UInt32.ofNat i)) = .ok leaves)
    (full : ∀ block ∈ leaves, block.length = n) {done rest : Bytes}
    (done_length : done.length = index * n) (rest_length : rest.length = count * n)
    (work : Workspace) (arena : work.arena = done ++ rest) :
    fillLeaves n leaf count index work =
      (.ok ⟨⟩, { work with arena := done ++ leaves.flatten }) := by
  induction count generalizing index leaves done rest work with
  | zero =>
      obtain rfl : [] = leaves := Except.ok.inj made
      rw [Nat.zero_mul, List.length_eq_zero_iff] at rest_length
      rw [fillLeaves, List.flatten_nil, ← rest_length, ← arena]
      rfl
  | succ count ih =>
      rw [List.range'_succ, List.mapM_cons] at made
      obtain ⟨block, here, made⟩ := bind_eq_ok.1 made
      obtain ⟨others, later, made⟩ := bind_eq_ok.1 made
      obtain rfl : block :: others = leaves := Except.ok.inj made
      rw [Nat.succ_mul] at rest_length
      have block_length : block.length = n := full block (by simp)
      have put : putBlock n index block work.arena = .ok (done ++ (block ++ rest.drop n)) := by
        rw [arena]
        exact putBlock_append done_length (by omega) block_length
      rw [fillLeaves, bind_of_run (ofOutcome_of work here), bind_of_run (setNode_of work put),
        ih later (fun other member => full other (by simp [member]))
          (by rw [List.length_append, Nat.succ_mul]; omega) (by rw [List.length_drop]; omega) _
          (List.append_assoc _ _ _).symm,
        List.flatten_cons, List.append_assoc]

/-! ## Pairs -/

/-- An even number of nodes is none, or a pair and an even number of nodes. -/
theorem exists_pair {nodes : List Bytes} {count : Nat} (length : nodes.length = 2 * (count + 1)) :
    ∃ first second rest, nodes = first :: second :: rest ∧ rest.length = 2 * count := by
  match nodes, length with
  | first :: second :: rest, length =>
      rw [List.length_cons, List.length_cons] at length
      exact ⟨first, second, rest, rfl, by omega⟩

/-- What pairing up a level does first, and what it leaves to do. -/
theorem pairUp_cons {base : UInt32} {index : Nat} {adrs left : Address} {first second : Bytes}
    {rest above : List Bytes}
    (paired : pairUp H base (UInt32.ofNat index) adrs (first :: second :: rest) = .ok (above, left)) :
    ∃ number others, add32 base (UInt32.ofNat index) = .ok number ∧
      pairUp H base (UInt32.ofNat (index + 1)) (adrs.setTreeIndex number) rest =
        .ok (others, left) ∧ above = H.h (adrs.setTreeIndex number) first second :: others := by
  rw [pairUp] at paired
  obtain ⟨number, numbered, paired⟩ := bind_eq_ok.1 paired
  obtain ⟨⟨others, _⟩, later, paired⟩ := bind_eq_ok.1 paired
  obtain ⟨rfl, rfl⟩ := Prod.mk.inj (Except.ok.inj paired)
  exact ⟨number, others, numbered, by rw [UInt32.ofNat_add]; exact later, rfl⟩

/-- A level that is paired up gives half as many nodes of full length. -/
theorem shape_of_pairUp {base : UInt32} {count : Nat} {adrs left : Address}
    {nodes above : List Bytes} (index : Nat) (length : nodes.length = 2 * count)
    (paired : pairUp H base (UInt32.ofNat index) adrs nodes = .ok (above, left)) :
    above.length = count ∧ ∀ node ∈ above, node.length = H.n := by
  induction count generalizing index adrs nodes above with
  | zero =>
      obtain rfl := List.length_eq_zero_iff.1 length
      obtain rfl : [] = above := congrArg Prod.fst (Except.ok.inj paired)
      exact ⟨rfl, by simp⟩
  | succ count ih =>
      obtain ⟨first, second, rest, rfl, rest_length⟩ := exists_pair length
      obtain ⟨number, others, -, later, rfl⟩ := pairUp_cons paired
      obtain ⟨count_eq, full⟩ := ih _ rest_length later
      refine ⟨by rw [List.length_cons, count_eq], ?_⟩
      intro node member
      rcases List.mem_cons.1 member with rfl | inside
      · exact H.length_h _ _ _
      · exact full node inside

/-- One pair is replaced by its parent, once each of the steps is known. -/
theorem hashPairs_succ {base number : UInt32} {count index : Nat}
    {first second parent arena : Bytes} (work : Workspace)
    (numbered : add32 base (UInt32.ofNat index) = .ok number)
    (at_first : blockAt H.n (2 * index) work.arena = .ok first)
    (at_second : blockAt H.n (2 * index + 1) work.arena = .ok second)
    (hashed : H.h (work.adrs.setTreeIndex number) first second = parent)
    (put : putBlock H.n index parent work.arena = .ok arena) :
    hashPairs H base (count + 1) index work = hashPairs H base count (index + 1)
      { work with adrs := work.adrs.setTreeIndex number, arena } := by
  let named : Workspace := { work with adrs := work.adrs.setTreeIndex number }
  rw [hashPairs, bind_of_run (ofOutcome_of work numbered), modify_bind,
    bind_of_run (node_of named at_first), bind_of_run (node_of named at_second), get_bind, hashed,
    bind_of_run (setNode_of named put)]

/-- Pairs are replaced by their parents from the front on. Behind the parents that are `done` stands
a gap as long as they are, what is left of the pairs that they were made of, and then the pairs to
come. -/
theorem hashPairs_eq {base : UInt32} {count index : Nat} {nodes above : List Bytes}
    {left : Address} (full : ∀ node ∈ nodes, node.length = H.n) (length : nodes.length = 2 * count)
    (work : Workspace)
    (paired : pairUp H base (UInt32.ofNat index) work.adrs nodes = .ok (above, left))
    (done gap tail : Bytes) (done_length : done.length = index * H.n)
    (gap_length : gap.length = index * H.n)
    (arena : work.arena = done ++ (gap ++ (nodes.flatten ++ tail))) :
    ∃ rest, hashPairs H base count index work =
      (.ok ⟨⟩, { work with adrs := left, arena := done ++ (above.flatten ++ rest) }) := by
  induction count generalizing index nodes above work done gap with
  | zero =>
      obtain rfl := List.length_eq_zero_iff.1 length
      obtain ⟨rfl, rfl⟩ := Prod.mk.inj (Except.ok.inj paired)
      exact ⟨gap ++ tail, by cases work; cases arena; rfl⟩
  | succ count ih =>
      obtain ⟨first, second, others, rfl, others_length⟩ := exists_pair length
      obtain ⟨number, parents, numbered, later, rfl⟩ := pairUp_cons paired
      have first_length : first.length = H.n := full first (by simp)
      have second_length : second.length = H.n := full second (by simp)
      have double : 2 * index * H.n = index * H.n + index * H.n := by rw [Nat.mul_assoc]; omega
      have at_first : blockAt H.n (2 * index) work.arena = .ok first := by
        rw [arena, List.flatten_cons, List.append_assoc, ← List.append_assoc]
        exact blockAt_append (by rw [List.length_append]; omega) first_length
      have at_second : blockAt H.n (2 * index + 1) work.arena = .ok second := by
        rw [arena, List.flatten_cons, List.flatten_cons, List.append_assoc, List.append_assoc,
          ← List.append_assoc, ← List.append_assoc]
        refine blockAt_append ?_ second_length
        rw [List.length_append, List.length_append, Nat.succ_mul]
        omega
      generalize parent_eq : H.h (work.adrs.setTreeIndex number) first second = parent
      have parent_length : parent.length = H.n := parent_eq ▸ H.length_h _ _ _
      -- the parent covers the front of the gap, or of its own pair if there is no gap yet
      generalize behind_eq : gap ++ (first ++ second) = behind
      have behind_length : behind.length = index * H.n + (H.n + H.n) := by
        rw [← behind_eq, List.length_append, List.length_append]; omega
      have put : putBlock H.n index parent work.arena =
          .ok (done ++ (parent ++ (behind.drop H.n ++ (others.flatten ++ tail)))) := by
        have arena_eq : work.arena = done ++ (behind ++ (others.flatten ++ tail)) := by
          rw [arena, ← behind_eq]
          simp only [List.flatten_cons, List.append_assoc]
        rw [arena_eq, ← List.drop_append_of_le_length (by omega)]
        exact putBlock_append done_length (by rw [List.length_append]; omega) parent_length
      obtain ⟨rest, made⟩ := ih (fun node member => full node (by simp [member])) others_length
        { work with
          adrs := work.adrs.setTreeIndex number
          arena := done ++ (parent ++ (behind.drop H.n ++ (others.flatten ++ tail))) }
        later (done ++ parent) (behind.drop H.n)
        (by rw [List.length_append, Nat.succ_mul]; omega)
        (by rw [List.length_drop, Nat.succ_mul]; omega) (by rw [List.append_assoc])
      refine ⟨rest, ?_⟩
      rw [hashPairs_succ work numbered at_first at_second parent_eq put, made, List.flatten_cons,
        List.append_assoc, List.append_assoc]

/-! ## Levels -/

/-- What climbing a level does first, and what it leaves to do. -/
theorem climb_cases {offset leafIndex : UInt32} {withPath : Bool} {more level : Nat}
    {adrs : Address} {nodes : List Bytes} {built : Built}
    (climbed : climb H offset leafIndex withPath (more + 1) level adrs nodes = .ok built) :
    ∃ beside base above between upper,
      (if withPath then sibling leafIndex level nodes else .ok []) = .ok beside ∧
      shr32 offset (level + 1) = .ok base ∧
      pairUp H base 0 (adrs.setTreeHeight (UInt32.ofNat (level + 1))) nodes =
        .ok (above, between) ∧
      climb H offset leafIndex withPath more (level + 1) between above = .ok upper ∧
      built = { upper with path := beside ++ upper.path } := by
  rw [climb, ite_bind] at climbed
  obtain ⟨beside, taken, climbed⟩ := bind_eq_ok.1 climbed
  obtain ⟨base, shifted, climbed⟩ := bind_eq_ok.1 climbed
  obtain ⟨⟨above, between⟩, paired, climbed⟩ := bind_eq_ok.1 climbed
  obtain ⟨upper, later, climbed⟩ := bind_eq_ok.1 climbed
  exact ⟨beside, base, above, between, upper, taken, shifted, paired, later,
    (Except.ok.inj climbed).symm⟩

/-- The node beside a path is one of its level. -/
theorem mem_of_sibling {leafIndex : UInt32} {level : Nat} {nodes : List Bytes} {beside : Bytes}
    (taken : sibling leafIndex level nodes = .ok beside) :
    ∃ position, shr32 leafIndex level = .ok position ∧
      nodes[(position ^^^ 1).toNat]? = some beside := by
  obtain ⟨position, shifted, taken⟩ := bind_eq_ok.1 taken
  refine ⟨position, shifted, ?_⟩
  split at taken
  case h_1 node found => rw [found, Except.ok.inj taken]
  case h_2 => exact absurd taken (broken_ne_ok beside)

/-- The path with the node of one level filled in. -/
def fillPath (n level : Nat) (beside path : Bytes) : Bytes :=
  path.take (level * n) ++ (beside ++ path.drop ((level + 1) * n))

/-- The node beside the path is copied out of the arena before its level is written over. -/
theorem savePath_eq {leafIndex : UInt32} {level : Nat} {nodes : List Bytes} {beside : Bytes}
    (full : ∀ node ∈ nodes, node.length = n) (work : Workspace) (tail : Bytes)
    (arena : work.arena = nodes.flatten ++ tail)
    (room : ∀ path ∈ work.path?, (level + 1) * n ≤ path.length)
    (taken : (if work.path?.isSome then sibling leafIndex level nodes else .ok []) = .ok beside) :
    savePath n leafIndex level work =
      (.ok ⟨⟩, { work with path? := work.path?.map (fillPath n level beside) }) := by
  rw [savePath, get_bind]
  cases asked : work.path? with
  | none => rw [← asked]; cases work; cases asked; rfl
  | some path =>
      rw [asked, Option.isSome_some, if_pos rfl] at taken
      obtain ⟨position, shifted, found⟩ := mem_of_sibling taken
      have fits := room path asked
      rw [Nat.succ_mul] at fits
      have put : putBlock n level beside path = .ok (fillPath n level beside path) := by
        conv => lhs; rw [← List.take_append_drop (level * n) path]
        rw [putBlock_append (by rw [List.length_take]; omega) (by rw [List.length_drop]; omega)
          (full beside (List.mem_of_getElem? found)), List.drop_drop, fillPath, Nat.succ_mul]
      simp only []
      rw [bind_of_run (ofOutcome_of work shifted),
        bind_of_run (node_of work (arena ▸ blockAt_flatten full tail found)),
        bind_of_run (ofOutcome_of work put)]
      rfl

theorem length_fillPath {level : Nat} {beside path : Bytes} (length : beside.length = n)
    (room : (level + 1) * n ≤ path.length) : (fillPath n level beside path).length = path.length := by
  rw [Nat.succ_mul] at room
  simp only [fillPath, List.length_append, List.length_take, List.length_drop, Nat.succ_mul]
  omega

/-- Up to the end of its level a path holds the old nodes and the one that was filled in. -/
theorem take_fillPath {level : Nat} {beside path : Bytes} (length : beside.length = n)
    (room : (level + 1) * n ≤ path.length) :
    (fillPath n level beside path).take ((level + 1) * n) = path.take (level * n) ++ beside := by
  rw [Nat.succ_mul] at room
  rw [fillPath, ← List.append_assoc]
  exact List.take_left' (by rw [List.length_append, List.length_take, Nat.succ_mul]; omega)

/-- The levels that are built in the arena are those that climbing builds, and so is the path. -/
theorem raise_eq {offset leafIndex : UInt32} {more level : Nat} {nodes : List Bytes}
    (full : ∀ node ∈ nodes, node.length = H.n) (length : nodes.length = 2 ^ more)
    (work : Workspace) (tail : Bytes) (arena : work.arena = nodes.flatten ++ tail)
    (room : ∀ path ∈ work.path?, path.length = (level + more) * H.n) {built : Built}
    (climbed : climb H offset leafIndex work.path?.isSome more level work.adrs nodes = .ok built) :
    built.root.length = H.n ∧ ∃ rest, raise H offset leafIndex more level work =
      (.ok ⟨⟩, { work with
        adrs := built.adrs
        path? := work.path?.map fun path => path.take (level * H.n) ++ built.path
        arena := built.root ++ rest }) := by
  -- between two levels the arena holds the nodes of the lower one, and behind them what is stale
  induction more generalizing level nodes work tail built with
  | zero =>
      obtain ⟨root, rfl⟩ := List.length_eq_one_iff.1 length
      obtain rfl : ⟨root, [], work.adrs⟩ = built := Except.ok.inj climbed
      refine ⟨full root (by simp), tail, ?_⟩
      have kept : (work.path?.map fun path => path.take (level * H.n) ++ []) = work.path? := by
        cases asked : work.path? with
        | none => rfl
        | some path =>
            rw [Option.map_some, List.append_nil, List.take_of_length_le]
            exact Nat.le_of_eq (room path asked)
      have front : root ++ tail = work.arena := by rw [arena, List.flatten_singleton]
      rw [kept, front]
      rfl
  | succ more ih =>
      obtain ⟨beside, base, above, between, upper, taken, shifted, paired, later, rfl⟩ :=
        climb_cases climbed
      obtain ⟨above_length, above_full⟩ :=
        shape_of_pairUp 0 (by rw [length, Nat.pow_succ, Nat.mul_comm]) paired
      have enough (path : Bytes) (asked : path ∈ work.path?) : (level + 1) * H.n ≤ path.length := by
        rw [room path asked]
        exact Nat.mul_le_mul_right _ (by omega)
      have beside_length (path : Bytes) (asked : path ∈ work.path?) : beside.length = H.n := by
        rw [Option.mem_def.1 asked, Option.isSome_some, if_pos rfl] at taken
        obtain ⟨_, -, found⟩ := mem_of_sibling taken
        exact full beside (List.mem_of_getElem? found)
      let saved : Workspace :=
        { work with
          adrs := work.adrs.setTreeHeight (UInt32.ofNat (level + 1))
          path? := work.path?.map (fillPath H.n level beside) }
      have saved_room : ∀ path ∈ saved.path?, path.length = (level + 1 + more) * H.n := by
        intro path filled
        obtain ⟨old, asked, rfl⟩ := Option.map_eq_some_iff.1 filled
        rw [length_fillPath (beside_length old asked) (enough old asked), room old asked,
          show level + (more + 1) = level + 1 + more by omega]
      obtain ⟨behind, hashed⟩ := hashPairs_eq full
        (by rw [length, Nat.pow_succ, Nat.mul_comm]) saved paired [] [] tail (by simp) (by simp) arena
      obtain ⟨root_length, rest, made⟩ := ih above_full above_length
        { saved with adrs := between, arena := above.flatten ++ behind } behind rfl saved_room
        (by rw [show saved.path?.isSome = work.path?.isSome from Option.isSome_map]; exact later)
      refine ⟨root_length, rest, ?_⟩
      have path_eq : (work.path?.map (fillPath H.n level beside)).map
          (fun path => path.take ((level + 1) * H.n) ++ upper.path) =
          work.path?.map fun path => path.take (level * H.n) ++ (beside ++ upper.path) := by
        rw [Option.map_map]
        apply Option.map_congr
        intro path asked
        rw [Function.comp_apply, take_fillPath (beside_length path asked) (enough path asked),
          List.append_assoc]
      rw [raise, bind_of_run (savePath_eq full work tail arena enough taken), modify_bind,
        bind_of_run (ofOutcome_of _ shifted), bind_of_run hashed]
      exact made.trans (by rw [path_eq])

/-! ## Whole trees -/

theorem le_of_checkBounds {height : Nat} {offset leafIndex : UInt32}
    (checked : checkBounds height offset leafIndex = .ok ()) : height ≤ 31 := by
  rw [checkBounds] at checked
  by_cases high : maxHeight < height
  · rw [if_pos high] at checked
    exact absurd checked (refuse_ne_ok _ _)
  · exact Nat.not_lt.1 high

theorem eq_of_checkPath {n height length : Nat} (checked : checkPath n height length = .ok ()) :
    length = height * n := by
  obtain ⟨expected, sized, checked⟩ := bind_eq_ok.1 checked
  obtain ⟨-, rfl⟩ := size_eq_ok.1 sized
  by_cases same : length = height * n
  · exact same
  · rw [if_neg same] at checked
    exact absurd checked (refuse_ne_ok _ _)

/-- What it takes to build a tree. -/
theorem build_cases {adrs : Address} {height : Nat} {offset leafIndex : UInt32} {room : Option Nat}
    {leaf : UInt32 → Outcome Bytes} {built : Built}
    (made : build H adrs height offset leafIndex room leaf = .ok built) :
    checkBounds height offset leafIndex = .ok () ∧
      (∀ length ∈ room, checkPath H.n height length = .ok ()) ∧ 0 < H.n ∧
      ∃ leaves, (List.range (2 ^ height)).mapM (fun i => leaf (UInt32.ofNat i)) = .ok leaves ∧
        climb H offset leafIndex room.isSome height 0 adrs leaves = .ok built := by
  obtain ⟨_, -, made⟩ := bind_eq_ok.1 made
  obtain ⟨_, bounds, made⟩ := bind_eq_ok.1 made
  cases room with
  | none =>
      obtain ⟨_, pos, made⟩ := bind_eq_ok.1 made
      obtain ⟨leaves, leaves_eq, made⟩ := bind_eq_ok.1 made
      exact ⟨bounds, by simp, ensure_eq_ok.1 pos, leaves, leaves_eq, made⟩
  | some length =>
      obtain ⟨_, path, made⟩ := bind_eq_ok.1 made
      obtain ⟨_, pos, made⟩ := bind_eq_ok.1 made
      obtain ⟨leaves, leaves_eq, made⟩ := bind_eq_ok.1 made
      refine ⟨bounds, ?_, ensure_eq_ok.1 pos, leaves, leaves_eq, made⟩
      intro length asked
      obtain rfl := Option.some.inj asked
      exact path

/-- Once the checks are passed, the arena is cleared and filled, and the root is taken from its
front. -/
theorem buildIn_of {height : Nat} {offset leafIndex : UInt32} {leaf : UInt32 → Outcome Bytes}
    (small : H.n ≤ 32) (work : Workspace) (bounds : checkBounds height offset leafIndex = .ok ())
    (room : checkRoom H.n height work.path? = .ok ()) (pos : 0 < H.n) :
    buildIn H height offset leafIndex leaf work =
      (do
        fillLeaves H.n leaf (2 ^ height) 0
        raise H offset leafIndex height 0
        saveRoot H.n (← Building.node H.n 0)) { work with arena := Bytes.zeros (2 ^ height * H.n) } := by
  have fits : 2 ^ height * H.n ≤ maxBuffer := by
    have power : 2 ^ height ≤ 2 ^ 31 :=
      Nat.pow_le_pow_right (by decide) (le_of_checkBounds bounds)
    have := Nat.mul_le_mul power small
    rw [maxBuffer]
    omega
  rw [buildIn, bind_of_run (ofOutcome_of work bounds), get_bind,
    bind_of_run (ofOutcome_of work room), bind_of_run (ofOutcome_of work (ensure_of pos)),
    bind_of_run (ofOutcome_of work (buffer_of_le fits)), modify_bind]

/-- The room that is asked for a path is the room that was checked. -/
theorem checkRoom_of {height : Nat} {path? : Option Bytes}
    (checked : ∀ length ∈ path?.map List.length, checkPath n height length = .ok ()) :
    checkRoom n height path? = .ok () ∧ ∀ path ∈ path?, path.length = height * n := by
  cases path? with
  | none => exact ⟨rfl, by simp⟩
  | some buffer =>
      have here := checked buffer.length rfl
      refine ⟨here, ?_⟩
      rintro path ⟨⟩
      exact eq_of_checkPath here

/-- Building in one buffer writes the tree and the path that building returns, and leaves the same
address. -/
theorem buildIn_eq {height : Nat} {offset leafIndex : UInt32} {leaf : UInt32 → Outcome Bytes}
    (full : ∀ i block, leaf i = .ok block → block.length = H.n) (small : H.n ≤ 32)
    (work : Workspace) (root_room : work.root.length = H.n) {built : Built}
    (made : build H work.adrs height offset leafIndex (work.path?.map List.length) leaf =
      .ok built) :
    ∃ arena, buildIn H height offset leafIndex leaf work =
      (.ok ⟨⟩, ⟨built.adrs, built.root, work.path?.map fun _ => built.path, arena⟩) := by
  obtain ⟨bounds, checked, pos, leaves, leaves_eq, climbed⟩ := build_cases made
  obtain ⟨path_checked, room⟩ := checkRoom_of checked
  have leaves_full : ∀ block ∈ leaves, block.length = H.n := by
    intro block member
    obtain ⟨i, -, here⟩ := of_mem_of_mapM_eq_ok leaves_eq member
    exact full _ block here
  have leaves_length : leaves.length = 2 ^ height := by
    rw [length_of_mapM_eq_ok leaves_eq, List.length_range]
  let cleared : Workspace := { work with arena := Bytes.zeros (2 ^ height * H.n) }
  let filled : Workspace := { work with arena := leaves.flatten }
  have fill : fillLeaves H.n leaf (2 ^ height) 0 cleared = (.ok ⟨⟩, filled) :=
    fillLeaves_eq (by rw [← List.range_eq_range']; exact leaves_eq) leaves_full
      (by simp) (Bytes.length_zeros _) cleared (List.nil_append _).symm
  obtain ⟨root_length, rest, raised⟩ := raise_eq leaves_full leaves_length filled []
    (List.append_nil _).symm (by rw [Nat.zero_add]; exact room)
    (by rwa [Option.isSome_map] at climbed)
  let done : Workspace :=
    ⟨built.adrs, work.root, work.path?.map fun _ => built.path, built.root ++ rest⟩
  have raise_done : raise H offset leafIndex height 0 filled = (.ok ⟨⟩, done) := by
    rw [raised]
    simp [filled, done]
  have at_front : blockAt H.n 0 ([] ++ (built.root ++ rest)) = .ok built.root :=
    blockAt_append (Nat.zero_mul _).symm root_length
  refine ⟨built.root ++ rest, ?_⟩
  rw [buildIn_of small work bounds path_checked pos, bind_of_run fill, bind_of_run raise_done,
    bind_of_run (node_of done at_front), saveRoot_of done root_room]

/-- A tree that passes the checks does not depend on what the arena held before. -/
theorem buildIn_arena {height : Nat} {offset leafIndex : UInt32} {leaf : UInt32 → Outcome Bytes}
    (small : H.n ≤ 32) (work : Workspace) (bounds : checkBounds height offset leafIndex = .ok ())
    (room : checkRoom H.n height work.path? = .ok ()) (pos : 0 < H.n) (arena : Bytes) :
    buildIn H height offset leafIndex leaf { work with arena } =
      buildIn H height offset leafIndex leaf work := by
  rw [buildIn_of small { work with arena } bounds room pos, buildIn_of small work bounds room pos]

/-! ## Following a path -/

/-- A path is followed in the workspace as it is outside; only the address changes. -/
theorem followIn_eq {leafIndex globalIndex : UInt32} {path : List Bytes} {level : Nat}
    {node root : Bytes} {left : Address} (work : Workspace)
    (followed : follow H leafIndex globalIndex level work.adrs node path = .ok (root, left)) :
    followIn H leafIndex globalIndex level node path work =
      (.ok root, { work with adrs := left }) := by
  induction path generalizing level node work with
  | nil =>
      obtain ⟨rfl, rfl⟩ := Prod.mk.inj (Except.ok.inj followed)
      rfl
  | cons beside path ih =>
      obtain ⟨index, shifted, followed⟩ := bind_eq_ok.1 followed
      obtain ⟨position, shifted', followed⟩ := bind_eq_ok.1 followed
      rw [followIn, modify_bind, bind_of_run (ofOutcome_of _ shifted), modify_bind,
        bind_of_run (ofOutcome_of _ shifted'), get_bind]
      exact ih _ followed

/-- Following a path in place writes the root that following it returns, and leaves the same
address. -/
theorem rootIn_eq {height : Nat} {offset leafIndex : UInt32} {leaf path root : Bytes}
    {left : Address} (work : Workspace) (root_room : work.root.length = H.n)
    (reached : rootOf H work.adrs height offset leafIndex leaf path = .ok (root, left)) :
    rootIn H height offset leafIndex leaf path work =
      (.ok ⟨⟩, { work with adrs := left, root }) := by
  obtain ⟨_, bounds, reached⟩ := bind_eq_ok.1 reached
  obtain ⟨_, checked, reached⟩ := bind_eq_ok.1 reached
  obtain ⟨_, pos, reached⟩ := bind_eq_ok.1 reached
  obtain ⟨node, whole, reached⟩ := bind_eq_ok.1 reached
  obtain ⟨globalIndex, added, followed⟩ := bind_eq_ok.1 reached
  rw [rootIn, bind_of_run (ofOutcome_of work bounds), bind_of_run (ofOutcome_of work checked),
    bind_of_run (ofOutcome_of work pos), bind_of_run (ofOutcome_of work whole),
    bind_of_run (ofOutcome_of work added), bind_of_run (followIn_eq work followed),
    saveRoot_of { work with adrs := left } root_room]

/-! ## The Merkle tree -/

/-- The siblings of a leaf's ancestors, behind each other. -/
theorem slice_path {offset : Nat} {leaf : Nat → Bytes} (full : ∀ i, (leaf i).length = H.n)
    (adrs : Address) (leafIndex : Nat) {height z : Nat} (below : z < height) :
    Bytes.slice (z * H.n) H.n (pathFrom H adrs offset leaf leafIndex 0 height).flatten =
      MerkleTree.node H adrs offset leaf z ((leafIndex >>> z) ^^^ 1) := by
  apply Bytes.slice_flatten fun block member => length_of_mem_pathFrom full member
  rw [pathFrom, List.getElem?_map, List.getElem?_range' below, Option.map_some,
    Nat.shiftRight_eq_div_pow, Nat.zero_add, Nat.one_mul]

/-- Building computes the Merkle tree. Over any leaves of full length there is a tree of nodes, each
the digest of its two children under the address with its height and its index behind the offset;
every node of a level of the tree has an index. Whatever leaf is named, and whether its path is asked
for or not, building succeeds with the root of that tree, and the path has the sibling of the leaf's
ancestor on level `z` as its block `z`. The builder in one buffer writes the same root and the same
path, and nothing that it writes depends on what the arena held before. -/
theorem builds_merkle_tree (H : TweakableHash) (pos : 0 < H.n) (small : H.n ≤ 32)
    (leaf : UInt32 → Bytes) (full : ∀ i, (leaf i).length = H.n) (adrs : Address) (height : Nat)
    (low : height ≤ 31) (offset : UInt32) (ends : offset.toNat + 2 ^ height ≤ 2 ^ 32) :
    ∃ M : (z i : Nat) → Bytes,
      (∀ i, M 0 i = leaf (UInt32.ofNat i)) ∧
      (∀ z i, M (z + 1) i = H.h ((adrs.setTreeHeight (UInt32.ofNat (z + 1))).setTreeIndex
        (UInt32.ofNat (offset.toNat >>> (z + 1) + i))) (M z (2 * i)) (M z (2 * i + 1))) ∧
      (∀ z ≤ height, ∀ i < 2 ^ (height - z), offset.toNat >>> z + i < 2 ^ 32) ∧
      ∀ leafIndex : UInt32, leafIndex.toNat < 2 ^ height →
        ∃ path : Bytes, path.length = height * H.n ∧
          (∀ z < height,
            Bytes.slice (z * H.n) H.n path = M z ((leafIndex.toNat >>> z) ^^^ 1)) ∧
          ∀ (root : Bytes) (path? : Option Bytes), root.length = H.n →
            (∀ room ∈ path?, room.length = height * H.n) →
              ∃ left after,
                build H adrs height offset leafIndex (path?.map List.length)
                    (fun i => .ok (leaf i)) =
                  .ok ⟨M height 0, if path?.isSome then path else [], left⟩ ∧
                ∀ arena, buildIn H height offset leafIndex (fun i => .ok (leaf i))
                    ⟨adrs, root, path?, arena⟩ =
                  (.ok ⟨⟩, ⟨left, M height 0, path?.map fun _ => path, after⟩) := by
  have leaf_full (i : Nat) : (leaf (UInt32.ofNat i)).length = H.n := full _
  refine ⟨MerkleTree.node H adrs offset.toNat fun i => leaf (UInt32.ofNat i), fun _ => rfl, ?_, ?_,
    ?_⟩
  · intro z i
    rw [MerkleTree.node, Nat.shiftRight_eq_div_pow]
    rfl
  · intro z low_z i inside
    have power : 2 ^ (height - z) ≤ 2 ^ height := Nat.pow_le_pow_right (by decide) (by omega)
    have shifted : offset.toNat >>> z ≤ offset.toNat := Nat.shiftRight_le _ _
    omega
  · intro leafIndex inside
    have blocks_full := fun (block : Bytes) (member : block ∈ pathFrom H adrs offset.toNat
      (fun i => leaf (UInt32.ofNat i)) leafIndex.toNat 0 height) =>
        length_of_mem_pathFrom leaf_full member
    refine ⟨_, ?_, fun z below => slice_path leaf_full adrs leafIndex.toNat below, ?_⟩
    · rw [Bytes.length_flatten_of blocks_full, length_pathFrom]
    · intro root path? root_length room
      have asked : ∀ length, path?.map List.length = some length → length = height * H.n := by
        intro length asked
        obtain ⟨buffer, member, rfl⟩ := Option.map_eq_some_iff.1 asked
        exact room buffer member
      obtain ⟨left, made, -⟩ : ∃ left, build H adrs height offset leafIndex
            (path?.map List.length) (fun i => .ok (leaf i)) =
          .ok ⟨MerkleTree.node H adrs offset.toNat (fun i => leaf (UInt32.ofNat i)) height 0, _,
            left⟩ ∧ left.Alike adrs :=
        build_eq offset leafIndex _ low inside ends pos small asked (fun _ _ => rfl) adrs
      obtain ⟨bounds, checked, -⟩ := build_cases made
      let work : Workspace := ⟨adrs, root, path?, []⟩
      obtain ⟨after, written⟩ := buildIn_eq (fun i block made => Except.ok.inj made ▸ full i) small
        work root_length made
      refine ⟨left, after, ?_, ?_⟩
      · rw [made, Option.isSome_map]
      · intro arena
        rw [buildIn_arena small work bounds (checkRoom_of checked).1 pos arena, written]
        cases path? <;> rfl

/-- The last four of eight leaves, with the path of the second of them, in an arena of other
length. -/
theorem builds_merkle_tree_four :
    ∃ (M : (z i : Nat) → Bytes) (path : Bytes) (left : Address) (after : Bytes),
      (∀ i, M 0 i = List.replicate 16 (UInt32.ofNat i).toUInt8) ∧
      M 2 0 = (TweakableHash.shake 16 (Bytes.zeros 16)).h
        ((Address.zero.setTreeHeight 2).setTreeIndex 1) (M 1 0) (M 1 1) ∧
      buildIn (.shake 16 (Bytes.zeros 16)) 2 4 1 (fun i => .ok (List.replicate 16 i.toUInt8))
          ⟨.zero, Bytes.zeros 16, some (Bytes.zeros 32), [1, 2, 3]⟩ =
        (.ok ⟨⟩, ⟨left, M 2 0, some path, after⟩) ∧
      Bytes.slice 0 16 path = M 0 0 ∧ Bytes.slice 16 16 path = M 1 1 := by
  obtain ⟨M, leaves, parents, -, tree⟩ := builds_merkle_tree (.shake 16 (Bytes.zeros 16))
    (by decide) (by decide) (fun i => List.replicate 16 i.toUInt8) (fun _ => List.length_replicate)
    .zero 2 (by decide) 4 (by decide)
  obtain ⟨path, -, beside, built⟩ := tree 1 (by decide)
  obtain ⟨left, after, -, written⟩ := built (Bytes.zeros 16) (some (Bytes.zeros 32)) rfl (by decide)
  exact ⟨M, path, left, after, leaves, parents 1 0, written [1, 2, 3], beside 0 (by decide),
    beside 1 (by decide)⟩

end HashSignature.MerkleTree
