/-
# HashSignature.Proofs.InArena — a request in one arena returns what it returns anyway

The trees of a request share one arena and never clear it for each other. A builder writes all that
it reads, so each of them is the tree that a builder with an arena of its own gives, whatever the
trees before it left behind. From there on a request in one arena goes step by step with the request
that has no arena.

* `Returns` — what holds of a computation in an arena: a value that it should give it gives over all
  contents of the arena.
* `build_returns` — building a tree is such, for leaves of full length.
* `publicRoot_eq`, `sign_eq` — key generation and signing are the same in one arena, for all inputs.
-/
import HashSignature.InArena
import HashSignature.Proofs.InPlace
import HashSignature.Proofs.Signing

namespace HashSignature

set_option autoImplicit false

open Outcome

variable {H : TweakableHash} {p : Params}

/-! ## Leaves -/

/-- A leaf of a layer is a digest. -/
theorem Layer.length_of_leaf {skSeed : Bytes} {adrs : Address} {i : UInt32} {block : Bytes}
    (made : leaf H p skSeed adrs i = .ok block) : block.length = H.n := by
  obtain ⟨⟨key, left⟩, generated, made⟩ := bind_eq_ok.1 made
  obtain rfl : key = block := Except.ok.inj made
  obtain ⟨_, -, generated⟩ := bind_eq_ok.1 generated
  obtain ⟨⟨tops, last⟩, -, generated⟩ := bind_eq_ok.1 generated
  obtain ⟨rfl, -⟩ := Prod.mk.inj (Except.ok.inj generated)
  exact H.length_t _ _

/-- A leaf of a forest is a digest. -/
theorem Forest.length_of_leaf {skSeed : Bytes} {adrs : Address} {offset i : UInt32} {block : Bytes}
    (made : leaf H skSeed adrs offset i = .ok block) : block.length = H.n := by
  obtain ⟨index, -, made⟩ := bind_eq_ok.1 made
  obtain rfl := Except.ok.inj made
  exact H.length_f_of_length_eq _ (H.length_prf _ _)

/-- A tree that is built for no path has none. -/
theorem MerkleTree.path_of_climb {offset leafIndex : UInt32} {more level : Nat} {adrs : Address}
    {nodes : List Bytes} {built : Built}
    (climbed : climb H offset leafIndex false more level adrs nodes = .ok built) :
    built.path = [] := by
  induction more generalizing level adrs nodes built with
  | zero =>
      cases nodes with
      | nil => exact absurd climbed (broken_ne_ok built)
      | cons root rest => rw [← Except.ok.inj climbed]
  | succ more ih =>
      obtain ⟨beside, _, _, _, upper, taken, -, -, later, rfl⟩ := climb_cases climbed
      obtain rfl : [] = beside := Except.ok.inj taken
      exact ih later

namespace InArena

/-! ## Steps -/

section Steps

variable {α β : Type}

/-- A computation in an arena returns the value of an outcome, whatever the arena holds. -/
def Returns (run : InArena α) (outcome : Outcome α) : Prop :=
  ∀ a, outcome = .ok a → ∀ arena, (run arena).1 = .ok a

theorem returns_pure (a : α) : Returns (pure a) (pure a) := fun _ ended _ => ended

theorem Returns.bind {run : InArena α} {outcome : Outcome α} {f : α → InArena β}
    {g : α → Outcome β} (returns : Returns run outcome) (next : ∀ a, Returns (f a) (g a)) :
    Returns (run >>= f) (outcome >>= g) := by
  intro b ended arena
  obtain ⟨a, first, ended⟩ := bind_eq_ok.1 ended
  have here := returns a first arena
  rcases ran : run arena with ⟨ending, left⟩
  rw [ran] at here
  obtain rfl : ending = .ok a := here
  rw [bind_of_run ran]
  exact next a b ended left

/-- A step that builds no tree. -/
theorem returns_lift_bind {outcome : Outcome α} {f : α → InArena β} {g : α → Outcome β}
    (next : ∀ a, Returns (f a) (g a)) :
    Returns ((liftM outcome : InArena α) >>= f) (outcome >>= g) :=
  Returns.bind (fun _ ended _ => ended) next

end Steps

/-! ## Trees -/

/-- A tree in the arena is the tree that is built without one. -/
theorem build_returns (small : H.n ≤ 32) {leaf : UInt32 → Outcome Bytes}
    (full : ∀ i block, leaf i = .ok block → block.length = H.n) (adrs : Address) (height : Nat)
    (offset leafIndex : UInt32) (room : Option Nat) :
    Returns (build H adrs height offset leafIndex room leaf)
      (MerkleTree.build H adrs height offset leafIndex room leaf) := by
  intro built made arena
  have room_eq : (room.map Bytes.zeros).map List.length = room := by
    cases room with
    | none => rfl
    | some length => exact congrArg some (Bytes.length_zeros length)
  obtain ⟨after, written⟩ := MerkleTree.buildIn_eq full small
    ⟨adrs, Bytes.zeros H.n, room.map Bytes.zeros, arena⟩ (Bytes.length_zeros _)
    (by rw [room_eq]; exact made)
  have path_eq : ((room.map Bytes.zeros).map fun _ => built.path).getD [] = built.path := by
    cases room with
    | none =>
        obtain ⟨-, -, -, leaves, -, climbed⟩ := MerkleTree.build_cases made
        exact (MerkleTree.path_of_climb climbed).symm
    | some length => rfl
  rw [build, written]
  exact congrArg (fun path => Except.ok (MerkleTree.Built.mk built.root path built.adrs)) path_eq

/-! ## The forest -/

theorem forestTree_returns (small : H.n ≤ 32) (skSeed : Bytes) (adrs : Address) (tree : Nat)
    (leafIndex : UInt32) (room : Option Nat) :
    Returns (forestTree H p skSeed adrs tree leafIndex room)
      (Forest.buildTree H p skSeed adrs tree leafIndex room) := by
  refine returns_lift_bind fun offset => ?_
  exact build_returns small (fun _ _ => Forest.length_of_leaf) adrs p.a.toNat offset leafIndex room

theorem forestFrom_returns (small : H.n ≤ 32) (skSeed : Bytes) (room tree : Nat) (adrs : Address)
    (selected : List UInt32) :
    Returns (forestFrom H p skSeed room tree adrs selected)
      (Forest.signFrom H p skSeed room tree adrs selected) := by
  induction selected generalizing tree adrs with
  | nil => exact returns_pure _
  | cons index rest ih =>
      refine returns_lift_bind fun offset => ?_
      refine returns_lift_bind fun globalIndex => ?_
      refine (forestTree_returns small skSeed adrs tree index (some room)).bind fun built => ?_
      refine (ih (tree + 1) built.adrs).bind fun ⟨segments, roots, left⟩ => ?_
      exact returns_pure _

theorem forestSign_returns (small : H.n ≤ 32) (digest skSeed : Bytes) (adrs : Address)
    (room : Nat) :
    Returns (forestSign H p digest skSeed adrs room)
      (Forest.sign H p digest skSeed adrs room) := by
  refine returns_lift_bind fun _ => ?_
  refine returns_lift_bind fun _ => ?_
  refine returns_lift_bind fun selected => ?_
  refine returns_lift_bind fun _ => ?_
  refine returns_lift_bind fun width => ?_
  refine returns_lift_bind fun _ => ?_
  refine returns_lift_bind fun pathRoom => ?_
  refine (forestFrom_returns small skSeed pathRoom 0 adrs selected).bind fun ⟨_, _, _⟩ => ?_
  exact returns_pure _

/-! ## The layers -/

theorem layerBuild_returns (small : H.n ≤ 32) (skSeed : Bytes) (adrs : Address)
    (leafIndex : UInt32) (room : Option Nat) :
    Returns (layerBuild H p skSeed adrs leafIndex room)
      (Layer.build H p skSeed adrs leafIndex room) :=
  build_returns small (fun _ _ => Layer.length_of_leaf) (adrs.setType .tree) p.hp.toNat 0 leafIndex
    room

theorem layerRoot_returns (small : H.n ≤ 32) (skSeed : Bytes) (layer : UInt32) (tree : UInt64) :
    Returns (layerRoot H p skSeed layer tree) (Layer.root H p skSeed layer tree) :=
  (layerBuild_returns small skSeed (Layer.address layer tree) 0 none).bind fun _ => returns_pure _

theorem layerSign_returns (small : H.n ≤ 32) (message skSeed : Bytes) (index : UInt32)
    (adrs : Address) :
    Returns (layerSign H p message skSeed index adrs)
      (Layer.sign H p message skSeed index adrs) := by
  refine returns_lift_bind fun length => ?_
  refine returns_lift_bind fun _ => ?_
  refine returns_lift_bind fun oneTimeSize => ?_
  refine returns_lift_bind fun room => ?_
  refine (layerBuild_returns small skSeed adrs index (some room)).bind fun built => ?_
  refine returns_lift_bind fun ⟨oneTime, left⟩ => ?_
  exact returns_pure _

/-- Each layer finds in the arena what the layer below left there. -/
theorem layersFrom_returns (small : H.n ≤ 32) (skSeed : Bytes) (more layer : Nat) (tree : UInt64)
    (leaf : UInt32) (node : Bytes) :
    Returns (layersFrom H p skSeed more layer tree leaf node)
      (Hypertree.signFrom H p skSeed more layer tree leaf node) := by
  induction more generalizing layer tree leaf node with
  | zero => exact returns_pure _
  | succ more ih =>
      refine returns_lift_bind fun ⟨leaf, tree⟩ => ?_
      refine (layerSign_returns small node skSeed leaf _).bind fun signed => ?_
      refine (ih (layer + 1) tree leaf signed.root).bind fun rest => ?_
      exact returns_pure _

theorem hypertreeSign_returns (small : H.n ≤ 32) (message skSeed : Bytes) (tree : UInt64)
    (leaf : UInt32) (room : Nat) :
    Returns (hypertreeSign H p message skSeed tree leaf room)
      (Hypertree.sign H p message skSeed tree leaf room) := by
  refine returns_lift_bind fun _ => ?_
  refine returns_lift_bind fun _ => ?_
  refine returns_lift_bind fun node => ?_
  refine returns_lift_bind fun width => ?_
  refine returns_lift_bind fun _ => ?_
  refine (layersFrom_returns small skSeed p.d.toNat 0 tree leaf node).bind fun layers => ?_
  exact returns_pure _

/-! ## Requests -/

/-- A request that has room for its arena returns what the computation should. -/
theorem request_eq_ok {α : Type} {run : InArena α} {outcome : Outcome α}
    (returns : Returns run outcome) {size : Nat} (sized : p.arenaSize = .ok size)
    (fits : buffer size = .ok ()) {a : α} (ended : outcome = .ok a) : request p run = .ok a := by
  rw [request, sized, ok_bind, fits, ok_bind]
  exact returns a ended []

/-- With accepted parameters a signature is made in one arena as it is made anyway. -/
theorem signWith_eq (sound : p.Sound) (width : H.n = p.n.toNat) (key : Signing.SigningKey)
    (message optRand : Bytes) :
    signWith H p key message optRand = Signing.signWith H p key message optRand := by
  have small : H.n ≤ 32 := width ▸ sound.n_le
  have made := Signing.signWith_eq sound width key message optRand
  rw [made]
  obtain ⟨total, total_eq, made⟩ := bind_eq_ok.1 made
  obtain ⟨behind, behind_eq, made⟩ := bind_eq_ok.1 made
  obtain ⟨forestRoom, forestRoom_eq, made⟩ := bind_eq_ok.1 made
  obtain ⟨room, room_eq, made⟩ := bind_eq_ok.1 made
  obtain ⟨route, route_eq, made⟩ := bind_eq_ok.1 made
  obtain ⟨size, sized, made⟩ := bind_eq_ok.1 made
  obtain ⟨_, fits, made⟩ := bind_eq_ok.1 made
  rw [signWith, total_eq, ok_bind, behind_eq, ok_bind, forestRoom_eq, ok_bind, room_eq, ok_bind]
  simp only []
  rw [route_eq, ok_bind]
  refine request_eq_ok ?_ sized fits made
  refine (forestSign_returns small _ _ _ _).bind fun forest => ?_
  refine (hypertreeSign_returns small _ _ _ _ _).bind fun hypertree => ?_
  exact returns_pure _

/-- Signing returns in one arena what it returns anyway, a signature or a refusal. -/
theorem sign_eq (p : Params) (key : Signing.SigningKey) (message optRand : Bytes) :
    sign p key message optRand = Signing.sign p key message optRand := by
  refine bind_congr_ok fun _ accepted => ?_
  have sound := Params.sound_of_check accepted
  refine bind_congr_ok fun _ _ => ?_
  refine bind_congr_ok fun _ _ => ?_
  refine bind_congr_ok fun _ _ => ?_
  refine bind_congr_ok fun _ _ => ?_
  refine bind_congr_ok fun _ _ => ?_
  refine bind_congr_ok fun _ _ => ?_
  refine bind_congr_ok fun _ _ => ?_
  refine bind_congr_ok fun H hashed => ?_
  exact signWith_eq sound (Signing.width_of_hash hashed) key message optRand

/-- Key generation returns in one arena what it returns anyway. -/
theorem publicRoot_eq (p : Params) (skSeed skPrf pkSeed : Bytes) :
    publicRoot p skSeed skPrf pkSeed = Signing.publicRoot p skSeed skPrf pkSeed := by
  refine bind_congr_ok fun _ accepted => ?_
  have sound := Params.sound_of_check accepted
  refine bind_congr_ok fun _ _ => ?_
  refine bind_congr_ok fun _ _ => ?_
  refine bind_congr_ok fun _ _ => ?_
  refine bind_congr_ok fun H hashed => ?_
  have width := Signing.width_of_hash hashed
  have fits := buffer_of_le sound.arenaSize_fits
  have rooted : (less p.d.toNat 1 >>= fun top => Layer.root H p skSeed (UInt32.ofNat top) 0) =
      .ok (Signing.topRoot H p skSeed) := by
    rw [less_of_le sound.layers, ok_bind, Layer.root_eq sound width]
    rfl
  have built : request p (do
      let top ← less p.d.toNat 1
      layerRoot H p skSeed (UInt32.ofNat top) 0) = .ok (Signing.topRoot H p skSeed) := by
    refine request_eq_ok ?_ sound.arenaSize_eq fits rooted
    exact returns_lift_bind fun top => layerRoot_returns (width ▸ sound.n_le) skSeed _ 0
  rw [built, ok_bind, sound.arenaSize_eq, ok_bind, fits, ok_bind, ← bind_assoc, rooted, ok_bind]

end InArena

end HashSignature
