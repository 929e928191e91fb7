/-
# HashSignature.Proofs.StaleFields — what an operation sets before it reads

The operations on one-time keys, trees and forests read the last two words of their address only
after setting them: a step of a chain after its chain, a node after its height. Where no step is
taken the step of an earlier chain stays in the address, and the next chain writes over it. So two
addresses that differ in these words only give the same result, whatever the input, and what is left
of them still differs there only.

Both runs are followed at once. `Rel` says that two computations end the same way, and their results
are related; it is carried through each bind.

* `Ends` — the same value, and addresses that are alike to a given one.
* `Unaffected` — what follows for an operation: all nine have it.
-/
import HashSignature.Proofs.Forest
import HashSignature.Proofs.OneTime

namespace HashSignature

set_option autoImplicit false

variable {α β γ δ : Type}

/-! ## Two runs at once -/

namespace Outcome

/-- Two computations stop for one cause, or both end and their results are related. -/
inductive Rel (R : α → β → Prop) : Outcome α → Outcome β → Prop
  | stopped (stop : Stop) : Rel R (.error stop) (.error stop)
  | ended {a : α} {b : β} (related : R a b) : Rel R (.ok a) (.ok b)

theorem Rel.bind {R : α → β → Prop} {S : γ → δ → Prop} {x : Outcome α} {y : Outcome β}
    {f : α → Outcome γ} {g : β → Outcome δ} (first : Rel R x y)
    (next : ∀ a b, R a b → Rel S (f a) (g b)) : Rel S (x >>= f) (y >>= g) := by
  cases first with
  | stopped stop => exact .stopped stop
  | ended related => exact next _ _ related

/-- A step that both computations make in the same way. -/
theorem rel_bind_same {S : γ → δ → Prop} (x : Outcome α) {f : α → Outcome γ} {g : α → Outcome δ}
    (next : ∀ a, Rel S (f a) (g a)) : Rel S (x >>= f) (x >>= g) := by
  cases x with
  | ok a => exact next a
  | error stop => exact .stopped stop

theorem Rel.map_eq {R : α → β → Prop} {x : Outcome α} {y : Outcome β} {f : α → γ} {g : β → γ}
    (rel : Rel R x y) (same : ∀ a b, R a b → f a = g b) : x.map f = y.map g := by
  cases rel with
  | stopped stop => rfl
  | ended related => exact congrArg Except.ok (same _ _ related)

theorem Rel.of_ok {R : α → β → Prop} {x : Outcome α} {y : Outcome β} {a : α} (rel : Rel R x y)
    (ended : x = .ok a) : ∃ b, y = .ok b ∧ R a b := by
  cases rel with
  | stopped stop => cases ended
  | ended related =>
      cases ended
      exact ⟨_, rfl, related⟩

theorem Rel.map {R : γ → δ → Prop} {x : Outcome α} {y : Outcome β} {f : α → γ} {g : β → δ}
    (rel : Rel (fun a b => R (f a) (g b)) x y) : Rel R (x.map f) (y.map g) := by
  cases rel with
  | stopped stop => exact .stopped stop
  | ended related => exact .ended related

end Outcome

open Outcome

variable {H : TweakableHash} {p : Params} {c adrs adrs' : Address}

/-- The same value, and two addresses alike to a third. -/
structure Ends (c : Address) (result other : α × Address) : Prop where
  value : result.1 = other.1
  left : result.2.Alike c
  left' : other.2.Alike c

/-- An operation gives alike addresses the same result or the same fault, and leaves an address alike
to the one that it was given. -/
structure Unaffected (op : Address → Outcome (α × Address)) : Prop where
  same : ∀ adrs adrs', adrs.Alike adrs' → (op adrs).map Prod.fst = (op adrs').map Prod.fst
  keeps : ∀ adrs a left, op adrs = .ok (a, left) → left.Alike adrs

theorem unaffected_of_rel {op : Address → Outcome (α × Address)}
    (rel : ∀ c adrs adrs', adrs.Alike c → adrs'.Alike c → Rel (Ends c) (op adrs) (op adrs')) :
    Unaffected op where
  same adrs adrs' alike := (rel adrs' adrs adrs' alike rfl).map_eq fun _ _ ends => ends.value
  keeps adrs a left ended := by
    obtain ⟨_, -, ends⟩ := (rel adrs adrs adrs rfl rfl).of_ok ended
    exact ends.left

/-! ## One-time keys -/

namespace OneTime

/-- A walk sets the step before each call, so it reads the step of its address only if it takes
none. -/
theorem walk_fst_congr (same : ∀ step, adrs.setHash step = adrs'.setHash step) (steps : Nat)
    (start : UInt32) (block : Bytes) :
    (walk H steps start adrs block).1 = (walk H steps start adrs' block).1 := by
  cases steps with
  | zero => rfl
  | succ steps => rw [walk, walk, same]

theorem chain_rel (alike : adrs.Alike c) (alike' : adrs'.Alike c) (index : UInt32) (block : Bytes)
    (start steps : UInt32) :
    Rel (Ends c) (chain H (adrs.setChain index) block start steps)
      (chain H (adrs'.setChain index) block start steps) := by
  refine rel_bind_same _ fun _ => ?_
  refine rel_bind_same _ fun _ => ?_
  have same (step : UInt32) :
      (adrs.setChain index).setHash step = (adrs'.setChain index).setHash step :=
    (alike.trans alike'.symm).setLast index step
  refine .ended ⟨walk_fst_congr same _ _ _, ?_, ?_⟩
  · exact ((walk_snd_alike _ _ _).trans (Address.alike_setChain _ _)).trans alike
  · exact ((walk_snd_alike _ _ _).trans (Address.alike_setChain _ _)).trans alike'

theorem walkAll_rel (stretches : List Stretch) (index : UInt32) (alike : adrs.Alike c)
    (alike' : adrs'.Alike c) :
    Rel (Ends c) (walkAll H index adrs stretches) (walkAll H index adrs' stretches) := by
  induction stretches generalizing index adrs adrs' with
  | nil => exact .ended ⟨rfl, alike, alike'⟩
  | cons stretch rest ih =>
      apply (chain_rel alike alike' index stretch.block stretch.start stretch.steps).bind
      rintro ⟨top, left⟩ ⟨_, left'⟩ ⟨⟨⟩, inside, inside'⟩
      apply (ih (index + 1) inside inside').bind
      rintro ⟨tops, last⟩ ⟨_, last'⟩ ⟨⟨⟩, inside, inside'⟩
      exact .ended ⟨rfl, inside, inside'⟩

theorem fromSecrets_congr (alike : adrs.Alike adrs') (skSeed : Bytes) (steps : List UInt32) :
    fromSecrets H skSeed adrs steps = fromSecrets H skSeed adrs' steps := by
  simp only [fromSecrets, secret_congr alike]

theorem publicKey_unaffected (count : Nat) (skSeed : Bytes) :
    Unaffected (publicKey H count skSeed) := by
  refine unaffected_of_rel fun c adrs adrs' alike alike' => ?_
  refine rel_bind_same _ fun _ => ?_
  simp only [fromSecrets_congr (alike.trans alike'.symm) skSeed]
  apply (walkAll_rel _ 0 alike alike').bind
  rintro ⟨tops, left⟩ ⟨_, left'⟩ ⟨⟨⟩, inside, inside'⟩
  exact .ended ⟨compress_congr (inside.trans inside'.symm) tops, inside, inside'⟩

theorem sign_unaffected (count : Nat) (message skSeed : Bytes) :
    Unaffected (sign H count message skSeed) := by
  refine unaffected_of_rel fun c adrs adrs' alike alike' => ?_
  refine rel_bind_same _ fun digits => ?_
  refine rel_bind_same _ fun _ => ?_
  refine rel_bind_same _ fun _ => ?_
  simp only [fromSecrets_congr (alike.trans alike'.symm) skSeed]
  apply (walkAll_rel _ 0 alike alike').bind
  rintro ⟨blocks, left⟩ ⟨_, left'⟩ ⟨⟨⟩, inside, inside'⟩
  exact .ended ⟨rfl, inside, inside'⟩

theorem publicKeyOf_unaffected (count : Nat) (signature message : Bytes) :
    Unaffected (publicKeyOf H count signature message) := by
  refine unaffected_of_rel fun c adrs adrs' alike alike' => ?_
  refine rel_bind_same _ fun digits => ?_
  refine rel_bind_same _ fun _ => ?_
  refine rel_bind_same _ fun _ => ?_
  refine rel_bind_same _ fun stretches => ?_
  apply (walkAll_rel stretches 0 alike alike').bind
  rintro ⟨tops, left⟩ ⟨_, left'⟩ ⟨⟨⟩, inside, inside'⟩
  exact .ended ⟨compress_congr (inside.trans inside'.symm) tops, inside, inside'⟩

end OneTime

/-! ## Trees -/

namespace MerkleTree

/-- What a tree gives apart from its address, and the address. -/
def Built.split (built : Built) : (Bytes × Bytes) × Address := ((built.root, built.path), built.adrs)

/-- The nodes of a level are hashed under the height that is set, each after its index is. -/
theorem pairUp_rel {base : UInt32} :
    (nodes : List Bytes) → (index : UInt32) → {adrs adrs' : Address} →
    (∀ low, adrs.setTreeIndex low = adrs'.setTreeIndex low) → adrs.Alike c → adrs'.Alike c →
    Rel (Ends c) (pairUp H base index adrs nodes) (pairUp H base index adrs' nodes)
  | [], _, _, _, _, alike, alike' => .ended ⟨rfl, alike, alike'⟩
  | [_], _, _, _, _, alike, alike' => .ended ⟨rfl, alike, alike'⟩
  | left :: right :: rest, index, adrs, adrs', same, alike, _ => by
      refine rel_bind_same _ fun number => ?_
      have inside : (adrs.setTreeIndex number).Alike c :=
        (Address.alike_setTreeIndex _ _).trans alike
      -- the index hides the only difference, so both runs go on from one address
      rw [← same number]
      apply (pairUp_rel rest (index + 1) (fun _ => rfl) inside inside).bind
      rintro ⟨nodes, left⟩ ⟨_, left'⟩ ⟨⟨⟩, inside, inside'⟩
      exact .ended ⟨rfl, inside, inside'⟩

theorem climb_rel {offset leafIndex : UInt32} {withPath : Bool} (more level : Nat)
    (nodes : List Bytes) (alike : adrs.Alike c) (alike' : adrs'.Alike c) :
    Rel (fun built other => Ends c built.split other.split)
      (climb H offset leafIndex withPath more level adrs nodes)
      (climb H offset leafIndex withPath more level adrs' nodes) := by
  induction more generalizing level nodes adrs adrs' with
  | zero =>
      cases nodes with
      | nil => exact .stopped .broken
      | cons root rest => exact .ended ⟨rfl, alike, alike'⟩
  | succ more ih =>
      rw [climb, climb, ite_bind, ite_bind]
      refine rel_bind_same _ fun beside => ?_
      refine rel_bind_same _ fun base => ?_
      have same (low : UInt32) : (adrs.setTreeHeight (UInt32.ofNat (level + 1))).setTreeIndex low =
          (adrs'.setTreeHeight (UInt32.ofNat (level + 1))).setTreeIndex low :=
        (alike.trans alike'.symm).setLast _ low
      apply (pairUp_rel nodes 0 same ((Address.alike_setTreeHeight _ _).trans alike)
        ((Address.alike_setTreeHeight _ _).trans alike')).bind
      rintro ⟨above, left⟩ ⟨_, left'⟩ ⟨⟨⟩, inside, inside'⟩
      apply (ih (level + 1) above inside inside').bind
      rintro ⟨root, path, last⟩ ⟨_, _, last'⟩ ⟨⟨⟩, inside, inside'⟩
      exact .ended ⟨rfl, inside, inside'⟩

theorem build_rel {height : Nat} {offset leafIndex : UInt32} {room : Option Nat}
    (leaf : UInt32 → Outcome Bytes) (alike : adrs.Alike c) (alike' : adrs'.Alike c) :
    Rel (fun built other => Ends c built.split other.split)
      (build H adrs height offset leafIndex room leaf)
      (build H adrs' height offset leafIndex room leaf) := by
  refine rel_bind_same _ fun _ => ?_
  refine rel_bind_same _ fun _ => ?_
  cases room with
  | none =>
      refine rel_bind_same _ fun _ => ?_
      refine rel_bind_same _ fun leaves => ?_
      exact climb_rel height 0 leaves alike alike'
  | some length =>
      refine rel_bind_same _ fun _ => ?_
      refine rel_bind_same _ fun _ => ?_
      refine rel_bind_same _ fun leaves => ?_
      exact climb_rel height 0 leaves alike alike'

theorem build_unaffected (height : Nat) (offset leafIndex : UInt32) (room : Option Nat)
    (leaf : UInt32 → Outcome Bytes) :
    Unaffected fun adrs => (build H adrs height offset leafIndex room leaf).map Built.split :=
  unaffected_of_rel fun _ _ _ alike alike' => (build_rel leaf alike alike').map

/-- A path is followed under addresses of which both last words are set. -/
theorem follow_rel {leafIndex globalIndex : UInt32} (path : List Bytes) (level : Nat) (node : Bytes)
    (alike : adrs.Alike c) (alike' : adrs'.Alike c) :
    Rel (Ends c) (follow H leafIndex globalIndex level adrs node path)
      (follow H leafIndex globalIndex level adrs' node path) := by
  induction path generalizing level node adrs adrs' with
  | nil => exact .ended ⟨rfl, alike, alike'⟩
  | cons beside path ih =>
      refine rel_bind_same _ fun index => ?_
      have same : (adrs.setTreeHeight (UInt32.ofNat (level + 1))).setTreeIndex index =
          (adrs'.setTreeHeight (UInt32.ofNat (level + 1))).setTreeIndex index :=
        (alike.trans alike'.symm).setLast _ index
      have inside : ((adrs'.setTreeHeight (UInt32.ofNat (level + 1))).setTreeIndex index).Alike c :=
        (Address.alike_setLast _ _ _).trans alike'
      simp only [same]
      refine rel_bind_same _ fun position => ?_
      exact ih (level + 1) _ inside inside

theorem rootOf_rel {height : Nat} {offset leafIndex : UInt32} (leaf path : Bytes)
    (alike : adrs.Alike c) (alike' : adrs'.Alike c) :
    Rel (Ends c) (rootOf H adrs height offset leafIndex leaf path)
      (rootOf H adrs' height offset leafIndex leaf path) := by
  refine rel_bind_same _ fun _ => ?_
  refine rel_bind_same _ fun _ => ?_
  refine rel_bind_same _ fun _ => ?_
  refine rel_bind_same _ fun node => ?_
  refine rel_bind_same _ fun globalIndex => ?_
  exact follow_rel _ 0 node alike alike'

theorem rootOf_unaffected (height : Nat) (offset leafIndex : UInt32) (leaf path : Bytes) :
    Unaffected fun adrs => rootOf H adrs height offset leafIndex leaf path :=
  unaffected_of_rel fun _ _ _ alike alike' => rootOf_rel leaf path alike alike'

end MerkleTree

/-! ## Forests -/

namespace Forest

/-- A leaf of a forest sets both words of the address that it is hashed under. -/
theorem leaf_congr (alike : adrs.Alike adrs') (skSeed : Bytes) (offset : UInt32) :
    leaf H skSeed adrs offset = leaf H skSeed adrs' offset := by
  funext i
  have same (index : UInt32) : leafAddress adrs index = leafAddress adrs' index :=
    alike.setLast 0 index
  simp only [leaf, same, secret_congr alike]

theorem buildTree_rel (skSeed : Bytes) (tree : Nat) (leafIndex : UInt32) (room : Option Nat)
    (alike : adrs.Alike c) (alike' : adrs'.Alike c) :
    Rel (fun built other => Ends c built.split other.split)
      (buildTree H p skSeed adrs tree leafIndex room)
      (buildTree H p skSeed adrs' tree leafIndex room) := by
  refine rel_bind_same _ fun offset => ?_
  rw [leaf_congr (alike.trans alike'.symm)]
  exact MerkleTree.build_rel _ alike alike'

theorem rootsFrom_rel (skSeed : Bytes) (more tree : Nat) (alike : adrs.Alike c)
    (alike' : adrs'.Alike c) :
    Rel (Ends c) (rootsFrom H p skSeed more tree adrs) (rootsFrom H p skSeed more tree adrs') := by
  induction more generalizing tree adrs adrs' with
  | zero => exact .ended ⟨rfl, alike, alike'⟩
  | succ more ih =>
      apply (buildTree_rel skSeed tree 0 none alike alike').bind
      rintro ⟨root, path, left⟩ ⟨_, _, left'⟩ ⟨⟨⟩, inside, inside'⟩
      apply (ih (tree + 1) inside inside').bind
      rintro ⟨roots, last⟩ ⟨_, last'⟩ ⟨⟨⟩, inside, inside'⟩
      exact .ended ⟨rfl, inside, inside'⟩

theorem publicKey_unaffected (skSeed : Bytes) : Unaffected (publicKey H p skSeed) := by
  refine unaffected_of_rel fun c adrs adrs' alike alike' => ?_
  refine rel_bind_same _ fun _ => ?_
  refine rel_bind_same _ fun _ => ?_
  apply (rootsFrom_rel skSeed p.k.toNat 0 alike alike').bind
  rintro ⟨roots, left⟩ ⟨_, left'⟩ ⟨⟨⟩, inside, inside'⟩
  exact .ended ⟨compress_congr (inside.trans inside'.symm) roots, inside, inside'⟩

/-- The segments and the roots, apart from the address. -/
theorem signFrom_rel (skSeed : Bytes) (room : Nat) (indices : List UInt32) (tree : Nat)
    (alike : adrs.Alike c) (alike' : adrs'.Alike c) :
    Rel (fun made other => made.1 = other.1 ∧ Ends c made.2 other.2)
      (signFrom H p skSeed room tree adrs indices) (signFrom H p skSeed room tree adrs' indices) := by
  induction indices generalizing tree adrs adrs' with
  | nil => exact .ended ⟨rfl, rfl, alike, alike'⟩
  | cons index rest ih =>
      refine rel_bind_same _ fun offset => ?_
      refine rel_bind_same _ fun globalIndex => ?_
      apply (buildTree_rel skSeed tree index (some room) alike alike').bind
      rintro ⟨root, path, left⟩ ⟨_, _, left'⟩ ⟨⟨⟩, inside, inside'⟩
      apply (ih (tree + 1) inside inside').bind
      rintro ⟨segments, roots, last⟩ ⟨_, _, last'⟩ ⟨⟨⟩, ⟨⟩, inside, inside'⟩
      rw [secret_congr (alike.trans alike'.symm)]
      exact .ended ⟨rfl, rfl, inside, inside'⟩

/-- What signing gives apart from its address, and the address. -/
def Signed.split (signed : Signed) : (Bytes × Bytes) × Address :=
  ((signed.signature, signed.publicKey), signed.adrs)

theorem sign_unaffected (digest skSeed : Bytes) (room : Nat) :
    Unaffected fun adrs => (sign H p digest skSeed adrs room).map Signed.split := by
  refine unaffected_of_rel fun c adrs adrs' alike alike' => Rel.map ?_
  refine rel_bind_same _ fun _ => ?_
  refine rel_bind_same _ fun _ => ?_
  refine rel_bind_same _ fun selected => ?_
  refine rel_bind_same _ fun _ => ?_
  refine rel_bind_same _ fun width => ?_
  refine rel_bind_same _ fun _ => ?_
  refine rel_bind_same _ fun pathRoom => ?_
  apply (signFrom_rel skSeed pathRoom selected 0 alike alike').bind
  rintro ⟨segments, roots, left⟩ ⟨_, _, left'⟩ ⟨⟨⟩, ⟨⟩, inside, inside'⟩
  have pk := compress_congr (H := H) (inside.trans inside'.symm) roots
  exact .ended ⟨congrArg (segments.flatten, ·) pk, inside, inside'⟩

theorem rootsOf_rel (segments : List (Bytes × UInt32)) (tree : Nat) (alike : adrs.Alike c)
    (alike' : adrs'.Alike c) :
    Rel (Ends c) (rootsOf H p tree adrs segments) (rootsOf H p tree adrs' segments) := by
  induction segments generalizing tree adrs adrs' with
  | nil => exact .ended ⟨rfl, alike, alike'⟩
  | cons pair rest ih =>
      refine rel_bind_same _ fun offset => ?_
      refine rel_bind_same _ fun ⟨revealed, path⟩ => ?_
      refine rel_bind_same _ fun index => ?_
      have same : leafAddress adrs index = leafAddress adrs' index :=
        (alike.trans alike'.symm).setLast 0 index
      have inside : (leafAddress adrs' index).Alike c :=
        (Address.alike_setLast _ _ _).trans alike'
      simp only [same]
      apply (MerkleTree.rootOf_rel _ path inside inside).bind
      rintro ⟨root, left⟩ ⟨_, left'⟩ ⟨⟨⟩, inside, inside'⟩
      apply (ih (tree + 1) inside inside').bind
      rintro ⟨roots, last⟩ ⟨_, last'⟩ ⟨⟨⟩, inside, inside'⟩
      exact .ended ⟨rfl, inside, inside'⟩

theorem publicKeyOf_unaffected (signature digest : Bytes) :
    Unaffected (publicKeyOf H p signature digest) := by
  refine unaffected_of_rel fun c adrs adrs' alike alike' => ?_
  refine rel_bind_same _ fun _ => ?_
  refine rel_bind_same _ fun selected => ?_
  refine rel_bind_same _ fun _ => ?_
  refine rel_bind_same _ fun width => ?_
  refine rel_bind_same _ fun _ => ?_
  apply (rootsOf_rel _ 0 alike alike').bind
  rintro ⟨roots, left⟩ ⟨_, left'⟩ ⟨⟨⟩, inside, inside'⟩
  exact .ended ⟨compress_congr (inside.trans inside'.symm) roots, inside, inside'⟩

end Forest

end HashSignature
