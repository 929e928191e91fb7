/-
# HashSignature.Proofs.Carrying — nothing stale reaches a result

An address is handed on from call to call and never cleared, by the operations and by the leaves of a
tree, which share one address of their own. Leaves set all that they read: their address stays in a
class of addresses that they do not tell apart, so each is the leaf that a fresh address gives. A
layer sets the kind first, which clears all that stands behind it; of what it was given it sees layer
and tree only.

* `mapM_eq` — computations that do not tell the addresses of a class apart, and stay in it.
* `leaves_eq`, `buildTreeOver_eq` — the leaves of a layer and of a forest are such.
* `UnaffectedIn` — what holds of the operations on trees in place, also when they are refused.
* `signIn_follows`, `rootOfIn_follows` — a layer's operations in place are those that return the
  address.
* `SeesTree` — the same ending for every address of a tree, and an address of that tree left behind;
  `signIn_eq` and `rootOfIn_eq` put this together with the operations that return the address.
* `stale_fields_are_never_read` — all operations, and what each leaves of its address.
-/
import HashSignature.Carrying
import HashSignature.Proofs.AddressHistory
import HashSignature.Proofs.Layer
import HashSignature.Proofs.StaleFields
import HashSignature.Proofs.TreeBounds

namespace HashSignature

set_option autoImplicit false

open Outcome Carrying

variable {H : TweakableHash} {p : Params} {α β γ δ : Type} {adrs adrs' : Address}

/-! ## Steps -/

namespace Carrying

theorem call_of {op : Address → Outcome (α × Address)} {a : α} {left : Address}
    (ended : op adrs = .ok (a, left)) : call op adrs = (.ok a, left) := by rw [call, ended]

theorem call_of_stop {op : Address → Outcome (α × Address)} {stop : Stop}
    (stopped : op adrs = .error stop) : call op adrs = (.error stop, adrs) := by rw [call, stopped]

/-- A call has the result of the operation. -/
theorem call_fst (op : Address → Outcome (α × Address)) :
    (call op adrs).1 = (op adrs).map Prod.fst := by
  rw [call]
  cases op adrs <;> rfl

/-- What is returned for a list of numbers, from an address of a class that the computations do not
leave and do not look into. -/
theorem mapM_eq {S : Address → Prop} {f : UInt32 → Carrying α} {g : UInt32 → Outcome α}
    (same : ∀ i own, S own → (f i own).1 = g i) (stays : ∀ i own, S own → S (f i own).2)
    (list : List Nat) {own : Address} (inside : S own) :
    ((list.mapM fun i => f (UInt32.ofNat i)) own).1 = list.mapM fun i => g (UInt32.ofNat i) := by
  induction list generalizing own with
  | nil => rfl
  | cons i rest ih =>
      have here := same (UInt32.ofNat i) own inside
      have left_inside := stays (UInt32.ofNat i) own inside
      rw [List.mapM_cons, List.mapM_cons, ← here]
      rcases run : f (UInt32.ofNat i) own with ⟨outcome, left⟩
      rw [run] at left_inside
      cases outcome with
      | error stop => rw [bind_of_stop run, error_bind]
      | ok a =>
          rw [bind_of_run run, ok_bind, ← ih left_inside]
          rcases later : (rest.mapM fun i => f (UInt32.ofNat i)) left with ⟨others, last⟩
          cases others with
          | error stop => rw [bind_of_stop later, error_bind]
          | ok others => rw [bind_of_run later, ok_bind]; rfl

end Carrying

/-! ## Leaves with an address of their own -/

/-- The secrets of a key pair, under one address that is only told the chain. -/
theorem OneTime.secrets_eq (skSeed : Bytes) (adrs : Address) (count : Nat) :
    each (secretIn H skSeed) count (secretAddress adrs) =
      (List.range count).mapM fun i => .ok (secret H skSeed adrs (UInt32.ofNat i)) := by
  apply Carrying.mapM_eq (S := fun own => ∀ i, own.setChain i = (secretAddress adrs).setChain i)
    (g := fun i => .ok (secret H skSeed adrs i))
  · intro i own known
    exact congrArg (fun own => Except.ok (H.prf own skSeed)) (known i)
  · intro i own known k
    exact (own.setChain_setChain i k).trans (known k)
  · intro i
    rfl

namespace Forest

theorem leafIn_eq (skSeed : Bytes) (offset i : UInt32) {own : Address} (alike : own.Alike adrs) :
    (leafIn H skSeed offset i own).1 = leaf H skSeed adrs offset i ∧
      (leafIn H skSeed offset i own).2.Alike adrs := by
  rw [← leaf_congr alike, leaf, leafIn]
  cases add32 offset i with
  | error stop => exact ⟨rfl, alike⟩
  | ok index => exact ⟨rfl, (Address.alike_setLast own 0 index).trans alike⟩

end Forest

theorem MerkleTree.buildOver_eq {height : Nat} {offset leafIndex : UInt32} {room : Option Nat}
    {own : Address} {leafIn : UInt32 → Carrying Bytes} {leaf : UInt32 → Outcome Bytes}
    (leaves : each leafIn (2 ^ height) own =
      (List.range (2 ^ height)).mapM fun i => leaf (UInt32.ofNat i)) :
    buildOver H adrs height offset leafIndex room own leafIn =
      build H adrs height offset leafIndex room leaf := by
  rw [buildOver, leaves]
  cases room <;> rfl

/-- A tree of a forest does not depend on what its leaves leave in their address. -/
theorem Forest.buildTreeOver_eq (skSeed : Bytes) (adrs : Address) (tree : Nat) (leafIndex : UInt32)
    (room : Option Nat) : buildTreeOver H p skSeed adrs tree leafIndex room =
      buildTree H p skSeed adrs tree leafIndex room := by
  rw [buildTreeOver, buildTree]
  cases treeOffset p tree with
  | error stop => rfl
  | ok offset =>
      apply MerkleTree.buildOver_eq
      apply Carrying.mapM_eq (S := fun own => own.Alike adrs)
      · exact fun i own alike => (leafIn_eq skSeed offset i alike).1
      · exact fun i own alike => (leafIn_eq skSeed offset i alike).2
      · exact .refl adrs

/-! ## Trees in place -/

namespace MerkleTree

/-- An operation in place gives workspaces with alike addresses the same end, root and path, and
leaves an address alike to the one it found, whether or not it is refused. -/
structure UnaffectedIn (run : Building Unit) (work : Workspace) : Prop where
  same : ∀ adrs : Address, adrs.Alike work.adrs →
    (run { work with adrs }).1 = (run work).1 ∧
      (run { work with adrs }).2.root = (run work).2.root ∧
      (run { work with adrs }).2.path? = (run work).2.path?
  keeps : (run work).2.adrs.Alike work.adrs

variable {height : Nat} {offset leafIndex : UInt32}

/-- Runs that are refused alike leave their workspaces as they were, and there is nothing to show for
runs that succeed alike. -/
theorem unaffectedIn_of {run : Building Unit} {work : Workspace} {length? : Option Nat}
    (judged : ∀ adrs : Address,
      JudgedIn H.n height offset leafIndex length? run { work with adrs })
    (done : ¬ Outside height offset leafIndex → RightLength H.n height length? →
      ∃ (root : Bytes) (path? : Option Bytes), ∀ adrs : Address, adrs.Alike work.adrs →
        ∃ left arena, run { work with adrs } = (.ok ⟨⟩, ⟨left, root, path?, arena⟩) ∧
          left.Alike work.adrs) :
    UnaffectedIn run work := by
  have here := judged work.adrs
  rcases here.judged.agree here.judged with ⟨inside, right⟩ | ⟨cause, refused, -⟩
  · obtain ⟨root, path?, ends⟩ := done inside right
    obtain ⟨left, arena, ran, alike⟩ := ends work.adrs rfl
    refine ⟨fun adrs same => ?_, by rw [ran]; exact alike⟩
    obtain ⟨left', arena', ran', -⟩ := ends adrs same
    rw [ran, ran']
    exact ⟨rfl, rfl, rfl⟩
  · refine ⟨fun adrs _ => ?_, by rw [here.atomic _ refused]⟩
    rcases here.judged.agree (judged adrs).judged with ⟨inside, right⟩ | ⟨cause', refused, refused'⟩
    · obtain ⟨root, path?, ends⟩ := done inside right
      obtain ⟨left, arena, ran, -⟩ := ends work.adrs rfl
      rw [ran] at refused
      cases refused
    · rw [(judged adrs).atomic _ refused', here.atomic _ refused, refused, refused']
      exact ⟨rfl, rfl, rfl⟩

theorem buildIn_unaffected (pos : 0 < H.n) (small : H.n ≤ 32) {leaf : UInt32 → Bytes}
    (full : ∀ i, (leaf i).length = H.n) (work : Workspace) (root_room : work.root.length = H.n) :
    UnaffectedIn (buildIn H height offset leafIndex fun i => .ok (leaf i)) work := by
  have filled (i : UInt32) (block : Bytes) (made : Except.ok (leaf i) = (.ok block : Outcome Bytes)) :
      block.length = H.n := Except.ok.inj made ▸ full i
  have judged (adrs : Address) : JudgedIn H.n height offset leafIndex (work.path?.map List.length)
      (buildIn H height offset leafIndex fun i => .ok (leaf i)) { work with adrs } :=
    judged_buildIn pos small (fun _ _ => rfl) filled { work with adrs } root_room
  refine unaffectedIn_of judged fun inside right => ?_
  obtain ⟨low, inside, ends⟩ := fits_of_not_outside inside
  have made : ∃ built, build H work.adrs height offset leafIndex (work.path?.map List.length)
      (fun i => .ok (leaf i)) = .ok built :=
    have ⟨_, made, _⟩ := build_eq (H := H) offset leafIndex _ low inside ends pos small right
      (fun _ _ => rfl) work.adrs
    ⟨_, made⟩
  obtain ⟨built, made⟩ := made
  refine ⟨built.root, work.path?.map fun _ => built.path, fun adrs alike => ?_⟩
  obtain ⟨other, made', value, -, alike'⟩ := (build_rel _ (.refl work.adrs) alike).of_ok made
  obtain ⟨root_eq, path_eq⟩ := Prod.mk.inj value
  obtain ⟨arena, ran⟩ := buildIn_eq filled small { work with adrs } root_room made'
  refine ⟨other.adrs, arena, ?_, alike'⟩
  rw [ran, ← root_eq, ← path_eq]

theorem rootIn_unaffected (pos : 0 < H.n) (small : H.n ≤ 32) {first : Bytes}
    (whole : first.length = H.n) (path : Bytes) (work : Workspace)
    (root_room : work.root.length = H.n) :
    UnaffectedIn (rootIn H height offset leafIndex first path) work := by
  have judged (adrs : Address) : JudgedIn H.n height offset leafIndex (some path.length)
      (rootIn H height offset leafIndex first path) { work with adrs } :=
    judged_rootIn pos small whole path { work with adrs } root_room
  refine unaffectedIn_of judged fun inside right => ?_
  obtain ⟨low, inside, ends⟩ := fits_of_not_outside inside
  obtain ⟨left, reached, -⟩ := rootOf_eq (H := H) offset leafIndex first path low inside ends pos
    small whole (right _ rfl) work.adrs
  refine ⟨ascent H work.adrs offset.toNat leafIndex.toNat 0 first (Bytes.blocks H.n height path),
    work.path?, fun adrs alike => ?_⟩
  obtain ⟨⟨root, left'⟩, reached', value, -, alike'⟩ :=
    (rootOf_rel first path (.refl work.adrs) alike).of_ok reached
  obtain rfl := value
  have ran := rootIn_eq { work with adrs } root_room reached'
  exact ⟨left', work.arena, ran, alike'⟩

end MerkleTree

/-! ## Layers in place -/

/-- A call of an operation that keeps the front of its address keeps it, whether or not it ends. -/
theorem Unaffected.call_keeps {op : Address → Outcome (α × Address)} (unaffected : Unaffected op)
    (adrs : Address) : (call op adrs).2.Alike adrs := by
  cases ended : op adrs with
  | error stop => rw [call_of_stop ended]
  | ok result => rw [call_of ended]; exact unaffected.keeps adrs _ _ ended

/-- A run in place ends as an operation does that returns the address; `split` says which part of its
result that is. -/
inductive Follows (split : γ → α × Address) : Outcome α × Address → Outcome γ → Prop
  | stopped (stop : Stop) (left : Address) : Follows split (.error stop, left) (.error stop)
  | ended (result : γ) : Follows split (.ok (split result).1, (split result).2) (.ok result)

theorem Follows.fst_eq {split : γ → α × Address} {run : Outcome α × Address} {outcome : Outcome γ}
    (follows : Follows split run outcome) : run.1 = outcome.map fun result => (split result).1 := by
  cases follows <;> rfl

theorem Follows.bind {split : γ → α × Address} {split' : δ → β × Address} {first : Carrying α}
    {outcome : Outcome γ} {f : α → Carrying β} {g : γ → Outcome δ}
    (follows : Follows split (first adrs) outcome)
    (next : ∀ result, Follows split' (f (split result).1 (split result).2) (g result)) :
    Follows split' ((first >>= f) adrs) (outcome >>= g) := by
  rcases run : first adrs with ⟨ending, left⟩
  rw [run] at follows
  cases follows with
  | stopped stop =>
      rw [bind_of_stop run]
      exact .stopped stop left
  | ended result =>
      rw [bind_of_run run]
      exact next result

/-- A step that sets nothing. -/
theorem follows_bind_same {split : δ → β × Address} (x : Outcome γ) {f : γ → Carrying β}
    {g : γ → Outcome δ} (next : ∀ a, Follows split (f a adrs) (g a)) :
    Follows split ((ofOutcome x >>= f) adrs) (x >>= g) := by
  cases x with
  | error stop => exact .stopped stop adrs
  | ok a => exact next a

theorem call_follows (op : Address → Outcome (α × Address)) (adrs : Address) :
    Follows id (call op adrs) (op adrs) := by
  rw [call]
  cases op adrs with
  | error stop => exact .stopped stop adrs
  | ok result => exact Follows.ended result

namespace Layer

/-- The leaves of a layer's tree clear nothing: each sets its key pair over what the ones before it
left, and the chains of a key pair set the rest. -/
theorem leaves_eq (skSeed : Bytes) (adrs : Address) (count : Nat) :
    each (leafIn H p skSeed) count (adrs.setType .wotsHash) =
      (List.range count).mapM fun i => leaf H p skSeed adrs (UInt32.ofNat i) := by
  have unaffected := OneTime.publicKey_unaffected (H := H) p.len.toNat skSeed
  -- the class: what is alike to the address of a key pair as soon as that key pair is set
  apply Carrying.mapM_eq (S := fun own => ∀ i, (own.setKeyPair i).Alike (keyAddress adrs i))
  · intro i own known
    change (call (OneTime.publicKey H p.len.toNat skSeed) (own.setKeyPair i)).1 = _
    rw [call_fst, unaffected.same _ _ (known i), leaf]
    cases OneTime.publicKey H p.len.toNat skSeed (keyAddress adrs i) <;> rfl
  · intro i own known k
    have kept := (unaffected.call_keeps (own.setKeyPair i)).setKeyPair k
    rw [Address.setKeyPair_setKeyPair] at kept
    exact kept.trans (known k)
  · exact fun i => .refl _

/-- The tree at an address is built over the leaves that `leaf` names. -/
theorem buildOn_eq (skSeed : Bytes) (leafIndex : UInt32) (room : Option Nat) (adrs : Address) :
    buildOn H p skSeed leafIndex room adrs =
      call (fun nodes => (MerkleTree.build H nodes p.hp.toNat 0 leafIndex room
        (leaf H p skSeed adrs)).map MerkleTree.Built.split) (adrs.setType .tree) := by
  rw [buildOn, get_bind, modify_bind]
  simp only [MerkleTree.buildOver_eq (leaves_eq skSeed adrs _), bind_pure_eq_map]
  rfl

theorem buildOn_follows (skSeed : Bytes) (leafIndex : UInt32) (room : Option Nat) (adrs : Address) :
    Follows MerkleTree.Built.split (buildOn H p skSeed leafIndex room adrs)
      (build H p skSeed adrs leafIndex room) := by
  rw [buildOn_eq, call, build]
  cases MerkleTree.build H (adrs.setType .tree) p.hp.toNat 0 leafIndex room (leaf H p skSeed adrs) with
  | error stop => exact .stopped stop _
  | ok built => exact .ended built

/-- What signing gives apart from its address, and the address. -/
def Signed.split (signed : Signed) : (Bytes × Bytes) × Address :=
  ((signed.signature, signed.root), signed.adrs)

theorem signIn_follows (message skSeed : Bytes) (index : UInt32) (adrs : Address) :
    Follows Signed.split (signIn H p message skSeed index adrs)
      (sign H p message skSeed index adrs) := by
  refine follows_bind_same _ fun length => ?_
  refine follows_bind_same _ fun _ => ?_
  refine follows_bind_same _ fun oneTimeSize => ?_
  refine follows_bind_same _ fun room => ?_
  apply (buildOn_follows skSeed index (some room) adrs).bind
  intro built
  apply (call_follows (OneTime.sign H p.len.toNat message skSeed) (keyAddress built.adrs index)).bind
  rintro ⟨oneTime, left⟩
  exact Follows.ended (⟨oneTime ++ built.path, built.root, left⟩ : Signed)

theorem rootOfIn_follows (index : UInt32) (signature message : Bytes) (adrs : Address) :
    Follows id (rootOfIn H p index signature message adrs)
      (rootOf H p index signature message adrs) := by
  refine follows_bind_same _ fun oneTimeSize => ?_
  refine follows_bind_same _ fun ⟨oneTime, path⟩ => ?_
  apply (call_follows (OneTime.publicKeyOf H p.len.toNat oneTime message)
    (keyAddress adrs index)).bind
  rintro ⟨key, left⟩
  exact call_follows (fun adrs => MerkleTree.rootOf H adrs p.hp.toNat 0 index key path)
    (left.setType .tree)

end Layer

/-! ## What a layer sees of its address -/

/-- However a computation ends, the address that it leaves is one of the same tree. -/
def KeepsTree (run : Carrying α) : Prop := ∀ adrs, (run adrs).2.SameTree adrs

/-- A computation that reads nothing but layer and tree from its address, and keeps both. -/
structure SeesTree (run : Carrying α) : Prop where
  same : ∀ adrs adrs', adrs.SameTree adrs' → (run adrs).1 = (run adrs').1
  keeps : KeepsTree run

section Trees

variable {first : Carrying α} {next : α → Carrying β} {change : Address → Address}

theorem KeepsTree.bind (keeps : KeepsTree first) (after : ∀ a, KeepsTree (next a)) :
    KeepsTree (first >>= next) := by
  intro adrs
  have kept := keeps adrs
  rcases run : first adrs with ⟨ending, left⟩
  rw [run] at kept
  cases ending with
  | error stop =>
      rw [bind_of_stop run]
      exact kept
  | ok a =>
      rw [bind_of_run run]
      exact (after a left).trans kept

theorem keepsTree_pure (a : α) : KeepsTree (pure a : Carrying α) := fun adrs => .refl adrs

theorem keepsTree_modify (behind : ∀ adrs, (change adrs).SameTree adrs) :
    KeepsTree (modify change : Carrying PUnit) := behind

theorem Unaffected.keepsTree {op : Address → Outcome (α × Address)} (unaffected : Unaffected op) :
    KeepsTree (call op) :=
  fun adrs => .of_alike (unaffected.call_keeps adrs)

theorem setType_keepsTree (kind : AddressType) : KeepsTree (modify (·.setType kind)) :=
  keepsTree_modify fun adrs => .put adrs (by omega) _

theorem setKeyPair_keepsTree (keyPair : UInt32) : KeepsTree (modify (·.setKeyPair keyPair)) :=
  keepsTree_modify fun adrs => .put adrs (by omega) _

theorem SeesTree.bind (sees : SeesTree first) (after : ∀ a, SeesTree (next a)) :
    SeesTree (first >>= next) where
  same adrs adrs' same := by
    have ending := sees.same adrs adrs' same
    have kept := sees.keeps adrs
    have kept' := sees.keeps adrs'
    rcases run : first adrs with ⟨outcome, left⟩
    rcases run' : first adrs' with ⟨outcome', left'⟩
    rw [run] at ending kept
    rw [run'] at ending kept'
    obtain rfl : outcome = outcome' := ending
    cases outcome with
    | error stop => rw [bind_of_stop run, bind_of_stop run']
    | ok a =>
        rw [bind_of_run run, bind_of_run run']
        exact (after a).same left left' ((kept.trans same).trans kept'.symm)
  keeps := sees.keeps.bind fun a => (after a).keeps

theorem seesTree_ofOutcome (outcome : Outcome α) : SeesTree (ofOutcome outcome) where
  same _ _ _ := rfl
  keeps adrs := .refl adrs

/-- What starts by setting the kind goes on from one address for a whole tree. -/
theorem seesTree_setType (kind : AddressType) {rest : Carrying α} (keeps : KeepsTree rest) :
    SeesTree (modify (·.setType kind) >>= fun _ => rest) where
  same adrs adrs' same := by rw [modify_bind, modify_bind, same.setType]
  keeps := (setType_keepsTree kind).bind fun _ => keeps

end Trees

namespace Layer

theorem buildOn_sees (skSeed : Bytes) (leafIndex : UInt32) (room : Option Nat) :
    SeesTree (buildOn H p skSeed leafIndex room) where
  same adrs adrs' same := by
    rw [buildOn, get_bind, get_bind, modify_bind, modify_bind, same.setType, same.setType]
  keeps adrs := by
    have unaffected := MerkleTree.build_unaffected (H := H) p.hp.toNat 0 leafIndex room
      (leaf H p skSeed adrs)
    rw [buildOn_eq]
    exact (unaffected.keepsTree _).trans (.put adrs (by omega) _)

theorem signIn_sees (message skSeed : Bytes) (index : UInt32) :
    SeesTree (signIn H p message skSeed index) := by
  refine (seesTree_ofOutcome _).bind fun length => ?_
  refine (seesTree_ofOutcome _).bind fun _ => ?_
  refine (seesTree_ofOutcome _).bind fun oneTimeSize => ?_
  refine (seesTree_ofOutcome _).bind fun room => ?_
  refine (buildOn_sees skSeed index (some room)).bind fun ⟨root, path⟩ => ?_
  apply seesTree_setType
  refine (setKeyPair_keepsTree index).bind fun _ => ?_
  refine (OneTime.sign_unaffected _ message skSeed).keepsTree.bind fun oneTime => ?_
  exact keepsTree_pure _

theorem rootOfIn_sees (index : UInt32) (signature message : Bytes) :
    SeesTree (rootOfIn H p index signature message) := by
  refine (seesTree_ofOutcome _).bind fun oneTimeSize => ?_
  refine (seesTree_ofOutcome _).bind fun ⟨oneTime, path⟩ => ?_
  apply seesTree_setType
  refine (setKeyPair_keepsTree index).bind fun _ => ?_
  refine (OneTime.publicKeyOf_unaffected _ oneTime message).keepsTree.bind fun key => ?_
  refine (setType_keepsTree .tree).bind fun _ => ?_
  exact (MerkleTree.rootOf_unaffected p.hp.toNat 0 index key path).keepsTree

/-- From every address of a tree, signing in place ends as signing does. -/
theorem signIn_eq (message skSeed : Bytes) (index : UInt32) (same : adrs'.SameTree adrs) :
    (signIn H p message skSeed index adrs').1 =
      (sign H p message skSeed index adrs).map fun signed => (signed.signature, signed.root) := by
  rw [(signIn_sees message skSeed index).same adrs' adrs same]
  exact (signIn_follows message skSeed index adrs).fst_eq

/-- From every address of a tree, following a segment in place ends as following it does. -/
theorem rootOfIn_eq (index : UInt32) (signature message : Bytes) (same : adrs'.SameTree adrs) :
    (rootOfIn H p index signature message adrs').1 =
      (rootOf H p index signature message adrs).map Prod.fst := by
  rw [(rootOfIn_sees index signature message).same adrs' adrs same]
  exact (rootOfIn_follows index signature message adrs).fst_eq

end Layer

/-! ## Refusals -/

namespace OneTime

/-- A signature that is too short breaks a rule of the machine; nothing is refused. -/
theorem publicKeyOf_ne_refuse {count : Nat} (enough : Params.checksumDigits ≤ count)
    (few : count ≤ Params.maxChains) (pos : 0 < H.n) (le : H.n ≤ Params.maxDigest)
    (signature message : Bytes) (adrs : Address) (cause : Fault) :
    publicKeyOf H count signature message adrs ≠ refuse cause := by
  by_cases long : count * H.n ≤ signature.length
  · obtain ⟨left, recovered, -⟩ :=
      publicKeyOf_eq (H := H) enough few pos le signature long message adrs
    rw [recovered]
    exact (refuse_ne_ok cause _).symm
  · rw [publicKeyOf, Winternitz.digits_eq enough few, ok_bind, ensureRoom,
      ensure_of (Nat.mul_le_mul few le), ok_bind, ensure_of pos, ok_bind, cut, if_neg long]
    exact (refuse_ne_broken cause).symm

end OneTime

namespace Forest

/-- What signing refuses is the length of the signature, before it changes its address. -/
theorem checkLength_of_sign_refused (sound : p.Sound) (width : H.n = p.n.toNat)
    {digest skSeed : Bytes} {room : Nat} {cause : Fault}
    (refused : sign H p digest skSeed adrs room = refuse cause) :
    checkLength p room = refuse cause := by
  by_cases full : room = p.k.toNat * ((p.a.toNat + 1) * p.n.toNat)
  · obtain ⟨left, signed, -⟩ := sign_eq (H := H) sound width digest skSeed adrs
    rw [full, signed] at refused
    exact absurd refused.symm (refuse_ne_ok cause _)
  · by_cases fits : room ≤ maxBuffer
    · rw [sign_of_ne sound digest skSeed adrs fits full] at refused
      cases refused
      exact checkLength_of_ne sound full
    · rw [sign, buffer, ensure, if_neg fits] at refused
      exact absurd refused.symm (refuse_ne_broken cause)

theorem checkLength_of_publicKeyOf_refused (sound : p.Sound) (width : H.n = p.n.toNat)
    {signature digest : Bytes} {cause : Fault}
    (refused : publicKeyOf H p signature digest adrs = refuse cause) :
    checkLength p signature.length = refuse cause := by
  by_cases full : signature.length = p.k.toNat * ((p.a.toNat + 1) * p.n.toNat)
  · obtain ⟨left, recovered, -⟩ := publicKeyOf_eq (H := H) sound width signature full digest adrs
    rw [recovered] at refused
    exact absurd refused.symm (refuse_ne_ok cause _)
  · rw [publicKeyOf_of_ne sound digest adrs full] at refused
    cases refused
    exact checkLength_of_ne sound full

end Forest

/-! ## The nine operations -/

/-- The operations of a one-time key read neither chain nor step of their address and change nothing
else in it. None of them is refused, so none leaves an address that it did not return. -/
structure OneTime.NothingStale (H : TweakableHash) (count : Nat) : Prop where
  publicKey : ∀ skSeed, Unaffected (publicKey H count skSeed)
  sign : ∀ message skSeed, Unaffected (sign H count message skSeed)
  publicKeyOf : ∀ signature message, Unaffected (publicKeyOf H count signature message)
  unrefused : ∀ (skSeed message signature : Bytes) (adrs : Address) (cause : Fault),
    OneTime.publicKey H count skSeed adrs ≠ refuse cause ∧
      OneTime.sign H count message skSeed adrs ≠ refuse cause ∧
      OneTime.publicKeyOf H count signature message adrs ≠ refuse cause
  /-- The address of the secrets, which is handed on from chain to chain. -/
  secrets : ∀ skSeed adrs, each (secretIn H skSeed) count (secretAddress adrs) =
    (List.range count).mapM fun i => .ok (secret H skSeed adrs (UInt32.ofNat i))

/-- The operations of a forest read neither height nor index of their address and change nothing else
in it. What they refuse is the length of a signature, before they change anything. -/
structure Forest.NothingStale (H : TweakableHash) (p : Params) : Prop where
  publicKey : ∀ skSeed, Unaffected (publicKey H p skSeed)
  sign : ∀ digest skSeed room,
    Unaffected fun adrs => (sign H p digest skSeed adrs room).map Signed.split
  publicKeyOf : ∀ signature digest, Unaffected (publicKeyOf H p signature digest)
  publicKey_unrefused : ∀ skSeed adrs cause, Forest.publicKey H p skSeed adrs ≠ refuse cause
  sign_refused : ∀ digest skSeed adrs room cause,
    Forest.sign H p digest skSeed adrs room = refuse cause → checkLength p room = refuse cause
  publicKeyOf_refused : ∀ signature digest adrs cause,
    Forest.publicKeyOf H p signature digest adrs = refuse cause →
      checkLength p signature.length = refuse cause
  /-- The address of the leaves, which is handed on from leaf to leaf. -/
  leaves : ∀ skSeed adrs tree leafIndex room,
    buildTreeOver H p skSeed adrs tree leafIndex room = buildTree H p skSeed adrs tree leafIndex room

/-- The two operations on trees read neither height nor index of their address and change nothing else
in it, whatever the leaves are; those in place also when they are refused. -/
structure MerkleTree.NothingStale (H : TweakableHash) : Prop where
  build : ∀ height offset leafIndex room leaf,
    Unaffected fun adrs => (build H adrs height offset leafIndex room leaf).map Built.split
  rootOf : ∀ height offset leafIndex leaf path,
    Unaffected fun adrs => rootOf H adrs height offset leafIndex leaf path
  buildIn : ∀ (height : Nat) (offset leafIndex : UInt32) (leaf : UInt32 → Bytes) (work : Workspace),
    (∀ i, (leaf i).length = H.n) → work.root.length = H.n →
      UnaffectedIn (buildIn H height offset leafIndex fun i => .ok (leaf i)) work
  rootIn : ∀ (height : Nat) (offset leafIndex : UInt32) (leaf path : Bytes) (work : Workspace),
    leaf.length = H.n → work.root.length = H.n →
      UnaffectedIn (rootIn H height offset leafIndex leaf path) work

/-- The operations of a layer, on an address that they change in place, read layer and tree only and
keep both, also when they are refused. -/
structure Layer.NothingStale (H : TweakableHash) (p : Params) : Prop where
  sign : ∀ message skSeed index, SeesTree (signIn H p message skSeed index)
  rootOf : ∀ index signature message, SeesTree (rootOfIn H p index signature message)
  /-- They end as those that return the address. -/
  sign_follows : ∀ message skSeed index adrs,
    Follows Signed.split (signIn H p message skSeed index adrs)
      (Layer.sign H p message skSeed index adrs)
  rootOf_follows : ∀ index signature message adrs,
    Follows id (rootOfIn H p index signature message adrs)
      (Layer.rootOf H p index signature message adrs)
  /-- The address of the leaves, which is handed on from leaf to leaf. -/
  leaves : ∀ skSeed adrs count, each (leafIn H p skSeed) count (adrs.setType .wotsHash) =
    (List.range count).mapM fun i => leaf H p skSeed adrs (UInt32.ofNat i)

theorem OneTime.nothingStale (sound : p.Sound) (width : H.n = p.n.toNat) :
    OneTime.NothingStale H p.len.toNat where
  publicKey skSeed := publicKey_unaffected p.len.toNat skSeed
  sign message skSeed := sign_unaffected p.len.toNat message skSeed
  publicKeyOf signature message := publicKeyOf_unaffected p.len.toNat signature message
  unrefused skSeed message signature adrs cause := by
    have pos : 0 < H.n := width ▸ sound.n_pos
    have le : H.n ≤ Params.maxDigest := width ▸ sound.n_le
    have enough := Layer.enough_chains sound
    obtain ⟨left, generated, -⟩ :=
      publicKey_eq (H := H) p.len.toNat (Nat.mul_le_mul sound.chains_le le) pos skSeed adrs
    obtain ⟨left', signed, -⟩ :=
      sign_eq (H := H) enough sound.chains_le pos le message skSeed adrs
    rw [generated, signed]
    exact ⟨(refuse_ne_ok cause _).symm, (refuse_ne_ok cause _).symm,
      publicKeyOf_ne_refuse enough sound.chains_le pos le signature message adrs cause⟩
  secrets skSeed adrs := secrets_eq skSeed adrs p.len.toNat

theorem Forest.nothingStale (sound : p.Sound) (width : H.n = p.n.toNat) :
    Forest.NothingStale H p where
  publicKey := publicKey_unaffected
  sign := sign_unaffected
  publicKeyOf := publicKeyOf_unaffected
  publicKey_unrefused skSeed adrs cause := by
    obtain ⟨left, generated, -⟩ := publicKey_eq (H := H) sound width skSeed adrs
    rw [generated]
    exact (refuse_ne_ok cause _).symm
  sign_refused _ _ _ _ _ := checkLength_of_sign_refused sound width
  publicKeyOf_refused _ _ _ _ := checkLength_of_publicKeyOf_refused sound width
  leaves := buildTreeOver_eq

theorem MerkleTree.nothingStale (pos : 0 < H.n) (small : H.n ≤ 32) :
    MerkleTree.NothingStale H where
  build := build_unaffected
  rootOf := rootOf_unaffected
  buildIn _ _ _ _ work full := buildIn_unaffected pos small full work
  rootIn _ _ _ _ path work whole := rootIn_unaffected pos small whole path work

theorem Layer.nothingStale : Layer.NothingStale H p where
  sign := signIn_sees
  rootOf := rootOfIn_sees
  sign_follows := signIn_follows
  rootOf_follows := rootOfIn_follows
  leaves := leaves_eq

/-- No stale field of an address influences a result. The three operations of a one-time key, the
three of a forest and the two on trees give the same result for addresses that agree before their
last two words, chain and step or height and index, and leave an address that differs from the one
they were given there only. The two of a layer give the same result for addresses with the same layer
and tree, and leave an address with both. An address that is handed on between chains or leaves
changes nothing either. -/
theorem stale_fields_are_never_read {p : Params} (accepted : p.check = .ok ()) (H : TweakableHash)
    (width : H.n = p.n.toNat) :
    (∀ a b : Address, a.Alike b ↔ a.bytes.take 24 = b.bytes.take 24) ∧
    (∀ updates others, (Address.after updates).SameTree (Address.after others) ↔
      (Address.after updates).layer = (Address.after others).layer ∧
        (Address.after updates).tree = (Address.after others).tree) ∧
    OneTime.NothingStale H p.len.toNat ∧ Forest.NothingStale H p ∧ MerkleTree.NothingStale H ∧
    Layer.NothingStale H p := by
  have sound := Params.sound_of_check accepted
  refine ⟨fun a b => ⟨Address.take_of_alike, Address.alike_of_take⟩, Address.sameTree_after_iff,
    OneTime.nothingStale sound width, Forest.nothingStale sound width, ?_, Layer.nothingStale⟩
  exact MerkleTree.nothingStale (width ▸ sound.n_pos) (width ▸ sound.n_le)

/-- A one-time key under an address where a chain and a step were left behind, and a layer under one
that carries another kind, key pair and step. -/
theorem stale_fields_are_never_read_smallest :
    (OneTime.publicKey (.shake 16 (Bytes.zeros 16)) 35 [] (Address.after
        [.keyPair 2, .chain 7, .hash 9])).map Prod.fst =
      (OneTime.publicKey (.shake 16 (Bytes.zeros 16)) 35 [] (Address.after [.keyPair 2])).map
        Prod.fst ∧
    (Layer.signIn (.shake 16 (Bytes.zeros 16)) (.ofBase .shake 16 1 1 1 1) [1] [] 0
        (Address.after [.tree 5, .type .forsRoots, .keyPair 3, .hash 4])).1 =
      (Layer.signIn (.shake 16 (Bytes.zeros 16)) (.ofBase .shake 16 1 1 1 1) [1] [] 0
        (Address.after [.tree 5])).1 := by
  obtain ⟨alike, sameTree, oneTime, -, -, layer⟩ := stale_fields_are_never_read
    (p := .ofBase .shake 16 1 1 1 1) rfl (.shake 16 (Bytes.zeros 16)) rfl
  refine ⟨?_, ?_⟩
  · exact (oneTime.publicKey []).same _ _ ((alike _ _).2 (by decide))
  · exact (layer.sign [1] [] 0).same _ _ ((sameTree _ _).2 (by decide))

end HashSignature
