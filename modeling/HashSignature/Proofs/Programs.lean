/-
# HashSignature.Proofs.Programs — the operations of the scheme as programs

Each operation that hashes is restated here as a program, line by line: a line that hashes is a call,
every other line is lifted as it stands. `answer_…Program` says that under all hash functions the
program ends as the operation does, with the same value or the same fault. Equal results do not make
the calls equal; that the calls of a program are those of the operation rests on their lines being
the same.

A chain checks the length of its block against the digest size here. That is a narrower rule than
the operation's, but no block of another length reaches a chain.
-/
import HashSignature.Proofs.HashProgram
import HashSignature.Proofs.OneTime
import HashSignature.Signing

namespace HashSignature

set_option autoImplicit false

open Outcome HashProgram

variable {H : TweakableHash}

/-! ## One-time signatures -/

namespace OneTime

/-- One call for each step, under the address that the step before it left. -/
def walkProgram : (steps : Nat) → (start : UInt32) → Address → Bytes →
    HashProgram (Bytes × Address)
  | 0, _, adrs, block => pure (block, adrs)
  | steps + 1, start, adrs, block => do
    let stepAdrs := adrs.setHash start
    let next ← ask (.f stepAdrs block)
    walkProgram steps (start + 1) stepAdrs next

/-- The steps of a chain. A block that takes a step has to be a digest. -/
def chainProgram (n : Nat) (adrs : Address) (block : Bytes) (start steps : UInt32) :
    HashProgram (Bytes × Address) := do
  let _ ← add32 start steps
  ensure (steps = 0 ∨ block.length = n)
  walkProgram steps.toNat start adrs block

/-- The steps of all chains, one chain after the other. -/
def walkAllProgram (n : Nat) : (index : UInt32) → Address → List Stretch →
    HashProgram (List Bytes × Address)
  | _, adrs, [] => pure ([], adrs)
  | index, adrs, stretch :: rest => do
    let (top, adrs) ←
      chainProgram n (adrs.setChain index) stretch.block stretch.start stretch.steps
    let (tops, adrs) ← walkAllProgram n (index + 1) adrs rest
    return (top :: tops, adrs)

def secretProgram (skSeed : Bytes) (adrs : Address) (index : UInt32) : HashProgram Bytes :=
  ask (.prf ((secretAddress adrs).setChain index) skSeed)

/-- The calls for the secrets, which all come before the first step. -/
def fromSecretsProgram (skSeed : Bytes) (adrs : Address) (steps : List UInt32) :
    HashProgram (List Stretch) :=
  steps.zipIdx.mapM fun (count, index) => do
    let secret ← secretProgram skSeed adrs (UInt32.ofNat index)
    return ⟨secret, 0, count⟩

def compressProgram (adrs : Address) (tops : List Bytes) : HashProgram Bytes :=
  ask (.t ((adrs.setType .wotsPk).setKeyPair adrs.keyPair) tops.flatten)

def ensureRoomProgram (n count : Nat) : HashProgram Unit := do
  ensure (count * n ≤ Params.maxChains * Params.maxDigest)
  ensure (0 < n)

/-- The calls of whole chains, and the one that compresses their ends. -/
def publicKeyProgram (n count : Nat) (skSeed : Bytes) (adrs : Address) :
    HashProgram (Bytes × Address) := do
  ensureRoomProgram n count
  let whole := List.replicate count Winternitz.maxDigit
  let (tops, adrs) ← walkAllProgram n 0 adrs (← fromSecretsProgram skSeed adrs whole)
  let key ← compressProgram adrs tops
  return (key, adrs)

def signProgram (n count : Nat) (message skSeed : Bytes) (adrs : Address) :
    HashProgram (Bytes × Address) := do
  let digits ← Winternitz.digits count message
  buffer (count * n)
  ensure (0 < n)
  let (blocks, adrs) ← walkAllProgram n 0 adrs (← fromSecretsProgram skSeed adrs digits)
  return (blocks.flatten, adrs)

/-- The calls of the steps that a signature leaves, and the one that compresses their ends. -/
def publicKeyOfProgram (n count : Nat) (signature message : Bytes) (adrs : Address) :
    HashProgram (Bytes × Address) := do
  let digits ← Winternitz.digits count message
  ensureRoomProgram n count
  let (used, _) ← cut (count * n) signature
  let stretches ← ((Bytes.blocks n count used).zip digits).mapM fun (block, digit) => do
    return Stretch.mk block digit (← sub32 Winternitz.maxDigit digit)
  let (tops, adrs) ← walkAllProgram n 0 adrs stretches
  let key ← compressProgram adrs tops
  return (key, adrs)

theorem answer_walkProgram (steps : Nat) (start : UInt32) (adrs : Address) (block : Bytes) :
    (walkProgram steps start adrs block).answer H = .ok (walk H steps start adrs block) := by
  induction steps generalizing start adrs block with
  | zero => rfl
  | succ steps ih =>
      rw [walkProgram, walk]
      simp only [answer_bind, answer_ask, ok_bind]
      exact ih _ _ _

/-- The rule of a chain and the rule of its program agree on a digest. -/
theorem answer_chainProgram (adrs : Address) {block : Bytes} (length : block.length = H.n)
    (start steps : UInt32) :
    (chainProgram H.n adrs block start steps).answer H = chain H adrs block start steps := by
  rw [chainProgram, chain]
  simp only [answer_bind, answer_lift, answer_walkProgram]
  rw [ensure_of (.inr length), ensure_of (.inr (length ▸ H.takes_n))]
  rfl

theorem answer_walkAllProgram {stretches : List Stretch}
    (full : ∀ stretch ∈ stretches, stretch.block.length = H.n) (index : UInt32) (adrs : Address) :
    (walkAllProgram H.n index adrs stretches).answer H = walkAll H index adrs stretches := by
  induction stretches generalizing index adrs with
  | nil => rfl
  | cons stretch rest ih =>
      rw [walkAllProgram, walkAll]
      simp only [answer_bind, answer_pure,
        answer_chainProgram _ (full stretch (by simp)) _ _,
        ih fun other member => full other (by simp [member])]
      rfl

theorem answer_fromSecretsProgram (skSeed : Bytes) (adrs : Address) (steps : List UInt32) :
    (fromSecretsProgram skSeed adrs steps).answer H = .ok (fromSecrets H skSeed adrs steps) := by
  rw [fromSecretsProgram, answer_mapM]
  exact mapM_eq_ok fun _ _ => rfl

theorem answer_publicKeyProgram (count : Nat) (skSeed : Bytes) (adrs : Address) :
    (publicKeyProgram H.n count skSeed adrs).answer H = publicKey H count skSeed adrs := by
  rw [publicKeyProgram, publicKey, ensureRoomProgram, ensureRoom]
  simp only [answer_bind, answer_lift, answer_fromSecretsProgram, ok_bind,
    answer_walkAllProgram fun _ member => (walkable_of_mem_fromSecrets member).2]
  rfl

theorem answer_signProgram (count : Nat) (message skSeed : Bytes) (adrs : Address) :
    (signProgram H.n count message skSeed adrs).answer H = sign H count message skSeed adrs := by
  rw [signProgram, sign]
  simp only [answer_bind, answer_lift, answer_fromSecretsProgram, ok_bind,
    answer_walkAllProgram fun _ member => (walkable_of_mem_fromSecrets member).2]
  rfl

theorem answer_publicKeyOfProgram (count : Nat) (signature message : Bytes) (adrs : Address) :
    (publicKeyOfProgram H.n count signature message adrs).answer H =
      publicKeyOf H count signature message adrs := by
  rw [publicKeyOfProgram, publicKeyOf, ensureRoomProgram, ensureRoom]
  simp only [answer_bind, answer_lift, answer_mapM]
  refine bind_congr_ok fun digits _ => bind_congr_ok fun _ _ => bind_congr_ok fun parts cutting =>
    bind_congr_ok fun stretches listed => ?_
  have full : ∀ stretch ∈ stretches, stretch.block.length = H.n := by
    intro stretch member
    obtain ⟨⟨block, digit⟩, inside, made⟩ := of_mem_of_mapM_eq_ok listed member
    obtain ⟨_, -, made⟩ := bind_eq_ok.1 made
    obtain rfl := Except.ok.inj made
    exact Bytes.length_of_mem_blocks (Nat.le_of_eq (length_fst_of_cut cutting).symm)
      (List.of_mem_zip inside).1
  rw [answer_walkAllProgram full]
  rfl

end OneTime

/-! ## Trees -/

namespace MerkleTree

/-- One call for each node of a level, from left to right. -/
def pairUpProgram (base : UInt32) : (index : UInt32) → Address → List Bytes →
    HashProgram (List Bytes × Address)
  | index, adrs, left :: right :: rest => do
    let nodeAdrs := adrs.setTreeIndex (← add32 base index)
    let node ← ask (.h nodeAdrs left right)
    let (nodes, adrs) ← pairUpProgram base (index + 1) nodeAdrs rest
    return (node :: nodes, adrs)
  | _, adrs, _ => pure ([], adrs)

/-- The calls of all levels above the given nodes, level by level. -/
def climbProgram (offset leafIndex : UInt32) (withPath : Bool) :
    (more level : Nat) → Address → List Bytes → HashProgram Built
  | 0, _, adrs, root :: _ => pure ⟨root, [], adrs⟩
  | 0, _, _, [] => liftM (broken : Outcome Built)
  | more + 1, level, adrs, nodes => do
    let beside ← (if withPath then sibling leafIndex level nodes else .ok [] : Outcome Bytes)
    let base ← shr32 offset (level + 1)
    let (above, adrs) ← pairUpProgram base 0 (adrs.setTreeHeight (UInt32.ofNat (level + 1))) nodes
    let built ← climbProgram offset leafIndex withPath more (level + 1) adrs above
    return { built with path := beside ++ built.path }

/-- All leaves come before the first node; what they call is up to them. -/
def buildProgram (n : Nat) (adrs : Address) (height : Nat) (offset leafIndex : UInt32)
    (room : Option Nat) (leaf : UInt32 → HashProgram Bytes) : HashProgram Built := do
  buffer (room.getD 0)
  checkBounds height offset leafIndex
  liftM <| match room with
    | some length => checkPath n height length
    | none => pure ()
  ensure (0 < n)
  let leaves ← (List.range (2 ^ height)).mapM fun i => leaf (UInt32.ofNat i)
  climbProgram offset leafIndex room.isSome height 0 adrs leaves

/-- One call for each node of a path, which stands on the side that the leaf's number says. -/
def followProgram (leafIndex globalIndex : UInt32) : (level : Nat) → Address →
    (node : Bytes) → (path : List Bytes) → HashProgram (Bytes × Address)
  | _, adrs, node, [] => pure (node, adrs)
  | level, adrs, node, beside :: path => do
    let index ← shr32 globalIndex (level + 1)
    let nodeAdrs := (adrs.setTreeHeight (UInt32.ofNat (level + 1))).setTreeIndex index
    let position ← shr32 leafIndex level
    let parent ← ask (if position &&& 1 = 0 then .h nodeAdrs node beside
      else .h nodeAdrs beside node)
    followProgram leafIndex globalIndex (level + 1) nodeAdrs parent path

def rootOfProgram (n : Nat) (adrs : Address) (height : Nat) (offset leafIndex : UInt32)
    (leaf path : Bytes) : HashProgram (Bytes × Address) := do
  checkBounds height offset leafIndex
  checkPath n height path.length
  ensure (0 < n)
  let node ← exactly n leaf
  let globalIndex ← add32 offset leafIndex
  followProgram leafIndex globalIndex 0 adrs node (Bytes.blocks n height path)

theorem answer_pairUpProgram (base index : UInt32) (adrs : Address) (nodes : List Bytes) :
    (pairUpProgram base index adrs nodes).answer H = pairUp H base index adrs nodes := by
  fun_induction pairUp H base index adrs nodes with
  | case1 index adrs left right rest ih =>
      rw [pairUpProgram]
      simp only [answer_bind, answer_lift, answer_ask, answer_pure, ok_bind, ih]
      rfl
  | case2 index adrs nodes short =>
      rw [pairUpProgram]
      · rfl
      · exact short

theorem answer_climbProgram (offset leafIndex : UInt32) (withPath : Bool) (more level : Nat)
    (adrs : Address) (nodes : List Bytes) :
    (climbProgram offset leafIndex withPath more level adrs nodes).answer H =
      climb H offset leafIndex withPath more level adrs nodes := by
  induction more generalizing level adrs nodes with
  | zero => cases nodes <;> rfl
  | succ more ih =>
      rw [climbProgram, climb]
      simp only [answer_bind, answer_lift, answer_pairUpProgram, answer_pure, ih]
      cases withPath <;> rfl

theorem answer_buildProgram (adrs : Address) (height : Nat) (offset leafIndex : UInt32)
    (room : Option Nat) (leaf : UInt32 → HashProgram Bytes) :
    (buildProgram H.n adrs height offset leafIndex room leaf).answer H =
      build H adrs height offset leafIndex room fun i => (leaf i).answer H := by
  unfold buildProgram build
  simp only [answer_bind, answer_lift, answer_mapM, answer_climbProgram]
  cases room <;> rfl

theorem answer_followProgram (leafIndex globalIndex : UInt32) (level : Nat) (adrs : Address)
    (node : Bytes) (path : List Bytes) :
    (followProgram leafIndex globalIndex level adrs node path).answer H =
      follow H leafIndex globalIndex level adrs node path := by
  induction path generalizing level adrs node with
  | nil => rfl
  | cons beside path ih =>
      rw [followProgram, follow]
      simp only [answer_bind, answer_lift, answer_ask, ok_bind, ih, apply_ite (HashCall.reply H)]
      rfl

theorem answer_rootOfProgram (adrs : Address) (height : Nat) (offset leafIndex : UInt32)
    (leaf path : Bytes) :
    (rootOfProgram H.n adrs height offset leafIndex leaf path).answer H =
      rootOf H adrs height offset leafIndex leaf path := by
  rw [rootOfProgram, rootOf]
  simp only [answer_bind, answer_lift, answer_followProgram]

end MerkleTree

/-! ## Layers -/

namespace Layer

def leafProgram (n : Nat) (p : Params) (skSeed : Bytes) (adrs : Address) (i : UInt32) :
    HashProgram Bytes := do
  let (key, _) ← OneTime.publicKeyProgram n p.len.toNat skSeed (keyAddress adrs i)
  return key

def buildProgram (n : Nat) (p : Params) (skSeed : Bytes) (adrs : Address) (leafIndex : UInt32)
    (room : Option Nat) : HashProgram MerkleTree.Built :=
  MerkleTree.buildProgram n (adrs.setType .tree) p.hp.toNat 0 leafIndex room
    (leafProgram n p skSeed adrs)

/-- The calls of a whole tree, from which no path is taken. -/
def rootProgram (n : Nat) (p : Params) (skSeed : Bytes) (layer : UInt32) (tree : UInt64) :
    HashProgram Bytes := do
  let built ← buildProgram n p skSeed (address layer tree) 0 none
  return built.root

/-- The calls of the whole tree, then those of the one-time signature. -/
def signProgram (n : Nat) (p : Params) (message skSeed : Bytes) (index : UInt32)
    (adrs : Address) : HashProgram Signed := do
  let length ← p.layerSize
  buffer length
  let room ← less length (← p.oneTimeSize)
  let built ← buildProgram n p skSeed adrs index (some room)
  let (oneTime, adrs) ←
    OneTime.signProgram n p.len.toNat message skSeed (keyAddress built.adrs index)
  return ⟨oneTime ++ built.path, built.root, adrs⟩

/-- The calls that complete a one-time key, then those on the way up from it. -/
def rootOfProgram (n : Nat) (p : Params) (index : UInt32) (signature message : Bytes)
    (adrs : Address) : HashProgram (Bytes × Address) := do
  let (oneTime, path) ← cut (← p.oneTimeSize) signature
  let (key, adrs) ←
    OneTime.publicKeyOfProgram n p.len.toNat oneTime message (keyAddress adrs index)
  MerkleTree.rootOfProgram n (adrs.setType .tree) p.hp.toNat 0 index key path

variable {p : Params}

theorem answer_leafProgram (skSeed : Bytes) (adrs : Address) (i : UInt32) :
    (leafProgram H.n p skSeed adrs i).answer H = leaf H p skSeed adrs i := by
  rw [leafProgram, leaf, answer_bind, OneTime.answer_publicKeyProgram]
  rfl

theorem answer_buildProgram (skSeed : Bytes) (adrs : Address) (leafIndex : UInt32)
    (room : Option Nat) :
    (buildProgram H.n p skSeed adrs leafIndex room).answer H =
      build H p skSeed adrs leafIndex room := by
  rw [buildProgram, build, MerkleTree.answer_buildProgram]
  simp only [answer_leafProgram]

theorem answer_rootProgram (skSeed : Bytes) (layer : UInt32) (tree : UInt64) :
    (rootProgram H.n p skSeed layer tree).answer H = root H p skSeed layer tree := by
  rw [rootProgram, root, answer_bind, answer_buildProgram]
  rfl

theorem answer_signProgram (message skSeed : Bytes) (index : UInt32) (adrs : Address) :
    (signProgram H.n p message skSeed index adrs).answer H =
      sign H p message skSeed index adrs := by
  rw [signProgram, sign]
  simp only [answer_bind, answer_lift, answer_buildProgram, OneTime.answer_signProgram]
  rfl

theorem answer_rootOfProgram (index : UInt32) (signature message : Bytes) (adrs : Address) :
    (rootOfProgram H.n p index signature message adrs).answer H =
      rootOf H p index signature message adrs := by
  rw [rootOfProgram, rootOf]
  simp only [answer_bind, answer_lift, OneTime.answer_publicKeyOfProgram,
    MerkleTree.answer_rootOfProgram]

end Layer

namespace Hypertree

/-- The calls of the layers from `layer` on, where each root is signed on the next layer. -/
def signFromProgram (n : Nat) (p : Params) (skSeed : Bytes) : (more layer : Nat) →
    (tree : UInt64) → (leaf : UInt32) → (node : Bytes) → HashProgram (List Bytes)
  | 0, _, _, _, _ => pure []
  | more + 1, layer, tree, leaf, node => do
    let (leaf, tree) ← position p layer tree leaf
    let signed ←
      Layer.signProgram n p node skSeed leaf (Layer.address (UInt32.ofNat layer) tree)
    let rest ← signFromProgram n p skSeed more (layer + 1) tree leaf signed.root
    return signed.signature :: rest

def signProgram (n : Nat) (p : Params) (message skSeed : Bytes) (tree : UInt64) (leaf : UInt32)
    (room : Nat) : HashProgram Bytes := do
  buffer room
  checkLength p room
  let node ← exactly p.n.toNat message
  ensure (0 < (← p.layerSize))
  let layers ← signFromProgram n p skSeed p.d.toNat 0 tree leaf node
  return layers.flatten

/-- The calls on the way up from `layer` on, through one segment after the other. -/
def nodeFromProgram (n : Nat) (p : Params) : (layer : Nat) → (tree : UInt64) →
    (leaf : UInt32) → (node : Bytes) → (layers : List Bytes) → HashProgram Bytes
  | _, _, _, node, [] => pure node
  | layer, tree, leaf, node, signature :: rest => do
    let (leaf, tree) ← position p layer tree leaf
    let (root, _) ←
      Layer.rootOfProgram n p leaf signature node (Layer.address (UInt32.ofNat layer) tree)
    nodeFromProgram n p (layer + 1) tree leaf root rest

/-- The root is compared last, so the calls do not depend on it. -/
def verifyProgram (n : Nat) (p : Params) (message signature : Bytes) (tree : UInt64)
    (leaf : UInt32) (root : Bytes) : HashProgram Bool := do
  checkLength p signature.length
  let node ← exactly p.n.toNat message
  let width ← p.layerSize
  ensure (0 < width)
  let top ← nodeFromProgram n p 0 tree leaf node (Bytes.blocks width p.d.toNat signature)
  return top == root

variable {p : Params}

theorem answer_signFromProgram (skSeed : Bytes) (more layer : Nat) (tree : UInt64) (leaf : UInt32)
    (node : Bytes) :
    (signFromProgram H.n p skSeed more layer tree leaf node).answer H =
      signFrom H p skSeed more layer tree leaf node := by
  induction more generalizing layer tree leaf node with
  | zero => rfl
  | succ more ih =>
      rw [signFromProgram, signFrom]
      simp only [answer_bind, answer_lift, Layer.answer_signProgram, ih]
      rfl

theorem answer_signProgram (message skSeed : Bytes) (tree : UInt64) (leaf : UInt32) (room : Nat) :
    (signProgram H.n p message skSeed tree leaf room).answer H =
      sign H p message skSeed tree leaf room := by
  rw [signProgram, sign]
  simp only [answer_bind, answer_lift, answer_signFromProgram]
  rfl

theorem answer_nodeFromProgram (layer : Nat) (tree : UInt64) (leaf : UInt32) (node : Bytes)
    (layers : List Bytes) :
    (nodeFromProgram H.n p layer tree leaf node layers).answer H =
      nodeFrom H p layer tree leaf node layers := by
  induction layers generalizing layer tree leaf node with
  | nil => rfl
  | cons signature rest ih =>
      rw [nodeFromProgram, nodeFrom]
      simp only [answer_bind, answer_lift, Layer.answer_rootOfProgram, ih]

theorem answer_verifyProgram (message signature : Bytes) (tree : UInt64) (leaf : UInt32)
    (root : Bytes) :
    (verifyProgram H.n p message signature tree leaf root).answer H =
      verify H p message signature tree leaf root := by
  rw [verifyProgram, verify]
  simp only [answer_bind, answer_lift, answer_nodeFromProgram]
  rfl

end Hypertree

/-! ## Forests -/

namespace Forest

def secretProgram (skSeed : Bytes) (adrs : Address) (index : UInt32) : HashProgram Bytes :=
  ask (.prf ((secretAddress adrs).setTreeIndex index) skSeed)

/-- The call for the secret of a leaf, then the one that hashes it. -/
def leafProgram (skSeed : Bytes) (adrs : Address) (offset i : UInt32) : HashProgram Bytes := do
  let index ← add32 offset i
  let secret ← secretProgram skSeed adrs index
  ask (.f (leafAddress adrs index) secret)

def buildTreeProgram (n : Nat) (p : Params) (skSeed : Bytes) (adrs : Address) (tree : Nat)
    (leafIndex : UInt32) (room : Option Nat) : HashProgram MerkleTree.Built := do
  let offset ← treeOffset p tree
  MerkleTree.buildProgram n adrs p.a.toNat offset leafIndex room (leafProgram skSeed adrs offset)

def compressProgram (adrs : Address) (roots : List Bytes) : HashProgram Bytes :=
  ask (.t ((adrs.setType .forsRoots).setKeyPair adrs.keyPair) roots.flatten)

/-- The calls of the trees, and one more for each secret that is revealed. -/
def signFromProgram (n : Nat) (p : Params) (skSeed : Bytes) (room : Nat) : (tree : Nat) →
    Address → List UInt32 → HashProgram (List Bytes × List Bytes × Address)
  | _, adrs, [] => pure ([], [], adrs)
  | tree, adrs, index :: rest => do
    let globalIndex ← add32 (← treeOffset p tree) index
    let built ← buildTreeProgram n p skSeed adrs tree index (some room)
    let (segments, roots, left) ← signFromProgram n p skSeed room (tree + 1) built.adrs rest
    let secret ← secretProgram skSeed adrs globalIndex
    return ((secret ++ built.path) :: segments, built.root :: roots, left)

def signProgram (n : Nat) (p : Params) (digest skSeed : Bytes) (adrs : Address) (room : Nat) :
    HashProgram Signed := do
  buffer room
  checkLength p room
  let selected ← indices p digest
  buffer (p.k.toNat * p.n.toNat)
  let width ← p.segmentSize
  ensure (0 < p.n)
  let pathRoom ← less width p.n.toNat
  let (segments, roots, adrs) ← signFromProgram n p skSeed pathRoom 0 adrs selected
  let publicKey ← compressProgram adrs roots
  return ⟨segments.flatten, publicKey, adrs⟩

/-- For each segment the call for its leaf, then those on the way up from it. -/
def rootsOfProgram (n : Nat) (p : Params) : (tree : Nat) → Address → List (Bytes × UInt32) →
    HashProgram (List Bytes × Address)
  | _, adrs, [] => pure ([], adrs)
  | tree, adrs, (segment, index) :: rest => do
    let offset ← treeOffset p tree
    let (revealed, path) ← cut p.n.toNat segment
    let leafAdrs := leafAddress adrs (← add32 offset index)
    let leaf ← ask (.f leafAdrs revealed)
    let (root, adrs) ←
      MerkleTree.rootOfProgram n leafAdrs p.a.toNat offset index leaf path
    let (roots, adrs) ← rootsOfProgram n p (tree + 1) adrs rest
    return (root :: roots, adrs)

def publicKeyOfProgram (n : Nat) (p : Params) (signature digest : Bytes) (adrs : Address) :
    HashProgram (Bytes × Address) := do
  checkLength p signature.length
  let selected ← indices p digest
  buffer (p.k.toNat * p.n.toNat)
  let width ← p.segmentSize
  ensure (0 < p.n)
  let segments := Bytes.blocks width p.k.toNat signature
  let (roots, adrs) ← rootsOfProgram n p 0 adrs (segments.zip selected)
  let key ← compressProgram adrs roots
  return (key, adrs)

variable {p : Params}

theorem answer_leafProgram (skSeed : Bytes) (adrs : Address) (offset i : UInt32) :
    (leafProgram skSeed adrs offset i).answer H = leaf H skSeed adrs offset i := by
  rw [leafProgram, leaf, answer_bind, answer_lift]
  rfl

theorem answer_buildTreeProgram (skSeed : Bytes) (adrs : Address) (tree : Nat)
    (leafIndex : UInt32) (room : Option Nat) :
    (buildTreeProgram H.n p skSeed adrs tree leafIndex room).answer H =
      buildTree H p skSeed adrs tree leafIndex room := by
  rw [buildTreeProgram, buildTree]
  simp only [answer_bind, answer_lift, MerkleTree.answer_buildProgram, answer_leafProgram]

theorem answer_signFromProgram (skSeed : Bytes) (room tree : Nat) (adrs : Address)
    (indices : List UInt32) :
    (signFromProgram H.n p skSeed room tree adrs indices).answer H =
      signFrom H p skSeed room tree adrs indices := by
  induction indices generalizing tree adrs with
  | nil => rfl
  | cons index rest ih =>
      rw [signFromProgram, signFrom]
      simp only [answer_bind, answer_lift, answer_buildTreeProgram, ih]
      rfl

theorem answer_signProgram (digest skSeed : Bytes) (adrs : Address) (room : Nat) :
    (signProgram H.n p digest skSeed adrs room).answer H = sign H p digest skSeed adrs room := by
  rw [signProgram, sign]
  simp only [answer_bind, answer_lift, answer_signFromProgram]
  rfl

theorem answer_rootsOfProgram (tree : Nat) (adrs : Address) (segments : List (Bytes × UInt32)) :
    (rootsOfProgram H.n p tree adrs segments).answer H = rootsOf H p tree adrs segments := by
  induction segments generalizing tree adrs with
  | nil => rfl
  | cons pair rest ih =>
      obtain ⟨segment, index⟩ := pair
      rw [rootsOfProgram, rootsOf]
      simp only [answer_bind, answer_lift, answer_ask, ok_bind, MerkleTree.answer_rootOfProgram, ih]
      rfl

theorem answer_publicKeyOfProgram (signature digest : Bytes) (adrs : Address) :
    (publicKeyOfProgram H.n p signature digest adrs).answer H =
      publicKeyOf H p signature digest adrs := by
  rw [publicKeyOfProgram, publicKeyOf]
  simp only [answer_bind, answer_lift, answer_rootsOfProgram]
  rfl

end Forest

/-! ## Keys and signatures -/

namespace Signing

/-- Key generation behind its checks. -/
def rootProgram (n : Nat) (p : Params) (skSeed : Bytes) : HashProgram Bytes := do
  buffer (← p.arenaSize)
  let top ← less p.d.toNat 1
  Layer.rootProgram n p skSeed (UInt32.ofNat top) 0

/-- Signing with a randomizer and the message digest that belongs to it. -/
def signProgram (n : Nat) (p : Params) (skSeed randomizer digest : Bytes) : HashProgram Bytes := do
  let total ← p.signatureSize
  let behindRandomizer ← less total p.n.toNat
  let forestRoom ← p.forestSize
  let hypertreeRoom ← less behindRandomizer forestRoom
  ensure (p.m.toNat ≤ Params.maxMessageDigest)
  let route ← Route.ofDigest p digest
  buffer (← p.arenaSize)
  let forest ← Forest.signProgram n p route.forest skSeed
    (forestAddress route.tree route.leaf) forestRoom
  let hypertree ← Hypertree.signProgram n p forest.publicKey skSeed route.tree route.leaf
    hypertreeRoom
  return randomizer ++ forest.signature ++ hypertree

/-- Verifying, where `digest` is the message digest under a randomizer. -/
def verifyProgram (n : Nat) (p : Params) (pkRoot : Bytes) (digest : Bytes → Bytes)
    (signature : Bytes) : HashProgram Bool := do
  let (randomizer, rest) ← cut p.n.toNat signature
  let (forest, hypertree) ← cut (← p.forestSize) rest
  ensure (p.m.toNat ≤ Params.maxMessageDigest)
  let route ← Route.ofDigest p (digest randomizer)
  let (node, _) ← Forest.publicKeyOfProgram n p forest route.forest
    (forestAddress route.tree route.leaf)
  Hypertree.verifyProgram n p node hypertree route.tree route.leaf pkRoot

variable {p : Params}

theorem answer_rootProgram (skSeed : Bytes) :
    (rootProgram H.n p skSeed).answer H = (do
      buffer (← p.arenaSize)
      let top ← less p.d.toNat 1
      Layer.root H p skSeed (UInt32.ofNat top) 0) := by
  rw [rootProgram]
  simp only [answer_bind, answer_lift, Layer.answer_rootProgram]

theorem answer_signProgram (key : SigningKey) (message optRand : Bytes) :
    (signProgram H.n p key.skSeed (H.prfMsg key.skPrf optRand message)
        (H.hMsg (H.prfMsg key.skPrf optRand message) key.pkRoot message p.m.toNat)).answer H =
      signWith H p key message optRand := by
  rw [signProgram, signWith]
  simp only [answer_bind, answer_lift, Forest.answer_signProgram, Hypertree.answer_signProgram,
    digestOf, bind_assoc]
  rfl

theorem answer_verifyProgram (pkRoot message signature : Bytes) :
    (verifyProgram H.n p pkRoot (fun randomizer => H.hMsg randomizer pkRoot message p.m.toNat)
        signature).answer H = verifyWith H p pkRoot message signature := by
  rw [verifyProgram, verifyWith]
  simp only [answer_bind, answer_lift, Forest.answer_publicKeyOfProgram,
    Hypertree.answer_verifyProgram, digestOf, bind_assoc]

end Signing

end HashSignature
