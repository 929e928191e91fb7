/-
# HashSignature.Proofs.OneTimeUse — the place of a key pair decides what it signs

A one-time key pair breaks if it signs two values, so all signatures of a key have to agree on what
each key pair signs. They do: `placeValue` is a table of one value for each place, and every run of
the signer signs what the table says. No run writes into the table. On layer 0 the value is the
public value of the forest, which is the same for every digest; above it is the root of the tree
below, whose number the place determines.

* `run` — signing with a record of what was signed on each layer; `sign_eq_run` says that it is
  signing.
* `parts_depend_on_place` — the parts of a signature behind its randomizer depend on places and
  selected leaves only.
-/
import HashSignature.Proofs.Key
import Mathlib.Data.Fintype.Pigeonhole

namespace HashSignature

set_option autoImplicit false

open Outcome

variable {H : TweakableHash} {p : Params}

/-! ## Signing with a record -/

namespace Signing

open Hypertree (Visit)

/-- Signing, with a record. -/
def run (p : Params) (key : SigningKey) (message optRand : Bytes) : Outcome Run := do
  p.check
  checkLength "randomizer" p.n.toNat optRand
  checkLength "secret seed" p.n.toNat key.skSeed
  checkLength "PRF key" p.n.toNat key.skPrf
  checkLength "public seed" p.n.toNat key.pkSeed
  checkLength "public root" p.n.toNat key.pkRoot
  buffer (← p.signatureSize)
  let H ← p.hash key.pkSeed
  runWith H p key message optRand

/-- A run is a run of the signer. -/
theorem sign_eq_run (key : SigningKey) (message optRand : Bytes) :
    sign p key message optRand = (run p key message optRand).map Run.signature := by
  simp only [sign, run, map_bind, signWith_eq_runWith]

/-! ## The table of signed values -/

/-- What the key pair at a place signs: the public value of the forest under a leaf of layer 0, and
above it the root of the tree that the leaf carries. -/
def placeValue (H : TweakableHash) (p : Params) (skSeed : Bytes) :
    (layer : Nat) → (tree : UInt64) → (leaf : UInt32) → Bytes
  | 0, tree, leaf => forestValue H p skSeed tree leaf
  | layer + 1, tree, leaf =>
    Layer.treeRoot H p skSeed (Layer.address (UInt32.ofNat layer)
      (UInt64.ofNat (tree.toNat * 2 ^ p.hp.toNat + leaf.toNat)))

/-- On every layer the value that is signed is that of the place. -/
theorem signedAt_eq_placeValue (sound : p.Sound) (skSeed : Bytes) (tree : UInt64) (leaf : UInt32)
    (layer : Nat) :
    Hypertree.signedAt H p skSeed tree (forestValue H p skSeed tree leaf) layer =
      placeValue H p skSeed layer (Hypertree.treeAt p tree layer)
        (Hypertree.leafAt p tree leaf layer) := by
  cases layer with
  | zero => rw [Hypertree.treeAt_zero]; rfl
  | succ layer =>
      -- the tree below is found again from the tree and the leaf above it
      have below : (Hypertree.treeAt p tree (layer + 1)).toNat * 2 ^ p.hp.toNat +
          (Hypertree.leafAt p tree leaf (layer + 1)).toNat =
          (Hypertree.treeAt p tree layer).toNat := by
        rw [Hypertree.toNat_treeAt_succ, Hypertree.toNat_leafAt_succ sound]
        exact Nat.div_add_mod' _ _
      rw [placeValue, below, UInt64.ofNat_toNat]
      rfl

/-- A run that ended is the run of the route that its randomizer leads to. -/
theorem eq_runOf {key : SigningKey} (hashed : p.hash key.pkSeed = .ok H) {message optRand : Bytes}
    {made : Run} (ran : run p key message optRand = .ok made) :
    p.Sound ∧ H.n = p.n.toNat ∧ ∃ randomizer pkRoot : Bytes, randomizer.length = p.n.toNat ∧
      made = runOf H p key.skSeed randomizer (routeOf H p randomizer pkRoot message) := by
  simp only [run, bind_eq_ok] at ran
  obtain ⟨_, accepted, _, -, _, -, _, -, _, -, _, -, _, -, _, -, H', hashed', ran⟩ := ran
  obtain rfl : H = H' := Except.ok.inj (hashed.symm.trans hashed')
  have sound := Params.sound_of_check accepted
  have width := width_of_hash hashed
  rw [runWith_eq sound width, Except.ok.injEq] at ran
  exact ⟨sound, width, _, _, (H.length_prfMsg _ _ _).trans width, ran.symm⟩

/-! ## Parts of a signature -/

/-- The part of a signature that belongs to a tree of the forest. -/
def forestPart (p : Params) (tree : Nat) (signature : Bytes) : Bytes :=
  let width := (p.a.toNat + 1) * p.n.toNat
  Bytes.slice (p.n.toNat + tree * width) width signature

/-- The part of a signature that belongs to a layer. -/
def layerPart (p : Params) (layer : Nat) (signature : Bytes) : Bytes :=
  Bytes.slice (p.n.toNat + (forestWidth p + layer * layerWidth p)) (layerWidth p) signature

theorem forestPart_runOf (width : H.n = p.n.toNat) (skSeed : Bytes) {randomizer : Bytes}
    (length : randomizer.length = p.n.toNat) (route : Route) {tree : Nat} {index : UInt32}
    (selected : (Forest.selected p route.forest)[tree]? = some index) :
    forestPart p tree (runOf H p skSeed randomizer route).signature =
      Forest.segmentOf H p skSeed (forestAddress route.tree route.leaf) tree index.toNat := by
  generalize segments_eq : Forest.segmentsOf H p skSeed (forestAddress route.tree route.leaf)
    route.forest = segments
  have full : ∀ segment ∈ segments, segment.length = (p.a.toNat + 1) * p.n.toNat :=
    segments_eq ▸ fun _ => Forest.length_of_mem_segmentsOf width
  have found : segments[tree]? = some (Forest.segmentOf H p skSeed
      (forestAddress route.tree route.leaf) tree index.toNat) := by
    simp [← segments_eq, Forest.segmentsOf, selected]
  have count : segments.length = p.k.toNat := by rw [← segments_eq, Forest.length_segmentsOf]
  have inside := Nat.mul_le_mul_right ((p.a.toNat + 1) * p.n.toNat)
    (show tree + 1 ≤ segments.length from (List.getElem?_eq_some_iff.1 found).1)
  rw [Nat.succ_mul, ← Bytes.length_flatten_of full] at inside
  rw [forestPart, signature_runOf, body, segments_eq, Bytes.slice_append_right length,
    Bytes.slice_append_left inside, Bytes.slice_flatten full found]

theorem layerPart_runOf (sound : p.Sound) (width : H.n = p.n.toNat) (skSeed : Bytes)
    {randomizer : Bytes} (length : randomizer.length = p.n.toNat) (route : Route) {layer : Nat}
    (inside : layer < p.d.toNat) :
    layerPart p layer (runOf H p skSeed randomizer route).signature =
      Hypertree.segmentAt H p skSeed route.tree route.leaf
        (forestValue H p skSeed route.tree route.leaf) layer := by
  have full (segment : Bytes) (member : segment ∈ Hypertree.segments H p skSeed route.tree
      route.leaf (forestValue H p skSeed route.tree route.leaf)) : segment.length = layerWidth p :=
    Hypertree.length_of_mem_segments sound width member
  rw [layerPart, signature_runOf, body, Bytes.slice_append_right length,
    Bytes.slice_append_right (length_forest width _ _ _)]
  apply Bytes.slice_flatten full
  rw [Hypertree.segments, List.getElem?_map, List.getElem?_range inside]
  rfl

/-- What a run has to do with the table: it visits each layer once, signs the value of the place
that it visits there, and puts that segment into the signature. -/
structure Keeps (H : TweakableHash) (p : Params) (skSeed : Bytes) (made : Run) : Prop where
  layers : made.visits.length = p.d.toNat
  layer : ∀ (l : Nat) (visit : Visit), made.visits[l]? = some visit → visit.layer = l
  node : ∀ (l : Nat) (visit : Visit), made.visits[l]? = some visit →
    visit.node = placeValue H p skSeed l visit.tree visit.leaf ∧ visit.node.length = p.n.toNat
  segment : ∀ (l : Nat) (visit : Visit), made.visits[l]? = some visit →
    layerPart p l made.signature = visit.segment ∧ visit.segment = Layer.segmentOf H p skSeed
      (Layer.address (UInt32.ofNat l) visit.tree) visit.leaf visit.node

/-- A run of the signer under given seeds, for some message, random bytes, key of the randomizer
and root, and that its signature is the one that signing returns. -/
def Made (p : Params) (skSeed pkSeed : Bytes) (made : Run) : Prop :=
  ∃ key message optRand, key.skSeed = skSeed ∧ key.pkSeed = pkSeed ∧
    run p key message optRand = .ok made ∧ sign p key message optRand = .ok made.signature

theorem Made.eq_runOf {skSeed pkSeed : Bytes} (hashed : p.hash pkSeed = .ok H) {made : Run}
    (by_run : Made p skSeed pkSeed made) :
    p.Sound ∧ H.n = p.n.toNat ∧ ∃ randomizer : Bytes, randomizer.length = p.n.toNat ∧
      ∃ digest, made = runOf H p skSeed randomizer (Route.read p digest) := by
  obtain ⟨key, message, optRand, rfl, rfl, ran, -⟩ := by_run
  obtain ⟨sound, width, randomizer, pkRoot, length, rfl⟩ := Signing.eq_runOf hashed ran
  exact ⟨sound, width, randomizer, length, _, rfl⟩

theorem keeps_runOf (sound : p.Sound) (width : H.n = p.n.toNat) (skSeed : Bytes)
    {randomizer : Bytes} (length : randomizer.length = p.n.toNat) (route : Route) :
    Keeps H p skSeed (runOf H p skSeed randomizer route) := by
  have visited (l : Nat) (visit : Visit)
      (found : (runOf H p skSeed randomizer route).visits[l]? = some visit) :
      l < p.d.toNat ∧ visit = Hypertree.visitAt H p skSeed route.tree route.leaf
        (forestValue H p skSeed route.tree route.leaf) l := by
    obtain ⟨inside, rfl⟩ := List.getElem?_eq_some_iff.1 found
    refine ⟨by simpa [runOf] using inside, ?_⟩
    simp [runOf]
  constructor
  case layers => simp [runOf]
  case layer =>
    intro l visit found
    obtain ⟨-, rfl⟩ := visited l visit found
    rfl
  case node =>
    intro l visit found
    obtain ⟨-, rfl⟩ := visited l visit found
    exact ⟨signedAt_eq_placeValue sound _ _ _ _,
      Hypertree.length_signedAt width ((H.length_t _ _).trans width) _⟩
  case segment =>
    intro l visit found
    obtain ⟨inside, rfl⟩ := visited l visit found
    exact ⟨layerPart_runOf sound width skSeed length route inside, rfl⟩

/-- Runs that keep the table have the same bytes for one place. -/
theorem Keeps.layerPart_eq {skSeed : Bytes} {made made' : Run} (keeps : Keeps H p skSeed made)
    (keeps' : Keeps H p skSeed made') {l : Nat} {visit visit' : Visit}
    (found : made.visits[l]? = some visit) (found' : made'.visits[l]? = some visit')
    (tree : visit.tree = visit'.tree) (leaf : visit.leaf = visit'.leaf) :
    layerPart p l made.signature = layerPart p l made'.signature := by
  obtain ⟨part, segment⟩ := keeps.segment l visit found
  obtain ⟨part', segment'⟩ := keeps'.segment l visit' found'
  rw [part, part', segment, segment', (keeps.node l visit found).1, (keeps'.node l visit' found').1,
    tree, leaf]

/-- Runs for one leaf of layer 0 have the same bytes for a leaf of the forest that both select. -/
theorem forestPart_eq (sound : p.Sound) (width : H.n = p.n.toNat) (skSeed : Bytes)
    {randomizer randomizer' : Bytes} (length : randomizer.length = p.n.toNat)
    (length' : randomizer'.length = p.n.toNat) {route route' : Route}
    (tree : route.tree = route'.tree) (leaf : route.leaf = route'.leaf)
    {indices indices' : List UInt32} {j : Nat} {index : UInt32}
    (read : Forest.indices p route.forest = .ok indices)
    (read' : Forest.indices p route'.forest = .ok indices') (found : indices[j]? = some index)
    (found' : indices'[j]? = some index) :
    forestPart p j (runOf H p skSeed randomizer route).signature =
      forestPart p j (runOf H p skSeed randomizer' route').signature := by
  rw [Forest.indices_eq sound, Except.ok.injEq] at read read'
  rw [forestPart_runOf width skSeed length route (read ▸ found),
    forestPart_runOf width skSeed length' route' (read' ▸ found'), tree, leaf]

/-- Every run ends with a leaf of the one tree on top. -/
theorem Made.top_visit {skSeed pkSeed : Bytes} (hashed : p.hash pkSeed = .ok H) {made : Run}
    (by_run : Made p skSeed pkSeed made) :
    ∃ visit, made.visits[p.d.toNat - 1]? = some visit ∧ visit.tree = 0 ∧
      visit.leaf.toNat < 2 ^ p.hp.toNat := by
  obtain ⟨sound, -, randomizer, -, digest, rfl⟩ := by_run.eq_runOf hashed
  have layers := sound.layers
  have found : (List.range p.d.toNat)[p.d.toNat - 1]? = some (p.d.toNat - 1) :=
    List.getElem?_range (by omega)
  refine ⟨Hypertree.visitAt H p skSeed (Route.read p digest).tree (Route.read p digest).leaf
    (forestValue H p skSeed (Route.read p digest).tree (Route.read p digest).leaf)
    (p.d.toNat - 1), ?_, ?_, ?_⟩
  · rw [runOf, List.getElem?_map, found, Option.map_some]
  · exact Hypertree.treeAt_top sound (Route.toNat_tree_lt sound digest)
  · exact Hypertree.leafAt_lt sound _ (Route.toNat_leaf_lt sound digest) _

/-- All runs under given seeds keep one table of signed values. Two runs that come to one place on
a layer have the same bytes there; two runs that come to one leaf of layer 0 have the same bytes for
every tree of the forest in which they select the same leaf; and two runs with one route have the
same bytes behind their randomizers. -/
theorem parts_depend_on_place (p : Params) (skSeed pkSeed : Bytes) {H : TweakableHash}
    (hashed : p.hash pkSeed = .ok H) :
    (∀ key message optRand signature, key.skSeed = skSeed → key.pkSeed = pkSeed →
      sign p key message optRand = .ok signature →
        ∃ made, Made p skSeed pkSeed made ∧ made.signature = signature) ∧
    (∀ made, Made p skSeed pkSeed made → Keeps H p skSeed made) ∧
    ∀ made made', Made p skSeed pkSeed made → Made p skSeed pkSeed made' →
      (∀ (l : Nat) (visit visit' : Visit), made.visits[l]? = some visit →
        made'.visits[l]? = some visit' → visit.tree = visit'.tree → visit.leaf = visit'.leaf →
          layerPart p l made.signature = layerPart p l made'.signature) ∧
      (∀ visit visit' : Visit, made.visits[0]? = some visit → made'.visits[0]? = some visit' →
        visit.tree = visit'.tree → visit.leaf = visit'.leaf →
          ∀ indices indices' (j : Nat) (index : UInt32),
            Forest.indices p made.route.forest = .ok indices →
            Forest.indices p made'.route.forest = .ok indices' →
            indices[j]? = some index → indices'[j]? = some index →
              forestPart p j made.signature = forestPart p j made'.signature) ∧
      (made.route = made'.route →
        made.signature.drop p.n.toNat = made'.signature.drop p.n.toNat) := by
  refine ⟨?_, ?_, fun made made' by_run by_run' => ⟨?_, ?_, ?_⟩⟩
  · intro key message optRand signature at_seed at_public signed
    obtain ⟨made, ran, rfl⟩ := map_eq_ok.1 ((sign_eq_run key message optRand).symm.trans signed)
    exact ⟨made, ⟨key, message, optRand, at_seed, at_public, ran, signed⟩, rfl⟩
  · intro made by_run
    obtain ⟨sound, width, randomizer, length, digest, rfl⟩ := by_run.eq_runOf hashed
    exact keeps_runOf sound width skSeed length _
  · intro l visit visit' found found' tree leaf
    obtain ⟨sound, width, randomizer, length, digest, rfl⟩ := by_run.eq_runOf hashed
    obtain ⟨-, -, randomizer', length', digest', rfl⟩ := by_run'.eq_runOf hashed
    exact (keeps_runOf sound width skSeed length _).layerPart_eq
      (keeps_runOf sound width skSeed length' _) found found' tree leaf
  · intro visit visit' found found' tree leaf indices indices' j index read read' at_j at_j'
    obtain ⟨sound, width, randomizer, length, digest, rfl⟩ := by_run.eq_runOf hashed
    obtain ⟨-, -, randomizer', length', digest', rfl⟩ := by_run'.eq_runOf hashed
    have place (route : Route) (randomizer : Bytes) (visit : Visit)
        (found : (runOf H p skSeed randomizer route).visits[0]? = some visit) :
        visit.tree = route.tree ∧ visit.leaf = route.leaf := by
      obtain ⟨_, rfl⟩ := List.getElem?_eq_some_iff.1 found
      simp [runOf, Hypertree.visitAt, Hypertree.leafAt]
    obtain ⟨at_tree, at_leaf⟩ := place _ _ visit found
    obtain ⟨at_tree', at_leaf'⟩ := place _ _ visit' found'
    rw [at_tree, at_tree'] at tree
    rw [at_leaf, at_leaf'] at leaf
    exact forestPart_eq sound width skSeed length length' tree leaf read read' at_j at_j'
  · intro route
    obtain ⟨-, -, randomizer, length, digest, rfl⟩ := by_run.eq_runOf hashed
    obtain ⟨-, -, randomizer', length', digest', rfl⟩ := by_run'.eq_runOf hashed
    change Route.read p digest = Route.read p digest' at route
    rw [signature_runOf, signature_runOf, List.drop_left' length, List.drop_left' length', route]

/-- Five messages under one key, on two layers of height two. All runs sign with the tree on top,
which has four leaves, so two of them have the same bytes on its layer. -/
theorem parts_depend_on_place_five_runs :
    ∃ signature : Fin 5 → Bytes,
      (∀ i, sign (.ofBase .shake 16 4 2 2 3) ⟨List.replicate 16 1, List.replicate 16 2,
        List.replicate 16 3, List.replicate 16 4⟩ [UInt8.ofNat i.val] (List.replicate 16 5) =
          .ok (signature i)) ∧
      ∃ i j, i ≠ j ∧ layerPart (.ofBase .shake 16 4 2 2 3) 1 (signature i) =
        layerPart (.ofBase .shake 16 4 2 2 3) 1 (signature j) := by
  have hashed : (Params.ofBase .shake 16 4 2 2 3).hash (List.replicate 16 3) =
      .ok (.shake 16 (List.replicate 16 3)) := rfl
  have sound : (Params.ofBase .shake 16 4 2 2 3).Sound := Params.sound_of_check rfl
  obtain ⟨every, -, pairs⟩ := parts_depend_on_place (.ofBase .shake 16 4 2 2 3)
    (List.replicate 16 1) (List.replicate 16 3) hashed
  have runs (i : Fin 5) : ∃ made, Made (.ofBase .shake 16 4 2 2 3) (List.replicate 16 1)
      (List.replicate 16 3) made ∧ sign (.ofBase .shake 16 4 2 2 3) ⟨List.replicate 16 1,
        List.replicate 16 2, List.replicate 16 3, List.replicate 16 4⟩ [UInt8.ofNat i.val]
        (List.replicate 16 5) = .ok made.signature := by
    have started := @sign_eq (.ofBase .shake 16 4 2 2 3) rfl ⟨List.replicate 16 1,
      List.replicate 16 2, List.replicate 16 3, List.replicate 16 4⟩ rfl rfl rfl rfl _ hashed
      (List.replicate 16 5) rfl [UInt8.ofNat i.val]
    have signed := started.trans (signWith_eq sound rfl _ _ _)
    obtain ⟨made, by_run, made_eq⟩ := every _ _ _ _ rfl rfl signed
    exact ⟨made, by_run, made_eq ▸ signed⟩
  choose made by_run signed using runs
  have tops (i : Fin 5) : ∃ visit, (made i).visits[1]? = some visit ∧ visit.tree = 0 ∧
      visit.leaf.toNat < 4 := (by_run i).top_visit hashed
  choose visit found tree leaf using tops
  obtain ⟨i, j, differ, same⟩ := Fintype.exists_ne_map_eq_of_card_lt
    (fun i => (⟨(visit i).leaf.toNat, leaf i⟩ : Fin 4)) (by decide)
  have same_leaf : (visit i).leaf = (visit j).leaf := UInt32.toNat_inj.1 (Fin.mk.inj same)
  exact ⟨fun i => (made i).signature, signed, i, j, differ,
    (pairs (made i) (made j) (by_run i) (by_run j)).1 1 _ _ (found i) (found j)
      ((tree i).trans (tree j).symm) same_leaf⟩

end Signing

end HashSignature
