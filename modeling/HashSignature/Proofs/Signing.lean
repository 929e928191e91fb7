/-
# HashSignature.Proofs.Signing — what follows the randomizer leads to the public root

Behind its randomizer a signature is `body`, a function of the secret seed and of the route that the
message digest selects. The verifier climbs through it to `topOf`. All of this holds for every
family of hash functions whose digests have the right length; the back ends are chosen only at the
end.

* `signWith_eq`, `verifyWith_eq` — the two sides succeed, and are these functions.
* `topOf_body` — the body of a legal route climbs to the root of the tree on top.
* `verifyWith_signWith` — the verdict on a signature says whether the root in the key is that root.
-/
import HashSignature.Proofs.Forest
import HashSignature.Proofs.Hypertree
import HashSignature.Proofs.Route
import HashSignature.Proofs.Slot
import HashSignature.Signing

namespace HashSignature.Signing

set_option autoImplicit false

open Outcome
open Hypertree (Visit)

variable {H : TweakableHash} {p : Params}

/-! ## Signatures as values -/

/-- The place that a message leads to. -/
def routeOf (H : TweakableHash) (p : Params) (randomizer pkRoot message : Bytes) : Route :=
  Route.read p (H.hMsg randomizer pkRoot message p.m.toNat)

/-- The public value of the forest at the end of a route. -/
def forestValue (H : TweakableHash) (p : Params) (skSeed : Bytes) (tree : UInt64) (leaf : UInt32) :
    Bytes :=
  Forest.publicValue H p skSeed (forestAddress tree leaf)

/-- The forest's segments and the layers' segments for a route. -/
def body (H : TweakableHash) (p : Params) (skSeed : Bytes) (route : Route) : Bytes :=
  (Forest.segmentsOf H p skSeed (forestAddress route.tree route.leaf) route.forest).flatten ++
    (Hypertree.segments H p skSeed route.tree route.leaf
      (forestValue H p skSeed route.tree route.leaf)).flatten

/-- The root of the tree on top. -/
def topRoot (H : TweakableHash) (p : Params) (skSeed : Bytes) : Bytes :=
  Layer.treeRoot H p skSeed (Layer.address (UInt32.ofNat (p.d.toNat - 1)) 0)

/-- Bytes of a forest signature. -/
def forestWidth (p : Params) : Nat := p.k.toNat * ((p.a.toNat + 1) * p.n.toNat)

/-- Bytes of a layer's segment. -/
def layerWidth (p : Params) : Nat := (p.len.toNat + p.hp.toNat) * p.n.toNat

/-- Bytes of a signature behind its randomizer. -/
def bodyWidth (p : Params) : Nat := forestWidth p + p.d.toNat * layerWidth p

/-- A signature has a randomizer and a body. -/
theorem signatureSize_eq (sound : p.Sound) :
    p.signatureSize = .ok (p.n.toNat + bodyWidth p) := by
  rw [sound.signatureSize_eq, bodyWidth, forestWidth, layerWidth, Nat.add_assoc]

/-- The segments of the forest in a body. -/
def forestSegments (p : Params) (body : Bytes) : List Bytes :=
  Bytes.blocks ((p.a.toNat + 1) * p.n.toNat) p.k.toNat (body.take (forestWidth p))

/-- The segments of the layers in a body. -/
def layerSegments (p : Params) (body : Bytes) : List Bytes :=
  Bytes.blocks (layerWidth p) p.d.toNat (body.drop (forestWidth p))

/-- What the forest's segments in a body compress to. -/
def forestNode (H : TweakableHash) (p : Params) (route : Route) (body : Bytes) : Bytes :=
  let adrs := forestAddress route.tree route.leaf
  Forest.compress H adrs (Forest.climbedRoots H p adrs 0
    ((forestSegments p body).zip (Forest.selected p route.forest)))

/-- What a body climbs to. -/
def topOf (H : TweakableHash) (p : Params) (route : Route) (body : Bytes) : Bytes :=
  Hypertree.climbedFrom H p route.tree route.leaf 0 (forestNode H p route body)
    (layerSegments p body)

theorem length_forest (width : H.n = p.n.toNat) (skSeed : Bytes) (adrs : Address) (digest : Bytes) :
    (Forest.segmentsOf H p skSeed adrs digest).flatten.length = forestWidth p :=
  Forest.length_flatten_segmentsOf width skSeed adrs digest

theorem length_body (sound : p.Sound) (width : H.n = p.n.toNat) (skSeed : Bytes) (route : Route) :
    (body H p skSeed route).length = bodyWidth p := by
  rw [body, List.length_append, length_forest width,
    Hypertree.length_flatten_segments sound width, bodyWidth, layerWidth]

/-! ## Key generation -/

/-- Every back end has digests of the instance's size. -/
theorem width_of_hash {pkSeed : Bytes} (hashed : p.hash pkSeed = .ok H) : H.n = p.n.toNat := by
  unfold Params.hash at hashed
  split at hashed
  · obtain ⟨_, -, chosen⟩ := bind_eq_ok.1 hashed
    obtain rfl := Except.ok.inj chosen
    cases p.family with
    | shake => rfl
    | sha2 => cases p.usesWideDigest <;> rfl
  · exact absurd hashed (broken_ne_ok H)

theorem hash_eq (sound : p.Sound) {pkSeed : Bytes} (length : pkSeed.length = p.n.toNat) :
    ∃ H, p.hash pkSeed = .ok H ∧ H.n = p.n.toNat := by
  have fits : p.n.toNat ≤ Params.maxDigest := sound.n_le
  obtain ⟨H, hashed⟩ : ∃ H, p.hash pkSeed = .ok H := by
    rw [Params.hash, dif_pos fits, cut_of_le (Nat.le_of_eq length.symm), ok_bind]
    exact ⟨_, rfl⟩
  exact ⟨H, hashed, width_of_hash hashed⟩

theorem checkLength_of {what : String} {expected : Nat} {bytes : Bytes}
    (length : bytes.length = expected) : checkLength what expected bytes = .ok () :=
  if_pos length

/-- A public root that was made is the root of the top layer, put into its place. -/
theorem publicRoot_eq_ok {skSeed skPrf pkSeed : Bytes} {slot : Slot}
    (made : publicRoot p skSeed skPrf pkSeed = .ok slot) :
    ∃ H root, p.hash pkSeed = .ok H ∧
      Layer.root H p skSeed (UInt32.ofNat (p.d.toNat - 1)) 0 = .ok root ∧
      Slot.place p.n.toNat root = .ok slot := by
  simp only [publicRoot, bind_eq_ok] at made
  obtain ⟨_, -, _, -, _, -, _, -, H, hashed, _, -, _, -, top, subtracted, root, built, placed⟩ :=
    made
  obtain ⟨-, rfl⟩ := less_eq_ok.1 subtracted
  exact ⟨H, root, hashed, built, placed⟩

/-- Key generation places the root of the tree on top. -/
theorem publicRoot_eq_place (accepted : p.check = .ok ()) {skSeed skPrf pkSeed : Bytes}
    (skSeed_length : skSeed.length = p.n.toNat) (skPrf_length : skPrf.length = p.n.toNat)
    (pkSeed_length : pkSeed.length = p.n.toNat) {H : TweakableHash} (hashed : p.hash pkSeed = .ok H)
    (width : H.n = p.n.toNat) :
    publicRoot p skSeed skPrf pkSeed = Slot.place p.n.toNat (topRoot H p skSeed) := by
  have sound := Params.sound_of_check accepted
  rw [publicRoot, accepted, ok_bind, checkLength_of skSeed_length, ok_bind,
    checkLength_of skPrf_length, ok_bind, checkLength_of pkSeed_length, ok_bind, hashed, ok_bind,
    sound.arenaSize_eq, ok_bind, buffer_of_le sound.arenaSize_fits, ok_bind,
    less_of_le sound.layers, ok_bind, Layer.root_eq sound width, ok_bind]
  rfl

/-- The public root is the root of the tree on top. -/
theorem publicRoot_eq (accepted : p.check = .ok ()) {skSeed skPrf pkSeed : Bytes}
    (skSeed_length : skSeed.length = p.n.toNat) (skPrf_length : skPrf.length = p.n.toNat)
    (pkSeed_length : pkSeed.length = p.n.toNat) {H : TweakableHash} (hashed : p.hash pkSeed = .ok H)
    (width : H.n = p.n.toNat) :
    ∃ slot, publicRoot p skSeed skPrf pkSeed = .ok slot ∧
      slot.front p.n.toNat = topRoot H p skSeed := by
  have sound := Params.sound_of_check accepted
  rw [publicRoot_eq_place accepted skSeed_length skPrf_length pkSeed_length hashed width]
  exact Slot.place_of _ ((Layer.length_treeRoot _ _).trans width) sound.n_le

/-! ## Signing -/

theorem digestOf_eq (sound : p.Sound) (randomizer pkRoot message : Bytes) :
    digestOf H p randomizer pkRoot message = .ok (routeOf H p randomizer pkRoot message) := by
  rw [digestOf, ensure_of (show p.m.toNat ≤ Params.maxMessageDigest from sound.message_le), ok_bind,
    Route.ofDigest_eq sound (H.length_hMsg _ _ _ _), routeOf]

/-- What a run of the signer makes: the randomizer, the route that the message leads to, the forest
signature, and the visits of the layers. -/
structure Run where
  randomizer : Bytes
  route : Route
  forest : Bytes
  visits : List Visit

/-- The signature that a run returns. -/
def Run.signature (run : Run) : Bytes :=
  run.randomizer ++ run.forest ++ (run.visits.map Visit.segment).flatten

/-- Signing with given hash functions, with a record. -/
def runWith (H : TweakableHash) (p : Params) (key : SigningKey) (message optRand : Bytes) :
    Outcome Run := do
  let total ← p.signatureSize
  let behindRandomizer ← less total p.n.toNat
  let forestRoom ← p.forestSize
  let hypertreeRoom ← less behindRandomizer forestRoom
  let randomizer := H.prfMsg key.skPrf optRand message
  let route ← digestOf H p randomizer key.pkRoot message
  buffer (← p.arenaSize)
  let forest ← Forest.sign H p route.forest key.skSeed
    (forestAddress route.tree route.leaf) forestRoom
  let visits ← Hypertree.visits H p forest.publicKey key.skSeed route.tree route.leaf
    hypertreeRoom
  return ⟨randomizer, route, forest.signature, visits⟩

theorem signWith_eq_runWith (key : SigningKey) (message optRand : Bytes) :
    signWith H p key message optRand = (runWith H p key message optRand).map Run.signature := by
  simp only [signWith, runWith, map_bind, Hypertree.sign_eq_visits, bind_of_map]
  rfl

/-- What a run makes for a route. -/
def runOf (H : TweakableHash) (p : Params) (skSeed randomizer : Bytes) (route : Route) : Run where
  randomizer := randomizer
  route := route
  forest := (Forest.segmentsOf H p skSeed (forestAddress route.tree route.leaf)
    route.forest).flatten
  visits := (List.range p.d.toNat).map (Hypertree.visitAt H p skSeed route.tree route.leaf
    (forestValue H p skSeed route.tree route.leaf))

theorem signature_runOf (skSeed randomizer : Bytes) (route : Route) :
    (runOf H p skSeed randomizer route).signature = randomizer ++ body H p skSeed route := by
  rw [Run.signature, runOf, List.append_assoc, List.map_map]
  rfl

/-- A run with given hash functions. -/
theorem runWith_eq (sound : p.Sound) (width : H.n = p.n.toNat) (key : SigningKey)
    (message optRand : Bytes) :
    runWith H p key message optRand = .ok (runOf H p key.skSeed
      (H.prfMsg key.skPrf optRand message)
      (routeOf H p (H.prfMsg key.skPrf optRand message) key.pkRoot message)) := by
  generalize randomizer_eq : H.prfMsg key.skPrf optRand message = randomizer
  generalize route_eq : routeOf H p randomizer key.pkRoot message = route
  have inside : route.leaf.toNat < 2 ^ p.hp.toNat := route_eq ▸ Route.toNat_leaf_lt sound _
  obtain ⟨left, forest, -⟩ := Forest.sign_eq (H := H) sound width route.forest key.skSeed
    (forestAddress route.tree route.leaf)
  have visited := Hypertree.visits_eq (H := H) sound width key.skSeed route.tree inside
    (forestValue H p key.skSeed route.tree route.leaf) ((H.length_t _ _).trans width)
  rw [forestValue] at visited
  rw [runWith, sound.signatureSize_eq, ok_bind, less_of_le (by omega), ok_bind,
    sound.forestSize_eq, ok_bind, less_of_le (by omega), ok_bind]
  simp only []
  rw [randomizer_eq, digestOf_eq sound, ok_bind, route_eq, sound.arenaSize_eq, ok_bind,
    buffer_of_le sound.arenaSize_fits, ok_bind, forest, ok_bind,
    show p.n.toNat + p.k.toNat * ((p.a.toNat + 1) * p.n.toNat) +
        p.d.toNat * ((p.len.toNat + p.hp.toNat) * p.n.toNat) - p.n.toNat -
        p.k.toNat * ((p.a.toNat + 1) * p.n.toNat) =
      p.d.toNat * ((p.len.toNat + p.hp.toNat) * p.n.toNat) by omega, visited, ok_bind,
    pure_eq_ok]
  rfl

/-- A signature is a randomizer and the body of the route that it leads to. -/
theorem signWith_eq (sound : p.Sound) (width : H.n = p.n.toNat) (key : SigningKey)
    (message optRand : Bytes) :
    signWith H p key message optRand = .ok (H.prfMsg key.skPrf optRand message ++
      body H p key.skSeed
        (routeOf H p (H.prfMsg key.skPrf optRand message) key.pkRoot message)) := by
  rw [signWith_eq_runWith, runWith_eq sound width]
  exact congrArg Except.ok (signature_runOf _ _ _)

/-! ## Verifying -/

/-- The front of a body of the right length leads to the forest's public value. -/
theorem forestNode_eq (sound : p.Sound) (width : H.n = p.n.toNat) (route : Route) (body : Bytes)
    (length : body.length = bodyWidth p) :
    ∃ left, Forest.publicKeyOf H p (body.take (forestWidth p)) route.forest
      (forestAddress route.tree route.leaf) = .ok (forestNode H p route body, left) := by
  rw [bodyWidth] at length
  obtain ⟨left, made, -⟩ := Forest.publicKeyOf_eq (H := H) sound width
    (body.take (forestWidth p)) (by rw [List.length_take, ← forestWidth]; omega) route.forest
    (forestAddress route.tree route.leaf)
  exact ⟨left, made⟩

/-- The verdict on a signature of the right length: whether its body climbs to the root. -/
theorem verifyWith_eq (sound : p.Sound) (width : H.n = p.n.toNat) {signature : Bytes}
    (length : signature.length = p.n.toNat + bodyWidth p) (pkRoot message : Bytes) :
    verifyWith H p pkRoot message signature =
      .ok (topOf H p (routeOf H p (signature.take p.n.toNat) pkRoot message)
        (signature.drop p.n.toNat) == pkRoot) := by
  generalize route_eq : routeOf H p (signature.take p.n.toNat) pkRoot message = route
  have inside : route.leaf.toNat < 2 ^ p.hp.toNat := route_eq ▸ Route.toNat_leaf_lt sound _
  obtain ⟨left, forest⟩ := forestNode_eq (H := H) sound width route (signature.drop p.n.toNat)
    (by rw [List.length_drop]; omega)
  rw [bodyWidth] at length
  have hypertree := Hypertree.verify_eq (H := H) sound width route.tree inside
    (forestNode H p route (signature.drop p.n.toNat))
    ((signature.drop p.n.toNat).drop (forestWidth p)) ((H.length_t _ _).trans width)
    (by rw [List.length_drop, List.length_drop, ← layerWidth]; omega) pkRoot
  rw [verifyWith, cut_of_le (by omega), ok_bind]
  simp only []
  rw [sound.forestSize_eq, ok_bind, ← forestWidth,
    cut_of_le (by rw [List.length_drop]; omega), ok_bind]
  simp only []
  rw [digestOf_eq sound, ok_bind, route_eq, forest, ok_bind]
  exact hypertree

/-- The forest's segments for a route compress to the public value. -/
theorem forestNode_body (sound : p.Sound) (width : H.n = p.n.toNat) (skSeed : Bytes)
    (route : Route) :
    forestNode H p route (body H p skSeed route) =
      forestValue H p skSeed route.tree route.leaf := by
  have segments : forestSegments p (body H p skSeed route) =
      Forest.segmentsOf H p skSeed (forestAddress route.tree route.leaf) route.forest := by
    rw [forestSegments, body, List.take_left' (length_forest width _ _ _),
      Forest.blocks_segmentsOf width]
  rw [forestNode, segments, Forest.climbedRoots_segmentsOf sound width, forestValue,
    Forest.publicValue]

/-- The body of a legal route climbs to the root of the tree on top. -/
theorem topOf_body (sound : p.Sound) (width : H.n = p.n.toNat) (skSeed : Bytes) {route : Route}
    (inside : route.leaf.toNat < 2 ^ p.hp.toNat)
    (legal : route.tree.toNat < 2 ^ (p.h.toNat - p.hp.toNat)) :
    topOf H p route (body H p skSeed route) = topRoot H p skSeed := by
  generalize value_eq : forestValue H p skSeed route.tree route.leaf = value
  have segments : layerSegments p (body H p skSeed route) =
      Hypertree.segments H p skSeed route.tree route.leaf value := by
    rw [layerSegments, body, List.drop_left' (length_forest width _ _ _), value_eq, layerWidth,
      Hypertree.blocks_segments sound width]
  rw [topOf, forestNode_body sound width, segments, value_eq,
    Hypertree.climbedFrom_segments sound width skSeed route.tree inside, Hypertree.rootAt,
    Hypertree.addressAt, Hypertree.treeAt_top sound legal, topRoot]

/-- The verdict on a signature says whether the root in the key is the root of the tree on top. -/
theorem verifyWith_signWith (sound : p.Sound) (width : H.n = p.n.toNat) (key : SigningKey)
    (message optRand : Bytes) :
    ∃ signature, signWith H p key message optRand = .ok signature ∧
      signature.length = p.n.toNat + bodyWidth p ∧
      verifyWith H p key.pkRoot message signature = .ok (topRoot H p key.skSeed == key.pkRoot) := by
  have randomizer := (H.length_prfMsg key.skPrf optRand message).trans width
  have length := length_body sound width key.skSeed
    (routeOf H p (H.prfMsg key.skPrf optRand message) key.pkRoot message)
  refine ⟨_, signWith_eq sound width key message optRand, ?_, ?_⟩
  · rw [List.length_append, randomizer, length]
  · rw [verifyWith_eq sound width (by rw [List.length_append, randomizer, length]),
      List.take_left' randomizer, List.drop_left' randomizer, routeOf,
      topOf_body sound width _ (Route.toNat_leaf_lt sound _) (Route.toNat_tree_lt sound _)]

end HashSignature.Signing
