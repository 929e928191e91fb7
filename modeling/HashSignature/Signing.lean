/-
# HashSignature.Signing — public roots, signatures and verification of prepared messages

A message is digested under a fresh randomizer. The digest selects a forest, which signs it, and a
leaf of layer 0, from which the hypertree signs the forest's public value up to the public root. A
signature is the randomizer, the forest signature and the hypertree signature.
-/
import HashSignature.Forest
import HashSignature.Hypertree
import HashSignature.Message.Route
import HashSignature.Slot
import HashSignature.Tweakable.Select

namespace HashSignature.Signing

set_option autoImplicit false

open Outcome

def checkLength (what : String) (expected : Nat) (bytes : Bytes) : Outcome Unit :=
  if bytes.length = expected then .ok ()
  else refuse (.invalidLength what expected bytes.length)

/-- The address of the forest under a leaf of a tree of layer 0. -/
def forestAddress (tree : UInt64) (leaf : UInt32) : Address :=
  ((Address.zero.setTree tree).setType .forsTree).setKeyPair leaf

/-! ## Key generation -/

/-- The public root for given seeds. -/
def publicRoot (p : Params) (skSeed skPrf pkSeed : Bytes) : Outcome Slot := do
  p.check
  checkLength "secret seed" p.n.toNat skSeed
  checkLength "PRF key" p.n.toNat skPrf
  checkLength "public seed" p.n.toNat pkSeed
  let H ← p.hash pkSeed
  buffer (← p.arenaSize)
  let top ← less p.d.toNat 1
  let root ← Layer.root H p skSeed (UInt32.ofNat top) 0
  Slot.place p.n.toNat root

/-! ## Signatures -/

/-- What a signature is made with. -/
structure SigningKey where
  skSeed : Bytes
  skPrf : Bytes
  pkSeed : Bytes
  pkRoot : Bytes

/-- The part of the message digest that is used has to fit its room. -/
def digestOf (H : TweakableHash) (p : Params) (randomizer pkRoot message : Bytes) :
    Outcome Route := do
  ensure (p.m.toNat ≤ Params.maxMessageDigest)
  Route.ofDigest p (H.hMsg randomizer pkRoot message p.m.toNat)

/-- Signs a message with given hash functions. -/
def signWith (H : TweakableHash) (p : Params) (key : SigningKey) (message optRand : Bytes) :
    Outcome Bytes := do
  let total ← p.signatureSize
  let behindRandomizer ← less total p.n.toNat
  let forestRoom ← p.forestSize
  let hypertreeRoom ← less behindRandomizer forestRoom
  let randomizer := H.prfMsg key.skPrf optRand message
  let route ← digestOf H p randomizer key.pkRoot message
  buffer (← p.arenaSize)
  let forest ← Forest.sign H p route.forest key.skSeed
    (forestAddress route.tree route.leaf) forestRoom
  let hypertree ← Hypertree.sign H p forest.publicKey key.skSeed route.tree route.leaf
    hypertreeRoom
  return randomizer ++ forest.signature ++ hypertree

/-- Signs a prepared message; `optRand` goes into the randomizer. -/
def sign (p : Params) (key : SigningKey) (message optRand : Bytes) : Outcome Bytes := do
  p.check
  checkLength "randomizer" p.n.toNat optRand
  checkLength "secret seed" p.n.toNat key.skSeed
  checkLength "PRF key" p.n.toNat key.skPrf
  checkLength "public seed" p.n.toNat key.pkSeed
  checkLength "public root" p.n.toNat key.pkRoot
  buffer (← p.signatureSize)
  let H ← p.hash key.pkSeed
  signWith H p key message optRand

/-! ## Verification -/

/-- Verifies a signature with given hash functions. -/
def verifyWith (H : TweakableHash) (p : Params) (pkRoot message signature : Bytes) :
    Outcome Bool := do
  let (randomizer, rest) ← cut p.n.toNat signature
  let (forest, hypertree) ← cut (← p.forestSize) rest
  let route ← digestOf H p randomizer pkRoot message
  let (node, _) ← Forest.publicKeyOf H p forest route.forest
    (forestAddress route.tree route.leaf)
  Hypertree.verify H p node hypertree route.tree route.leaf pkRoot

/-- A verdict in which a fault counts as a rejection. -/
def rejectFaults : Outcome Bool → Outcome Bool
  | .error (.fault _) => .ok false
  | verdict => verdict

/-- Whether a signature of a prepared message is valid; whatever is refused on the way is not. -/
def verify (p : Params) (pkSeed pkRoot message signature : Bytes) : Outcome Bool :=
  rejectFaults do
    p.check
    let total ← p.signatureSize
    if signature.length = total ∧ pkSeed.length = p.n.toNat ∧ pkRoot.length = p.n.toNat then do
      let H ← p.hash pkSeed
      verifyWith H p pkRoot message signature
    else return false

end HashSignature.Signing
