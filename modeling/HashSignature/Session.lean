/-
# HashSignature.Session — signing, verifying and changing keys, step by step

A session holds a private key (or none), a public key, a current signature and a random source.
Each step reads or changes one of them and reports what came of it. A step that is refused changes
nothing but the random source, and the session goes on; a broken rule ends the whole session.
-/
import HashSignature.Key.Private

namespace HashSignature

set_option autoImplicit false

/-- How a session comes by its first keys. -/
inductive KeyOrigin where
  /-- An encoded private key. -/
  | privateBytes (bytes : Bytes)
  /-- The three seeds of a private key. -/
  | seeds (skSeed skPrf pkSeed : Bytes)
  /-- An encoded public key; there is no private key. -/
  | publicBytes (bytes : Bytes)
  /-- A key drawn from the session's random source. -/
  | drawn
deriving DecidableEq, Repr

/-- What is held between two steps. -/
structure Session where
  params : Params
  privateKey? : Option PrivateKey
  publicKey : PublicKey
  signature : Bytes
  random : RandomSource

namespace Session

/-- One step of a session. -/
inductive Step where
  /-- Signs a message bound to a context. -/
  | sign (message context : Bytes)
  /-- Signs a message as it is. -/
  | signBare (message : Bytes)
  /-- Signs a message as it is with given random bytes. -/
  | signPrepared (message optRand : Bytes)
  /-- Signs a message bound to a context with drawn random bytes. -/
  | signRandomized (message context : Bytes)
  /-- Signs a message as it is with drawn random bytes. -/
  | signRandomizedBare (message : Bytes)
  /-- Verifies the current signature of a message bound to a context. -/
  | verify (message context : Bytes)
  /-- Verifies the current signature of a message as it is. -/
  | verifyBare (message : Bytes)
  /-- Verifies the current signature of a prepared message. -/
  | verifyPrepared (message : Bytes)
  /-- Replaces the current signature. -/
  | setSignature (bytes : Bytes)
  /-- Mixes one byte of the current signature with a mask. -/
  | mix (position : Nat) (mask : UInt8)
  /-- Exchanges two ranges of the current signature. -/
  | exchange (first second length : Nat)
  /-- Cuts the current signature to at most a length. -/
  | truncate (length : Nat)
  /-- Appends bytes to the current signature. -/
  | append (bytes : Bytes)
  /-- Shows the private key. -/
  | showKey
  /-- Encodes the private key and decodes it again. -/
  | reload
  /-- Wipes the private key. -/
  | wipe
  /-- Takes the private key's public key. -/
  | derivePublic
  /-- Replaces both keys by a decoded private key and its public key. -/
  | loadPrivate (bytes : Bytes)
  /-- Replaces the public key by a decoded one. -/
  | loadPublic (text : String)
deriving DecidableEq, Repr

/-- What came of a step. -/
inductive Report where
  /-- A new current signature. -/
  | signature (bytes : Bytes)
  /-- Whether the current signature is valid. -/
  | verdict (valid : Bool)
  /-- The length of the edited signature. -/
  | length (bytes : Nat)
  /-- The private key. -/
  | key (key : PrivateKey)
  /-- The new public key, and whether it is the same as the one before. -/
  | publicKey (key : PublicKey) (same : Bool)
  /-- The step was refused. -/
  | refused (cause : Fault)
  /-- The step needs a private key and there is none. -/
  | noPrivateKey

/-! ## Editing a signature -/

/-- Mixes the byte at a position inside the string with a mask. -/
def mixAt (position : Nat) (mask : UInt8) (bytes : Bytes) : Outcome Bytes := do
  Outcome.ensure (position < bytes.length)
  return bytes.modify position (· ^^^ mask)

/-- Exchanges the ranges of a length that start at two positions; both lie inside the string. -/
def exchangeRanges (first second length : Nat) (bytes : Bytes) : Outcome Bytes := do
  Outcome.ensure (first + length ≤ bytes.length ∧ second + length ≤ bytes.length)
  return Bytes.overwrite second (Bytes.slice first length bytes)
    (Bytes.overwrite first (Bytes.slice second length bytes) bytes)

/-! ## Steps -/

/-- Goes on after a computation: a fault is reported and the session is kept. -/
def report {α : Type} (session : Session) (outcome : Outcome α)
    (next : α → Session × Report) : Outcome (Session × Report) :=
  match outcome with
  | .ok value => .ok (next value)
  | .error (.fault cause) => .ok (session, .refused cause)
  | .error .broken => Outcome.broken

def withSignature (session : Session) (signature : Bytes) : Session × Report :=
  ({ session with signature }, .signature signature)

/-- Makes an edited signature the current one. -/
def withEdited (session : Session) (signature : Bytes) : Session × Report :=
  ({ session with signature }, .length signature.length)

def withPrivate (session : Session) (key : PrivateKey) : Session × Report :=
  ({ session with privateKey? := some key }, .key key)

def withPublic (session : Session) (key : PublicKey) : Session × Report :=
  ({ session with publicKey := key }, .publicKey key (key.same session.publicKey))

def usePrivate (session : Session) (use : PrivateKey → Outcome (Session × Report)) :
    Outcome (Session × Report) :=
  match session.privateKey? with
  | some key => use key
  | none => .ok (session, .noPrivateKey)

def signWith (session : Session) (sign : PrivateKey → Outcome Bytes) :
    Outcome (Session × Report) :=
  session.usePrivate fun key => session.report (sign key) session.withSignature

/-- Signs with the private key and the random source. -/
def drawWith (session : Session) (sign : PrivateKey → Draw Bytes) : Outcome (Session × Report) :=
  session.usePrivate fun key =>
    let (outcome, random) := (sign key).run session.random
    let session := { session with random }
    session.report outcome session.withSignature

def verifyWith (session : Session) (verify : PublicKey → Bytes → Outcome Bool) :
    Outcome (Session × Report) :=
  session.report (verify session.publicKey session.signature) fun valid =>
    (session, .verdict valid)

def edit (session : Session) (change : Bytes → Outcome Bytes) : Outcome (Session × Report) :=
  session.report (change session.signature) session.withEdited

def step (session : Session) : Step → Outcome (Session × Report)
  | .sign message context => session.signWith (·.sign message context)
  | .signBare message => session.signWith (·.signBare message)
  | .signPrepared message optRand => session.signWith (·.signPrepared message optRand)
  | .signRandomized message context => session.drawWith (·.signRandomized message context)
  | .signRandomizedBare message => session.drawWith (·.signRandomizedBare message)
  | .verify message context => session.verifyWith (·.verify message context ·)
  | .verifyBare message => session.verifyWith (·.verifyBare message ·)
  | .verifyPrepared message => session.verifyWith (·.verifyPrepared message ·)
  | .setSignature bytes => session.edit fun _ => .ok bytes
  | .mix position mask => session.edit (mixAt position mask)
  | .exchange first second length => session.edit (exchangeRanges first second length)
  | .truncate length => session.edit fun signature => .ok (signature.take length)
  | .append bytes => session.edit fun signature => .ok (signature ++ bytes)
  | .showKey => session.usePrivate fun key => .ok (session, .key key)
  | .reload => session.usePrivate fun key =>
    session.report (PrivateKey.ofBytes key.params key.toBytes) session.withPrivate
  | .wipe => session.usePrivate fun key => .ok (session.withPrivate key.wiped)
  | .derivePublic => session.usePrivate fun key => .ok (session.withPublic key.publicKey)
  | .loadPrivate bytes =>
    session.report (PrivateKey.ofBytes session.params bytes) fun key =>
      ({ session with publicKey := key.publicKey }).withPrivate key
  | .loadPublic text =>
    session.report (PublicKey.ofHex session.params text) session.withPublic

/-- Takes steps one after the other. -/
def run (session : Session) : List Step → Outcome (List Report)
  | [] => .ok []
  | step :: rest => do
    let (session, report) ← session.step step
    return report :: (← session.run rest)

/-- Begins a session. -/
def start (p : Params) (origin : KeyOrigin) (random : RandomSource) : Outcome Session :=
  let ofPrivate (key : PrivateKey) (random : RandomSource) : Session :=
    ⟨p, some key, key.publicKey, [], random⟩
  match origin with
  | .privateBytes bytes => return ofPrivate (← PrivateKey.ofBytes p bytes) random
  | .seeds skSeed skPrf pkSeed =>
    return ofPrivate (← PrivateKey.ofSeeds p skSeed skPrf pkSeed) random
  | .publicBytes bytes => return ⟨p, none, ← PublicKey.ofBytes p bytes, [], random⟩
  | .drawn => do
    let (outcome, random) := (PrivateKey.generate p).run random
    return ofPrivate (← outcome) random

end Session

end HashSignature
