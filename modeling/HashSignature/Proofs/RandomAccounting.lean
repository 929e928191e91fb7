/-
# HashSignature.Proofs.RandomAccounting — where each random byte of a run goes

Keys and randomized signatures are drawn from one source, in any order, and calls may fail between
them. A run is followed by a position in the source: each call takes blocks from there on, and says
what each of them is for. A call that fails takes nothing, with one exception: a key that finds too
few bytes has taken the whole blocks that were left, and nobody uses them.

* `DrawCall.Spends` — what a call takes at a position, what it returns, and where it leaves the
  source; one rule for each way in which a call ends.
* `DrawCall.accountedAt` — the step: every call ends in one of these ways.
* `Accounts` — the account of a run, call by call.
* `exists_accounts` — the run: there is one for any calls, by induction on them.
* `Tiles` — blocks that follow each other without gap or overlap.
* `random_bytes_are_accounted` — over a whole run each byte that was taken is in exactly one block.
-/
import HashSignature.Proofs.KeySafety
import HashSignature.Proofs.Refusal

namespace HashSignature

set_option autoImplicit false

open Outcome

/-! ## Calls -/

/-- The calls that draw random bytes. -/
inductive DrawCall where
  /-- A fresh key pair. -/
  | generate (p : Params)
  /-- A randomized signature of a message that is bound to a context. -/
  | sign (key : PrivateKey) (message context : Bytes)
  /-- A randomized signature of a message as it is. -/
  | signBare (key : PrivateKey) (message : Bytes)

/-- What the calls return. -/
inductive Drawn where
  | keys (pair : PublicKey × PrivateKey)
  | signature (bytes : Bytes)

namespace DrawCall

/-- Makes a call. -/
def run : DrawCall → Draw Drawn
  | generate p => Drawn.keys <$> generateKeyPair p
  | sign key message context => Drawn.signature <$> key.signRandomized message context
  | signBare key message => Drawn.signature <$> key.signRandomizedBare message

/-- Any parameters may be given; keys exist for accepted ones only. -/
def Accepted : DrawCall → Prop
  | generate _ => True
  | sign key _ _ => key.params.check = .ok ()
  | signBare key _ => key.params.check = .ok ()

/-- Makes calls one after the other, whether they succeed or not. -/
def runAll : List DrawCall → RandomSource → List (Outcome Drawn) × RandomSource
  | [], source => ([], source)
  | call :: rest, source =>
    let (outcome, left) := call.run source
    let (outcomes, final) := runAll rest left
    (outcome :: outcomes, final)

end DrawCall

/-! ## Accounts -/

/-- What a block of random bytes is used for. -/
inductive Purpose where
  | skSeed
  | skPrf
  | pkSeed
  /-- It goes into the randomizer of a signature. -/
  | randomizer
  /-- It was drawn for a key that was not made. -/
  | lost
deriving DecidableEq

/-- A block of random bytes, by its place in the source. -/
structure Block where
  purpose : Purpose
  start : Nat
  length : Nat
deriving DecidableEq

namespace Block

/-- Whether a byte of the source is in a block. -/
def covers (block : Block) (i : Nat) : Bool :=
  block.start ≤ i && i < block.start + block.length

/-- The bytes of a block. -/
def bytes (block : Block) (source : RandomSource) : Bytes :=
  Bytes.slice block.start block.length source.pool

end Block

/-- What a call that finds a source at position `start` takes from it and returns, and the position
at which it leaves the source. -/
inductive DrawCall.Spends (source : RandomSource) (start : Nat) :
    DrawCall → List Block → Outcome Drawn → (stop : Nat) → Prop where
  /-- A key is made from three blocks: the secret seed, the key of the randomizer, the public seed. -/
  | generated {p : Params} {n : Nat} {skSeed skPrf pkSeed : Block} {key : PrivateKey}
      (accepted : p.check = .ok ()) (size : p.n.toNat = n)
      (enough : start + 3 * n ≤ source.pool.length)
      (first : skSeed = ⟨.skSeed, start, n⟩) (second : skPrf = ⟨.skPrf, start + n, n⟩)
      (third : pkSeed = ⟨.pkSeed, start + 2 * n, n⟩)
      (made : PrivateKey.ofSeeds p (skSeed.bytes source) (skPrf.bytes source)
        (pkSeed.bytes source) = .ok key) :
      Spends source start (generate p) [skSeed, skPrf, pkSeed] (.ok (.keys (key.publicKey, key)))
        (start + 3 * n)
  /-- A key that finds too few bytes takes the whole blocks that are left. -/
  | generateShort {p : Params} {n : Nat} (accepted : p.check = .ok ()) (size : p.n.toNat = n)
      (few : source.pool.length < start + 3 * n) :
      Spends source start (generate p)
        ((List.range ((source.pool.length - start) / n)).map fun i => ⟨.lost, start + i * n, n⟩)
        (refuse (.randomGenerationFailed (.unavailable n source.explanation)))
        (start + n * ((source.pool.length - start) / n))
  /-- Parameters that are not accepted end the call as the check of them ends. -/
  | generateRefused {p : Params} {stop : Stop} (refused : p.check = .error stop) :
      Spends source start (generate p) [] (.error stop) start
  /-- The framed message is signed with one block. -/
  | signed {key : PrivateKey} {message context framed signature : Bytes} {block : Block}
      (framed_eq : frame context message = .ok framed)
      (enough : start + key.n ≤ source.pool.length) (taken : block = ⟨.randomizer, start, key.n⟩)
      (made : key.signPrepared framed (block.bytes source) = .ok signature) :
      Spends source start (sign key message context) [block] (.ok (.signature signature))
        (start + key.n)
  | signShort {key : PrivateKey} {message context : Bytes} (fits : context.length ≤ 255)
      (few : source.pool.length < start + key.n) :
      Spends source start (sign key message context) [] (refuse (key.noRandom source)) start
  | signLong {key : PrivateKey} {message context : Bytes} (long : 255 < context.length) :
      Spends source start (sign key message context) []
        (refuse (.contextTooLong context.length)) start
  /-- The message itself is signed with one block. -/
  | signedBare {key : PrivateKey} {message signature : Bytes} {block : Block}
      (enough : start + key.n ≤ source.pool.length) (taken : block = ⟨.randomizer, start, key.n⟩)
      (made : key.signPrepared message (block.bytes source) = .ok signature) :
      Spends source start (signBare key message) [block] (.ok (.signature signature))
        (start + key.n)
  | signBareShort {key : PrivateKey} {message : Bytes}
      (few : source.pool.length < start + key.n) :
      Spends source start (signBare key message) [] (refuse (key.noRandom source)) start

/-- What calls take from a source one after the other, each from where the one before it stopped. -/
inductive Accounts (source : RandomSource) :
    (start : Nat) → List DrawCall → List (Outcome Drawn) → List Block → (stop : Nat) → Prop where
  | done {start : Nat} : Accounts source start [] [] [] start
  | call {start between stop : Nat} {call : DrawCall} {calls : List DrawCall}
      {outcome : Outcome Drawn} {outcomes : List (Outcome Drawn)} {blocks others : List Block}
      (spends : call.Spends source start blocks outcome between)
      (later : Accounts source between calls outcomes others stop) :
      Accounts source start (call :: calls) (outcome :: outcomes) (blocks ++ others) stop

/-! ## Blocks that follow each other -/

/-- The blocks follow each other from one position to another. -/
def Tiles : (start : Nat) → List Block → (stop : Nat) → Prop
  | start, [], stop => start = stop
  | start, block :: rest, stop => block.start = start ∧ Tiles (start + block.length) rest stop

theorem Tiles.append {start between stop : Nat} {blocks others : List Block}
    (first : Tiles start blocks between) (second : Tiles between others stop) :
    Tiles start (blocks ++ others) stop := by
  induction blocks generalizing start with
  | nil =>
      obtain rfl : start = between := first
      exact second
  | cons block rest ih => exact ⟨first.1, ih first.2⟩

theorem Tiles.le {start stop : Nat} {blocks : List Block} (tiles : Tiles start blocks stop) :
    start ≤ stop := by
  induction blocks generalizing start with
  | nil => exact Nat.le_of_eq tiles
  | cons block rest ih =>
      have := ih tiles.2
      omega

/-- Each byte between the two positions is in one block, and no other byte is in any. -/
theorem Tiles.count {start stop : Nat} {blocks : List Block} (tiles : Tiles start blocks stop)
    (i : Nat) : blocks.countP (·.covers i) = if start ≤ i ∧ i < stop then 1 else 0 := by
  induction blocks generalizing start with
  | nil =>
      obtain rfl : start = stop := tiles
      rw [if_neg (by omega)]
      rfl
  | cons block rest ih =>
      obtain ⟨rfl, later⟩ := tiles
      have := later.le
      rw [List.countP_cons, ih later]
      simp only [Block.covers, Bool.and_eq_true, decide_eq_true_eq]
      split_ifs <;> omega

/-- Blocks of one length. -/
theorem tiles_range (purpose : Purpose) (start n count : Nat) :
    Tiles start ((List.range count).map fun i => ⟨purpose, start + i * n, n⟩)
      (start + n * count) := by
  induction count with
  | zero => exact (Nat.add_zero start).symm
  | succ count ih =>
      rw [List.range_succ, List.map_append, List.map_singleton]
      refine ih.append ⟨by rw [Nat.mul_comm], ?_⟩
      show start + n * count + n = start + n * (count + 1)
      rw [Nat.mul_succ, Nat.add_assoc]

theorem DrawCall.Spends.tiles {source : RandomSource} {start stop : Nat} {call : DrawCall}
    {blocks : List Block} {outcome : Outcome Drawn}
    (spends : call.Spends source start blocks outcome stop) : Tiles start blocks stop := by
  cases spends with
  | generated _ _ _ first second third =>
      subst first second third
      refine ⟨rfl, rfl, ?_, ?_⟩
      · dsimp only
        omega
      · dsimp only [Tiles]
        omega
  | generateShort => exact tiles_range _ _ _ _
  | generateRefused => rfl
  | signed _ _ taken =>
      subst taken
      exact ⟨rfl, rfl⟩
  | signShort => rfl
  | signLong => rfl
  | signedBare _ taken =>
      subst taken
      exact ⟨rfl, rfl⟩
  | signBareShort => rfl

theorem Accounts.tiles {source : RandomSource} {start stop : Nat} {calls : List DrawCall}
    {outcomes : List (Outcome Drawn)} {blocks : List Block}
    (accounts : Accounts source start calls outcomes blocks stop) : Tiles start blocks stop := by
  induction accounts with
  | done => rfl
  | call spends _ ih => exact spends.tiles.append ih

/-! ## Draws at a position -/

namespace RandomSource

/-- The source from a position on. -/
def skip (source : RandomSource) (start : Nat) : RandomSource :=
  { source with pool := source.pool.drop start }

theorem skip_zero (source : RandomSource) : source.skip 0 = source := rfl

theorem skip_skip (source : RandomSource) (start n : Nat) :
    (source.skip start).skip n = source.skip (start + n) := by
  rw [skip, skip, skip, List.drop_drop]

end RandomSource

namespace Draw

variable {source : RandomSource} {start n : Nat}

/-- A seed is the next block. -/
theorem seed_skip (le : n ≤ Slot.width) (enough : start + n ≤ source.pool.length) :
    ∃ slot, slot.front n = Bytes.slice start n source.pool ∧
      seed n (source.skip start) = (.ok slot, source.skip (start + n)) := by
  have length : n ≤ (source.skip start).pool.length := by
    rw [RandomSource.skip, List.length_drop]; omega
  have taken : ((source.skip start).pool.take n).length = n := by
    rw [List.length_take]; omega
  refine ⟨Slot.fill ((source.skip start).pool.take n) (by omega), Slot.front_fill _ taken, ?_⟩
  rw [seed, dif_pos le, if_pos length, ← RandomSource.skip_skip]
  rfl

theorem seed_skip_of_lt (le : n ≤ Slot.width) (inside : start ≤ source.pool.length)
    (few : source.pool.length < start + n) :
    seed n (source.skip start) =
      (refuse (.randomGenerationFailed (.unavailable n source.explanation)), source.skip start) :=
  seed_of_lt le (by rw [RandomSource.skip, List.length_drop]; omega)

end Draw

/-! ## Every call is accounted for -/

variable {p : Params} {source : RandomSource} {start : Nat}

namespace PrivateKey

/-- With enough bytes a key is made from the next three blocks. -/
theorem generate_skip (accepted : p.check = .ok ())
    (enough : start + 3 * p.n.toNat ≤ source.pool.length) :
    ∃ key, ofSeeds p (Bytes.slice start p.n.toNat source.pool)
        (Bytes.slice (start + p.n.toNat) p.n.toNat source.pool)
        (Bytes.slice (start + 2 * p.n.toNat) p.n.toNat source.pool) = .ok key ∧
      generate p (source.skip start) = (.ok key, source.skip (start + 3 * p.n.toNat)) := by
  have le : p.n.toNat ≤ Slot.width := (Params.sound_of_check accepted).n_le
  have enough₁ : start + p.n.toNat ≤ source.pool.length := by omega
  have enough₂ : start + p.n.toNat + p.n.toNat ≤ source.pool.length := by omega
  have enough₃ : start + p.n.toNat + p.n.toNat + p.n.toNat ≤ source.pool.length := by omega
  obtain ⟨skSeed, front₁, drawn₁⟩ := Draw.seed_skip le enough₁
  obtain ⟨skPrf, front₂, drawn₂⟩ := Draw.seed_skip le enough₂
  obtain ⟨pkSeed, front₃, drawn₃⟩ := Draw.seed_skip le enough₃
  obtain ⟨key, made⟩ := exists_ofSeeds accepted (skSeed.length_front le) (skPrf.length_front le)
    (pkSeed.length_front le)
  have stop : start + p.n.toNat + p.n.toNat + p.n.toNat = start + 3 * p.n.toNat := by omega
  refine ⟨key, ?_, ?_⟩
  · rw [Nat.two_mul, ← Nat.add_assoc, ← front₁, ← front₂, ← front₃, made]
  · rw [generate, bind_of_run (Draw.ofOutcome_of accepted _), bind_of_run drawn₁,
      bind_of_run drawn₂, bind_of_run drawn₃, Draw.ofOutcome, made, stop]

/-- With too few bytes a key takes the whole blocks that are left. -/
theorem generate_skip_of_lt (accepted : p.check = .ok ()) (inside : start ≤ source.pool.length)
    (few : source.pool.length < start + 3 * p.n.toNat) :
    generate p (source.skip start) =
      (refuse (.randomGenerationFailed (.unavailable p.n.toNat source.explanation)),
        source.skip (start + p.n.toNat * ((source.pool.length - start) / p.n.toNat))) := by
  have sound := Params.sound_of_check accepted
  have le : p.n.toNat ≤ Slot.width := sound.n_le
  have pos := sound.n_pos
  rw [generate, bind_of_run (Draw.ofOutcome_of accepted _)]
  generalize size : p.n.toNat = n at *
  -- the first, the second or the third seed is the one that is missing
  obtain few₁ | enough₁ := Nat.lt_or_ge source.pool.length (start + n)
  · rw [bind_of_stop (Draw.seed_skip_of_lt le inside few₁), Nat.div_eq_of_lt (by omega)]
    rfl
  obtain ⟨skSeed, -, drawn₁⟩ := Draw.seed_skip le enough₁
  rw [bind_of_run drawn₁]
  obtain few₂ | enough₂ := Nat.lt_or_ge source.pool.length (start + n + n)
  · have one : (source.pool.length - start) / n = 1 :=
      Nat.div_eq_of_lt_le (by omega) (by omega)
    rw [bind_of_stop (Draw.seed_skip_of_lt le enough₁ few₂), one, Nat.mul_one]
    rfl
  obtain ⟨skPrf, -, drawn₂⟩ := Draw.seed_skip le enough₂
  have two : (source.pool.length - start) / n = 2 :=
    Nat.div_eq_of_lt_le (by omega) (by omega)
  rw [bind_of_run drawn₂, bind_of_stop (Draw.seed_skip_of_lt le enough₂ (by omega)), two,
    Nat.mul_two, Nat.add_assoc]
  rfl

/-- The drawing signer of bare messages signs with the next block. -/
theorem signRandomizedBare_skip {key : PrivateKey} (accepted : key.params.check = .ok ())
    (message : Bytes) (enough : start + key.n ≤ source.pool.length) :
    ∃ signature, key.signPrepared message (Bytes.slice start key.n source.pool) = .ok signature ∧
      key.signRandomizedBare message (source.skip start) =
        (.ok signature, source.skip (start + key.n)) := by
  have le : key.n ≤ Slot.width := (Params.sound_of_check accepted).n_le
  obtain ⟨slot, front, drawn⟩ := Draw.seed_skip le enough
  obtain ⟨signature, signed, -⟩ := signed_of_length accepted (slot.length_front le) message
  refine ⟨signature, front ▸ signed, ?_⟩
  rw [signRandomizedBare, bind_of_run drawn, Draw.ofOutcome, signed]

theorem signRandomizedBare_skip_of_lt {key : PrivateKey} (accepted : key.params.check = .ok ())
    (message : Bytes) (inside : start ≤ source.pool.length)
    (few : source.pool.length < start + key.n) :
    key.signRandomizedBare message (source.skip start) =
      (refuse (key.noRandom source), source.skip start) := by
  have le : key.n ≤ Slot.width := (Params.sound_of_check accepted).n_le
  rw [signRandomizedBare, bind_of_stop (Draw.seed_skip_of_lt le inside few)]
  rfl

end PrivateKey

namespace DrawCall

/-- A call that is made at a position of the source is accounted for. -/
def AccountedAt (source : RandomSource) (start : Nat) (call : DrawCall) : Prop :=
  ∃ blocks outcome stop, call.run (source.skip start) = (outcome, source.skip stop) ∧
    call.Spends source start blocks outcome stop ∧ stop ≤ source.pool.length

theorem accountedAt_generate (p : Params) (inside : start ≤ source.pool.length) :
    (generate p).AccountedAt source start := by
  cases checked : p.check with
  | error stop =>
      have ended := (Params.stops_of_check checked).drawnPair (source.skip start)
      exact ⟨_, _, _, map_of_stop _ ended, .generateRefused checked, inside⟩
  | ok u =>
      obtain few | enough := Nat.lt_or_ge source.pool.length (start + 3 * p.n.toNat)
      · have ended := PrivateKey.generate_skip_of_lt checked inside few
        have whole := Nat.mul_div_le (source.pool.length - start) p.n.toNat
        exact ⟨_, _, _, map_of_stop _ (bind_of_stop ended), .generateShort checked rfl few,
          by omega⟩
      · obtain ⟨key, made, drawn⟩ := PrivateKey.generate_skip checked enough
        exact ⟨_, _, _, map_of_run _ (bind_of_run drawn),
          .generated checked rfl enough rfl rfl rfl made, enough⟩

theorem accountedAt_signBare {key : PrivateKey} (accepted : key.params.check = .ok ())
    (message : Bytes) (inside : start ≤ source.pool.length) :
    (signBare key message).AccountedAt source start := by
  obtain few | enough := Nat.lt_or_ge source.pool.length (start + key.n)
  · have ended := PrivateKey.signRandomizedBare_skip_of_lt accepted message inside few
    exact ⟨_, _, _, map_of_stop _ ended, .signBareShort few, inside⟩
  · obtain ⟨signature, made, ended⟩ :=
      PrivateKey.signRandomizedBare_skip accepted message enough
    exact ⟨_, _, _, map_of_run _ ended, .signedBare enough rfl made, enough⟩

theorem accountedAt_sign {key : PrivateKey} (accepted : key.params.check = .ok ())
    (message context : Bytes) (inside : start ≤ source.pool.length) :
    (sign key message context).AccountedAt source start := by
  obtain long | fits := Nat.lt_or_ge 255 context.length
  · have ended := PrivateKey.signRandomized_of_lt key long message (source.skip start)
    exact ⟨_, _, _, map_of_stop _ ended, .signLong long, inside⟩
  obtain ⟨framed, framed_eq⟩ := PrivateKey.frame_of fits message
  have same := PrivateKey.signRandomized_of_frame key framed_eq (source.skip start)
  obtain few | enough := Nat.lt_or_ge source.pool.length (start + key.n)
  · have ended := PrivateKey.signRandomizedBare_skip_of_lt accepted framed inside few
    exact ⟨_, _, _, map_of_stop _ (same.trans ended), .signShort fits few, inside⟩
  · obtain ⟨signature, made, ended⟩ := PrivateKey.signRandomizedBare_skip accepted framed enough
    exact ⟨_, _, _, map_of_run _ (same.trans ended), .signed framed_eq enough rfl made, enough⟩

/-- Every call ends in one of the ways that are accounted for. -/
theorem accountedAt {call : DrawCall} (accepted : call.Accepted)
    (inside : start ≤ source.pool.length) : call.AccountedAt source start := by
  cases call with
  | generate p => exact accountedAt_generate p inside
  | sign key message context => exact accountedAt_sign accepted message context inside
  | signBare key message => exact accountedAt_signBare accepted message inside

end DrawCall

/-! ## Whole runs -/

/-- Calls that are made one after the other have an account. -/
theorem exists_accounts {calls : List DrawCall} (accepted : ∀ call ∈ calls, call.Accepted)
    (inside : start ≤ source.pool.length) :
    ∃ outcomes blocks stop, DrawCall.runAll calls (source.skip start) =
        (outcomes, source.skip stop) ∧
      Accounts source start calls outcomes blocks stop ∧ stop ≤ source.pool.length := by
  -- the rest of a run is a run from the position where the first call stopped
  induction calls generalizing start with
  | nil => exact ⟨[], [], start, rfl, .done, inside⟩
  | cons call rest ih =>
      obtain ⟨blocks, outcome, between, ran, spends, between_le⟩ :=
        DrawCall.accountedAt (accepted call (by simp)) inside
      obtain ⟨outcomes, others, stop, later, accounts, stop_le⟩ :=
        ih (fun other member => accepted other (by simp [member])) between_le
      refine ⟨outcome :: outcomes, blocks ++ others, stop, ?_, .call spends accounts, stop_le⟩
      rw [DrawCall.runAll, ran]
      simp only []
      rw [later]

/-- Random bytes are accounted for over whole runs. Calls that draw keys and randomized signatures are
made one after the other on one source, in any order, with any parameters and any keys of accepted
parameters. Each call takes the blocks that its way of ending says, from where the call before it
stopped; of the bytes that were taken each one is in exactly one block, so none is used twice or
passed over, and no other byte is in any. -/
theorem random_bytes_are_accounted (calls : List DrawCall)
    (accepted : ∀ call ∈ calls, call.Accepted) (source : RandomSource) :
    ∃ blocks stop, stop ≤ source.pool.length ∧
      (DrawCall.runAll calls source).2 = { source with pool := source.pool.drop stop } ∧
      Accounts source 0 calls (DrawCall.runAll calls source).1 blocks stop ∧
      ∀ i, blocks.countP (·.covers i) = if i < stop then 1 else 0 := by
  obtain ⟨outcomes, blocks, stop, ran, accounts, stop_le⟩ :=
    exists_accounts accepted (Nat.zero_le source.pool.length)
  rw [RandomSource.skip_zero] at ran
  refine ⟨blocks, stop, stop_le, by rw [ran]; rfl, by rw [ran]; exact accounts, ?_⟩
  intro i
  rw [accounts.tiles.count i]
  simp only [Nat.zero_le, true_and]

/-- A key, a signature and a key for which too few bytes are left, with a context that is too long
and numbers of no instance in between. -/
theorem random_bytes_are_accounted_mixed :
    let p : Params := .ofBase .shake 16 1 1 1 1
    let key : PrivateKey := ⟨p, .zero, .zero, .zero, .zero⟩
    let calls : List DrawCall := [.generate p, .sign key [] (Bytes.zeros 256),
      .generate (.ofBase .shake 0 0 0 0 0), .signBare key [], .generate p]
    let source : RandomSource := ⟨Bytes.zeros 100, "no more"⟩
    ∃ blocks stop, stop ≤ 100 ∧
      (DrawCall.runAll calls source).2 = ⟨(Bytes.zeros 100).drop stop, "no more"⟩ ∧
      Accounts source 0 calls (DrawCall.runAll calls source).1 blocks stop ∧
      ∀ i, blocks.countP (·.covers i) = if i < stop then 1 else 0 := by
  intro p key calls source
  have checked : (Params.ofBase .shake 16 1 1 1 1).check = .ok () := rfl
  have accepted : ∀ call ∈ calls, call.Accepted := by
    simp only [calls, List.forall_mem_cons]
    exact ⟨trivial, checked, trivial, checked, trivial, by simp⟩
  exact random_bytes_are_accounted calls accepted source

end HashSignature
