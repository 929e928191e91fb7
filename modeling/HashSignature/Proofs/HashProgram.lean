/-
# HashSignature.Proofs.HashProgram — computations that ask for their digests

Which hash calls a computation makes cannot be seen from a function of the hash functions: only its
result can. A `HashProgram` is a computation that has no hash functions at hand. It names a call and
goes on with whatever digest it is given, so under given hash functions it has both a result,
`answer`, and the calls that lead to it, `calls`, in order.

* `answer_bind`, `mem_calls_bind` — both are read off a program bind by bind.
* `answer_of_agree` — hash functions that agree on the calls of a program give the same result.
* `Stays` — a program makes calls of a given set only; proved bind by bind, and what follows a bind
  may use what came before it.
-/
import HashSignature.Proofs.Outcome
import HashSignature.Tweakable.Basic

namespace HashSignature

set_option autoImplicit false

/-! ## Calls -/

/-- A call of one of the hash functions that take an address. -/
inductive HashCall where
  | prf (adrs : Address) (skSeed : Bytes)
  | f (adrs : Address) (block : Bytes)
  | h (adrs : Address) (left right : Bytes)
  | t (adrs : Address) (blocks : Bytes)
deriving DecidableEq

namespace HashCall

/-- The address that a call is made under. -/
def adrs : HashCall → Address
  | prf adrs _ => adrs
  | f adrs _ => adrs
  | h adrs _ _ => adrs
  | t adrs _ => adrs

/-- What hash functions reply to a call. -/
def reply (H : TweakableHash) : HashCall → Bytes
  | prf adrs skSeed => H.prf adrs skSeed
  | f adrs block => H.f adrs block
  | h adrs left right => H.h adrs left right
  | t adrs blocks => H.t adrs blocks

end HashCall

/-! ## Programs -/

/-- A computation that names its hash calls and goes on with the replies. -/
inductive HashProgram (α : Type) where
  /-- The end, with what the computation ends with. -/
  | ended (result : Outcome α)
  /-- A call, and how to go on with its reply. -/
  | call (call : HashCall) (next : Bytes → HashProgram α)

namespace HashProgram

variable {α β : Type} {H H' : TweakableHash}

/-- One program after another; a program that ends without a value is the last. -/
def bind : HashProgram α → (α → HashProgram β) → HashProgram β
  | ended (.ok a), next => next a
  | ended (.error stop), _ => ended (.error stop)
  | call c after, next => call c fun digest => (after digest).bind next

instance : Monad HashProgram where
  pure a := ended (.ok a)
  bind := bind

instance : MonadLift Outcome HashProgram := ⟨ended⟩

/-- Makes one call. -/
def ask (c : HashCall) : HashProgram Bytes := call c fun digest => pure digest

/-- What a program ends with under given hash functions. -/
def answer (H : TweakableHash) : HashProgram α → Outcome α
  | ended result => result
  | call c next => (next (c.reply H)).answer H

/-- The calls that a program makes under given hash functions. -/
def calls (H : TweakableHash) : HashProgram α → List HashCall
  | ended _ => []
  | call c next => c :: (next (c.reply H)).calls H

@[simp] theorem answer_pure (a : α) : (pure a : HashProgram α).answer H = .ok a := rfl

@[simp] theorem answer_lift (result : Outcome α) :
    (liftM result : HashProgram α).answer H = result := rfl

@[simp] theorem answer_ask (c : HashCall) : (ask c).answer H = .ok (c.reply H) := rfl

@[simp] theorem answer_bind (program : HashProgram α) (next : α → HashProgram β) :
    (program >>= next).answer H = program.answer H >>= fun a => (next a).answer H := by
  induction program with
  | ended result => cases result <;> rfl
  | call c after ih => exact ih (c.reply H)

@[simp] theorem not_mem_calls_pure (c : HashCall) (a : α) :
    c ∉ (pure a : HashProgram α).calls H := List.not_mem_nil

@[simp] theorem not_mem_calls_lift (c : HashCall) (result : Outcome α) :
    c ∉ (liftM result : HashProgram α).calls H := List.not_mem_nil

@[simp] theorem mem_calls_ask {c d : HashCall} : c ∈ (ask d).calls H ↔ c = d := List.mem_singleton

/-- A call of two programs in a row is a call of the first, or of the second after what the first
ended with. -/
theorem mem_calls_bind {c : HashCall} {program : HashProgram α} {next : α → HashProgram β} :
    c ∈ (program >>= next).calls H ↔
      c ∈ program.calls H ∨ ∃ a, program.answer H = .ok a ∧ c ∈ (next a).calls H := by
  induction program with
  | ended result =>
      cases result with
      | ok a =>
          change c ∈ (next a).calls H ↔ _
          simp [calls, answer]
      | error stop =>
          change c ∈ [] ↔ _
          simp [calls, answer]
  | call d after ih =>
      change c ∈ d :: ((after (d.reply H)) >>= next).calls H ↔ _
      rw [List.mem_cons, ih (d.reply H)]
      simp [calls, answer, or_assoc]

/-- The calls of two programs in a row, the first of which ends with a value. -/
theorem calls_bind {program : HashProgram α} {next : α → HashProgram β} {a : α}
    (answered : program.answer H = .ok a) :
    (program >>= next).calls H = program.calls H ++ (next a).calls H := by
  induction program with
  | ended result =>
      obtain rfl : result = .ok a := answered
      rfl
  | call c after ih => exact congrArg (c :: ·) (ih (c.reply H) answered)

theorem calls_lift_bind {result : Outcome α} {next : α → HashProgram β} {a : α}
    (ended : result = .ok a) :
    ((liftM result : HashProgram α) >>= next).calls H = (next a).calls H :=
  calls_bind ended

theorem calls_ask_bind (c : HashCall) (next : Bytes → HashProgram β) :
    (ask c >>= next).calls H = c :: (next (c.reply H)).calls H :=
  calls_bind rfl

/-- What follows a program without calls makes all calls. -/
theorem calls_bind_pure {program : HashProgram α} (g : α → β) {a : α}
    (answered : program.answer H = .ok a) :
    (program >>= fun a => pure (g a)).calls H = program.calls H := by
  rw [calls_bind answered]
  exact List.append_nil _

/-- Hash functions that agree on the calls of a program give it the same end. -/
theorem answer_of_agree {program : HashProgram α}
    (agree : ∀ c ∈ program.calls H, c.reply H' = c.reply H) :
    program.answer H' = program.answer H := by
  induction program with
  | ended result => rfl
  | call c next ih =>
      have here := agree c (by simp [calls])
      rw [answer, answer, here]
      exact ih _ fun d member => agree d (by simp [calls, member])

/-! ## Lists of programs -/

theorem answer_mapM_loop {γ : Type} (f : γ → HashProgram α) (list : List γ) (done : List α) :
    (List.mapM.loop f list done).answer H =
      List.mapM.loop (fun c => (f c).answer H) list done := by
  induction list generalizing done with
  | nil => rfl
  | cons c rest ih => simp only [List.mapM.loop, answer_bind, ih]

theorem answer_mapM {γ : Type} (f : γ → HashProgram α) (list : List γ) :
    (list.mapM f).answer H = list.mapM fun c => (f c).answer H :=
  answer_mapM_loop f list []

theorem of_mem_calls_mapM_loop {γ : Type} {f : γ → HashProgram α} {list : List γ} {done : List α}
    {c : HashCall} (member : c ∈ (List.mapM.loop f list done).calls H) :
    ∃ d ∈ list, c ∈ (f d).calls H := by
  induction list generalizing done with
  | nil => exact absurd member (not_mem_calls_pure c _)
  | cons d rest ih =>
      rw [List.mapM.loop, mem_calls_bind] at member
      rcases member with first | ⟨_, -, later⟩
      · exact ⟨d, by simp, first⟩
      · obtain ⟨e, inside, calls⟩ := ih later
        exact ⟨e, by simp [inside], calls⟩

/-- A call of programs run one after the other is a call of one of them. -/
theorem of_mem_calls_mapM {γ : Type} {f : γ → HashProgram α} {list : List γ} {c : HashCall}
    (member : c ∈ (list.mapM f).calls H) : ∃ d ∈ list, c ∈ (f d).calls H :=
  of_mem_calls_mapM_loop member

theorem calls_mapM_eq_nil {γ : Type} {f : γ → HashProgram α} {list : List γ}
    (none : ∀ d ∈ list, (f d).calls H = []) : (list.mapM f).calls H = [] := by
  apply List.eq_nil_iff_forall_not_mem.2
  intro c member
  obtain ⟨d, inside, calls⟩ := of_mem_calls_mapM member
  rw [none d inside] at calls
  exact List.not_mem_nil calls

/-! ## Programs that stay inside a set of calls -/

/-- Every call that a program makes under given hash functions belongs to a set. -/
def Stays (H : TweakableHash) (S : HashCall → Prop) (program : HashProgram α) : Prop :=
  ∀ c ∈ program.calls H, S c

section Stays

variable {S : HashCall → Prop}

theorem stays_pure (a : α) : Stays H S (pure a) :=
  fun c member => absurd member (not_mem_calls_pure c a)

theorem stays_lift (result : Outcome α) : Stays H S (liftM result : HashProgram α) :=
  fun c member => absurd member (not_mem_calls_lift c result)

/-- What follows a program has to stay only for the value that the program ends with. -/
theorem Stays.bind {program : HashProgram α} {next : α → HashProgram β}
    (first : Stays H S program)
    (after : ∀ a, program.answer H = .ok a → Stays H S (next a)) :
    Stays H S (program >>= next) := by
  intro c member
  rcases mem_calls_bind.1 member with early | ⟨a, answered, late⟩
  · exact first c early
  · exact after a answered c late

theorem stays_lift_bind {result : Outcome α} {next : α → HashProgram β}
    (after : ∀ a, result = .ok a → Stays H S (next a)) :
    Stays H S ((liftM result : HashProgram α) >>= next) :=
  (stays_lift result).bind after

theorem stays_ask {c : HashCall} (inside : S c) : Stays H S (ask c) := by
  intro d member
  obtain rfl := mem_calls_ask.1 member
  exact inside

theorem stays_ask_bind {c : HashCall} {next : Bytes → HashProgram β} (inside : S c)
    (after : Stays H S (next (c.reply H))) : Stays H S (ask c >>= next) := by
  apply (stays_ask inside).bind
  intro digest answered
  obtain rfl := Except.ok.inj answered
  exact after

theorem stays_mapM {γ : Type} {f : γ → HashProgram α} {list : List γ}
    (each : ∀ d ∈ list, Stays H S (f d)) : Stays H S (list.mapM f) := by
  intro c member
  obtain ⟨d, inside, calls⟩ := of_mem_calls_mapM member
  exact each d inside c calls

/-- A program that stays inside a set ends the same way under hash functions that agree there. -/
theorem Stays.answer_eq {program : HashProgram α} (stays : Stays H S program)
    (agree : ∀ c, S c → c.reply H' = c.reply H) : program.answer H' = program.answer H :=
  answer_of_agree fun c member => agree c (stays c member)

end Stays

end HashProgram

end HashSignature
