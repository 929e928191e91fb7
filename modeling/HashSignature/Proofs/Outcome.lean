/-
# HashSignature.Proofs.Outcome — when a checked rule lets a computation go on

Every rule of the machine that the library asks for is a step of its computations. This file says
when each step goes on and with what, and takes a computation that ended with a value apart at its
binds. No later file unfolds a rule.
-/
import HashSignature.Outcome

namespace HashSignature.Outcome

set_option autoImplicit false

variable {α β : Type}

/-! ## Sequencing -/

@[simp] theorem pure_eq_ok (a : α) : (pure a : Outcome α) = .ok a := rfl

@[simp] theorem ok_bind (a : α) (f : α → Outcome β) : (Except.ok a >>= f) = f a := rfl

@[simp] theorem error_bind (stop : Stop) (f : α → Outcome β) :
    ((Except.error stop : Outcome α) >>= f) = .error stop := rfl

theorem bind_eq_ok {x : Outcome α} {f : α → Outcome β} {b : β} :
    (x >>= f) = .ok b ↔ ∃ a, x = .ok a ∧ f a = .ok b := by
  cases x with
  | ok a => simp
  | error stop => simp

@[simp] theorem refuse_ne_ok (cause : Fault) (a : α) : (refuse cause : Outcome α) ≠ .ok a := by
  simp [refuse]

@[simp] theorem broken_ne_ok (a : α) : (broken : Outcome α) ≠ .ok a := by simp [broken]

@[simp] theorem refuse_bind (cause : Fault) (f : α → Outcome β) :
    ((refuse cause : Outcome α) >>= f) = refuse cause := rfl

@[simp] theorem refuse_ne_broken (cause : Fault) : (refuse cause : Outcome α) ≠ broken := by
  simp [refuse, broken]

/-- What follows a computation only has to agree where the computation ends with a value. -/
theorem bind_congr_ok {x : Outcome α} {f g : α → Outcome β} (same : ∀ a, x = .ok a → f a = g a) :
    x >>= f = x >>= g := by
  cases x with
  | ok a => exact same a rfl
  | error stop => rfl

theorem map_bind {γ : Type} (x : Outcome α) (f : α → Outcome β) (g : β → γ) :
    (x >>= f).map g = x >>= fun a => (f a).map g := by
  cases x <;> rfl

theorem bind_of_map {γ : Type} (x : Outcome α) (g : α → β) (f : β → Outcome γ) :
    x.map g >>= f = x >>= fun a => f (g a) := by
  cases x <;> rfl

theorem bind_pure_eq_map (x : Outcome α) (g : α → β) : (x >>= fun a => pure (g a)) = x.map g := by
  cases x <;> rfl

theorem map_eq_ok {x : Outcome α} {g : α → β} {b : β} :
    x.map g = .ok b ↔ ∃ a, x = .ok a ∧ g a = b := by
  cases x with
  | ok a => simp [Except.map]
  | error stop => simp [Except.map]

/-- Two computations that go on in the same way may be chosen between first. -/
theorem ite_bind {choice : Prop} [Decidable choice] (x y : Outcome α) (f : α → Outcome β) :
    (if choice then x >>= f else y >>= f) = (if choice then x else y) >>= f := by
  split <;> rfl

theorem get_bind {σ : Type} (next : σ → ExceptT Stop (StateM σ) α) (s : σ) :
    (get >>= next) s = next s s := rfl

theorem modify_bind {σ : Type} (change : σ → σ) (next : PUnit → ExceptT Stop (StateM σ) α) (s : σ) :
    (modify change >>= next) s = next ⟨⟩ (change s) := rfl

/-- A computation with a state goes on with the value and the state that its first part leaves. -/
theorem bind_of_run {σ : Type} {first : ExceptT Stop (StateM σ) α}
    {next : α → ExceptT Stop (StateM σ) β} {s left : σ} {a : α} (ran : first s = (.ok a, left)) :
    (first >>= next) s = next a left := by
  change (ExceptT.bindCont next (first s).1) (first s).2 = _
  rw [ran]
  rfl

/-- A computation with a state ends where its first part ends without a value. -/
theorem bind_of_stop {σ : Type} {first : ExceptT Stop (StateM σ) α}
    {next : α → ExceptT Stop (StateM σ) β} {s left : σ} {stop : Stop}
    (ran : first s = (.error stop, left)) : (first >>= next) s = (.error stop, left) := by
  change (ExceptT.bindCont next (first s).1) (first s).2 = _
  rw [ran]
  rfl

theorem map_of_run {σ : Type} {draw : ExceptT Stop (StateM σ) α} (f : α → β) {s left : σ} {a : α}
    (ran : draw s = (.ok a, left)) : (f <$> draw) s = (.ok (f a), left) := by
  rw [← bind_pure_comp, bind_of_run ran]
  rfl

theorem map_of_stop {σ : Type} {draw : ExceptT Stop (StateM σ) α} (f : α → β) {s left : σ}
    {stop : Stop} (ran : draw s = (.error stop, left)) : (f <$> draw) s = (.error stop, left) := by
  rw [← bind_pure_comp, bind_of_stop ran]

/-! ## Rules -/

theorem ensure_eq_ok {rule : Prop} [Decidable rule] {u : Unit} : ensure rule = .ok u ↔ rule := by
  unfold ensure; split <;> simp_all

theorem ensure_of {rule : Prop} [Decidable rule] (holds : rule) : ensure rule = .ok () :=
  ensure_eq_ok.2 holds

theorem size_eq_ok {value result : Nat} :
    size value = .ok result ↔ value < 2 ^ 64 ∧ result = value := by
  by_cases fits : value < 2 ^ 64
  · rw [size, if_pos fits, Except.ok.injEq, eq_comm]
    exact (and_iff_right fits).symm
  · rw [size, if_neg fits]
    exact iff_of_false (broken_ne_ok result) fun both => fits both.1

theorem size_of_lt {value : Nat} (fits : value < 2 ^ 64) : size value = .ok value :=
  size_eq_ok.2 ⟨fits, rfl⟩

theorem buffer_of_le {length : Nat} (fits : length ≤ maxBuffer) : buffer length = .ok () :=
  ensure_of fits

theorem less_eq_ok {a b result : Nat} : less a b = .ok result ↔ b ≤ a ∧ result = a - b := by
  by_cases le : b ≤ a
  · rw [less, if_pos le, Except.ok.injEq, eq_comm]
    exact (and_iff_right le).symm
  · rw [less, if_neg le]
    exact iff_of_false (broken_ne_ok result) fun both => le both.1

theorem less_of_le {a b : Nat} (le : b ≤ a) : less a b = .ok (a - b) := less_eq_ok.2 ⟨le, rfl⟩

theorem add32_of_lt {a b : UInt32} (fits : a.toNat + b.toNat < 2 ^ 32) :
    add32 a b = .ok (a + b) := if_pos fits

theorem sub32_of_le {a b : UInt32} (le : b ≤ a) : sub32 a b = .ok (a - b) := if_pos le

/-- A shift to the left that loses no bit multiplies. -/
theorem shl32_eq (a : UInt32) {amount : Nat} (narrow : amount < 32)
    (fits : a.toNat * 2 ^ amount < 2 ^ 32) :
    ∃ word, shl32 a amount = .ok word ∧ word.toNat = a.toNat * 2 ^ amount := by
  refine ⟨_, if_pos narrow, ?_⟩
  rw [UInt32.toNat_shiftLeft, UInt32.toNat_ofNat', Nat.mod_eq_of_lt (show amount < 2 ^ 32 by omega),
    Nat.mod_eq_of_lt narrow, Nat.shiftLeft_eq, Nat.mod_eq_of_lt fits]

/-- A shift to the right divides. -/
theorem shr32_eq (a : UInt32) {amount : Nat} (narrow : amount < 32) :
    ∃ word, shr32 a amount = .ok word ∧ word.toNat = a.toNat / 2 ^ amount := by
  refine ⟨_, if_pos narrow, ?_⟩
  rw [UInt32.toNat_shiftRight, UInt32.toNat_ofNat', Nat.mod_eq_of_lt (show amount < 2 ^ 32 by omega),
    Nat.mod_eq_of_lt narrow, Nat.shiftRight_eq_div_pow]

theorem add64_of_lt {a b : UInt64} (fits : a.toNat + b.toNat < 2 ^ 64) :
    add64 a b = .ok (a + b) := if_pos fits

/-- One bit shifted to the left is a power of two. -/
theorem toNat_one_shiftLeft {amount : Nat} (narrow : amount < 64) :
    ((1 : UInt64) <<< UInt64.ofNat amount).toNat = 2 ^ amount := by
  rw [UInt64.toNat_shiftLeft, UInt64.toNat_ofNat', Nat.mod_eq_of_lt (show amount < 2 ^ 64 by omega),
    Nat.mod_eq_of_lt narrow, Nat.shiftLeft_eq, show (1 : UInt64).toNat = 1 from rfl, Nat.one_mul,
    Nat.mod_eq_of_lt (Nat.pow_lt_pow_right (by decide) narrow)]

theorem shl64_one_eq {amount : Nat} (narrow : amount < 64) :
    ∃ word, shl64 1 amount = .ok word ∧ word.toNat = 2 ^ amount :=
  ⟨_, if_pos narrow, toNat_one_shiftLeft narrow⟩

/-- A mask of low bits takes the remainder. -/
theorem toNat_and_mask {width : UInt64} {bits : Nat} (width_eq : width.toNat = 2 ^ bits)
    (word : UInt64) : (word &&& (width - 1)).toNat = word.toNat % 2 ^ bits := by
  have one_le : (1 : UInt64) ≤ width :=
    UInt64.le_iff_toNat_le.2 (by rw [width_eq]; exact Nat.two_pow_pos bits)
  rw [UInt64.toNat_and, UInt64.toNat_sub_of_le _ _ one_le, width_eq,
    show (1 : UInt64).toNat = 1 from rfl, Nat.and_two_pow_sub_one_eq_mod]

theorem shr64_eq (a : UInt64) {amount : Nat} (narrow : amount < 64) :
    ∃ word, shr64 a amount = .ok word ∧ word.toNat = a.toNat / 2 ^ amount := by
  refine ⟨_, if_pos narrow, ?_⟩
  rw [UInt64.toNat_shiftRight, UInt64.toNat_ofNat', Nat.mod_eq_of_lt (show amount < 2 ^ 64 by omega),
    Nat.mod_eq_of_lt narrow, Nat.shiftRight_eq_div_pow]

theorem cut_of_le {position : Nat} {bytes : Bytes} (le : position ≤ bytes.length) :
    cut position bytes = .ok (bytes.take position, bytes.drop position) := if_pos le

theorem length_fst_of_cut {position : Nat} {bytes : Bytes} {parts : Bytes × Bytes}
    (made : cut position bytes = .ok parts) : parts.1.length = position := by
  by_cases le : position ≤ bytes.length
  · rw [cut_of_le le, Except.ok.injEq] at made
    rw [← made, List.length_take, Nat.min_eq_left le]
  · rw [cut, if_neg le] at made
    simp at made

theorem exactly_of_eq {length : Nat} {bytes : Bytes} (eq : bytes.length = length) :
    exactly length bytes = .ok bytes := if_pos eq

/-! ## Lists of computations -/

/-- Computations that all end with a value, one after the other. -/
theorem mapM_eq_ok {γ : Type} {f : γ → Outcome α} {g : γ → α} {list : List γ}
    (each : ∀ c ∈ list, f c = .ok (g c)) : list.mapM f = .ok (list.map g) := by
  induction list with
  | nil => rfl
  | cons c rest ih =>
      rw [List.mapM_cons, each c (by simp), ih fun d member => each d (by simp [member])]
      simp

/-- Computations one after the other give as many results. -/
theorem length_of_mapM_eq_ok {γ : Type} {f : γ → Outcome α} {list : List γ} {results : List α}
    (ended : list.mapM f = .ok results) : results.length = list.length := by
  induction list generalizing results with
  | nil =>
      obtain rfl : [] = results := Except.ok.inj ended
      rfl
  | cons c rest ih =>
      rw [List.mapM_cons] at ended
      obtain ⟨first, -, ended⟩ := bind_eq_ok.1 ended
      obtain ⟨others, later, ended⟩ := bind_eq_ok.1 ended
      obtain rfl : first :: others = results := Except.ok.inj ended
      rw [List.length_cons, List.length_cons, ih later]

/-- A result of computations one after the other is the result of one of them. -/
theorem of_mem_of_mapM_eq_ok {γ : Type} {f : γ → Outcome α} {list : List γ} {results : List α}
    (ended : list.mapM f = .ok results) {a : α} (member : a ∈ results) :
    ∃ c ∈ list, f c = .ok a := by
  induction list generalizing results with
  | nil =>
      obtain rfl := Except.ok.inj ended
      exact absurd member List.not_mem_nil
  | cons c rest ih =>
      rw [List.mapM_cons] at ended
      obtain ⟨first, here, ended⟩ := bind_eq_ok.1 ended
      obtain ⟨others, later, ended⟩ := bind_eq_ok.1 ended
      obtain rfl := Except.ok.inj ended
      rcases List.mem_cons.1 member with rfl | inside
      · exact ⟨c, by simp, here⟩
      · obtain ⟨d, found, result⟩ := ih later inside
        exact ⟨d, by simp [found], result⟩

end HashSignature.Outcome
