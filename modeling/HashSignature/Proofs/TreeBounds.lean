/-
# HashSignature.Proofs.TreeBounds — which trees are refused, and that nothing is written then

A tree of up to 31 levels stands anywhere in a numbering of 32 bits, right up to its end. The checks
in front decide on exact numbers: a power of two is looked at only for heights that have one, and the
sums have 64 bits. What passes them breaks no rule of the machine later on, so a tree is refused for
its place, or else for the length of its path, or it is built. The builder and the verifier that
write into buffers check before they write.

* `Judged` — the three ways in which an operation on trees ends. All four operations end so.
* `Judged.exact` — each refusal happens if and only if there is cause for it, and tells the numbers.
* `tree_bounds_are_exact` — for the operations that return values and for those in place, which
  leave every buffer as it was when they refuse.
-/
import HashSignature.Proofs.InPlace

namespace HashSignature.MerkleTree

set_option autoImplicit false

open Outcome Building

variable {H : TweakableHash} {n height : Nat} {offset leafIndex : UInt32} {α : Type}

/-- A tree that is not outside has room for all its leaves, one of which is the leaf. -/
theorem fits_of_not_outside (inside : ¬ Outside height offset leafIndex) :
    height ≤ 31 ∧ leafIndex.toNat < 2 ^ height ∧ offset.toNat + 2 ^ height ≤ 2 ^ 32 := by
  rw [Outside, not_or, not_or] at inside
  omega

instance (height : Nat) (offset leafIndex : UInt32) : Decidable (Outside height offset leafIndex) :=
  inferInstanceAs (Decidable (_ ∨ _ ∨ _))

/-! ## How an operation on trees ends -/

/-- The length of the path, if there is one, is right. -/
def RightLength (n height : Nat) (length? : Option Nat) : Prop :=
  ∀ length ∈ length?, length = height * n

instance (n height : Nat) (length? : Option Nat) : Decidable (RightLength n height length?) :=
  inferInstanceAs (Decidable (∀ length ∈ length?, _))

/-- An operation on trees ends in one of three ways. -/
inductive Judged (n height : Nat) (offset leafIndex : UInt32) (length? : Option Nat)
    (outcome : Outcome α) : Prop
  | outside (out : Outside height offset leafIndex)
    (refused : outcome = refuse
      (.invalidTree (UInt32.ofNat height) (offset.toUInt64 + leafIndex.toUInt64)))
  | wrongLength (inside : ¬ Outside height offset leafIndex) (length : Nat)
    (asked : length? = some length) (wrong : length ≠ height * n)
    (refused : outcome = refuse (.invalidLength "authentication path" (height * n) length))
  | done (inside : ¬ Outside height offset leafIndex) (right : RightLength n height length?)
    (a : α) (ended : outcome = .ok a)

/-- An operation on trees refuses what it has to refuse, and nothing else. -/
structure Exact (n height : Nat) (offset leafIndex : UInt32) (length? : Option Nat)
    (outcome : Outcome α) : Prop where
  /-- A tree is refused for its place if and only if it is outside the numbering. -/
  invalidTree : (∃ shown index, outcome = refuse (.invalidTree shown index)) ↔
    Outside height offset leafIndex
  /-- The fault tells the low bits of the height and the exact number of the leaf. -/
  shows : ∀ shown index, outcome = refuse (.invalidTree shown index) →
    shown.toNat = height % 2 ^ 32 ∧ index.toNat = offset.toNat + leafIndex.toNat
  /-- Otherwise a path is refused for its length if and only if that is wrong. -/
  invalidLength : ∀ what expected actual,
    outcome = refuse (.invalidLength what expected actual) ↔
      ¬ Outside height offset leafIndex ∧ what = "authentication path" ∧ expected = height * n ∧
        length? = some actual ∧ actual ≠ height * n
  /-- Otherwise there is a result. -/
  succeeds : (∃ a, outcome = .ok a) ↔
    ¬ Outside height offset leafIndex ∧ RightLength n height length?
  /-- No rule of the machine is broken. -/
  unbroken : outcome ≠ broken

theorem toNat_leafNumber (offset leafIndex : UInt32) :
    (offset.toUInt64 + leafIndex.toUInt64).toNat = offset.toNat + leafIndex.toNat := by
  have offset_eq : offset.toUInt64.toNat = offset.toNat := rfl
  have leaf_eq : leafIndex.toUInt64.toNat = leafIndex.toNat := rfl
  have offset_lt := offset.toNat_lt
  have leaf_lt := leafIndex.toNat_lt
  rw [UInt64.toNat_add, offset_eq, leaf_eq, Nat.mod_eq_of_lt (by omega)]

theorem Judged.exact {length? : Option Nat} {outcome : Outcome α}
    (judged : Judged n height offset leafIndex length? outcome) :
    Exact n height offset leafIndex length? outcome := by
  cases judged with
  | outside out refused =>
      subst refused
      refine ⟨⟨fun _ => out, fun _ => ⟨_, _, rfl⟩⟩, ?_, ?_, ?_, refuse_ne_broken _⟩
      · rintro shown index ⟨⟩
        exact ⟨UInt32.toNat_ofNat', toNat_leafNumber offset leafIndex⟩
      · intro what expected actual
        simp [refuse, out]
      · simp [refuse, out]
  | wrongLength inside length asked wrong refused =>
      subst asked refused
      refine ⟨?_, ?_, ?_, ?_, refuse_ne_broken _⟩
      · simp [refuse, inside]
      · rintro shown index ⟨⟩
      · intro what expected actual
        constructor
        · rintro ⟨⟩
          exact ⟨inside, rfl, rfl, rfl, wrong⟩
        · rintro ⟨-, rfl, rfl, ⟨⟩, -⟩
          rfl
      · simp [refuse, RightLength, wrong]
  | done inside right a ended =>
      subst ended
      refine ⟨?_, ?_, ?_, ⟨fun _ => ⟨inside, right⟩, fun _ => ⟨a, rfl⟩⟩, (broken_ne_ok a).symm⟩
      · simp [refuse, inside]
      · rintro shown index ⟨⟩
      · intro what expected actual
        constructor
        · rintro ⟨⟩
        · rintro ⟨-, -, -, asked, wrong⟩
          exact absurd (right actual asked) wrong

/-- Two operations on a tree of one place, with a path of one length, both succeed or are refused
alike. -/
theorem Judged.agree {β : Type} {length? : Option Nat} {outcome : Outcome α} {other : Outcome β}
    (judged : Judged n height offset leafIndex length? outcome)
    (judged' : Judged n height offset leafIndex length? other) :
    (¬ Outside height offset leafIndex ∧ RightLength n height length?) ∨
      ∃ cause, outcome = refuse cause ∧ other = refuse cause := by
  cases judged with
  | outside out refused =>
      cases judged' with
      | outside _ refused' => exact .inr ⟨_, refused, refused'⟩
      | wrongLength inside => exact absurd out inside
      | done inside => exact absurd out inside
  | wrongLength inside length asked wrong refused =>
      cases judged' with
      | outside out => exact absurd out inside
      | wrongLength _ length' asked' _ refused' =>
          obtain rfl : length = length' := Option.some.inj (asked.symm.trans asked')
          exact .inr ⟨_, refused, refused'⟩
      | done _ right => exact absurd (right length asked) wrong
  | done inside right => exact .inl ⟨inside, right⟩

/-! ## The operations that return values -/

/-- A path has the right length, or there is one with another length. -/
theorem rightLength_or (n height : Nat) (length? : Option Nat) :
    RightLength n height length? ∨ ∃ length, length? = some length ∧ length ≠ height * n := by
  cases length? with
  | none => exact .inl fun _ asked => absurd asked (Option.not_mem_none _)
  | some length =>
      by_cases right : length = height * n
      · exact .inl fun _ asked => (Option.some.inj asked).symm.trans right
      · exact .inr ⟨length, rfl, right⟩

/-- A path of another length is refused, and its right length is a small number. -/
theorem checkPath_refuses (small : n ≤ 32) (inside : ¬ Outside height offset leafIndex)
    {length : Nat} (wrong : length ≠ height * n) : checkPath n height length =
      refuse (.invalidLength "authentication path" (height * n) length) := by
  obtain ⟨low, -⟩ := fits_of_not_outside inside
  have width : height * n ≤ 31 * 32 := Nat.mul_le_mul low small
  exact checkPath_of_ne (by omega) wrong

/-- What an operation does outside, with a path of another length, and otherwise. -/
theorem judged_of {length? : Option Nat} {outcome : Outcome α}
    (outside : Outside height offset leafIndex → outcome = refuse
      (.invalidTree (UInt32.ofNat height) (offset.toUInt64 + leafIndex.toUInt64)))
    (wrongLength : ¬ Outside height offset leafIndex → ∀ length, length? = some length →
      length ≠ height * n →
        outcome = refuse (.invalidLength "authentication path" (height * n) length))
    (done : ¬ Outside height offset leafIndex → RightLength n height length? →
      ∃ a, outcome = .ok a) :
    Judged n height offset leafIndex length? outcome := by
  by_cases out : Outside height offset leafIndex
  · exact .outside out (outside out)
  · -- the place is looked at before the path, so only here does the length matter
    rcases rightLength_or n height length? with right | ⟨length, asked, wrong⟩
    · obtain ⟨a, ended⟩ := done out right
      exact .done out right a ended
    · exact .wrongLength out length asked wrong (wrongLength out length asked wrong)

theorem judged_build (pos : 0 < H.n) (small : H.n ≤ 32) {leaf : UInt32 → Outcome Bytes}
    {value : Nat → Bytes} (leaves : ∀ i < 2 ^ height, leaf (UInt32.ofNat i) = .ok (value i))
    (adrs : Address) {room : Option Nat} (fits : room.getD 0 ≤ maxBuffer) :
    Judged H.n height offset leafIndex room (build H adrs height offset leafIndex room leaf) := by
  refine judged_of (fun out => build_of_outside room fits out leaf adrs) ?wrongLength ?done
  case wrongLength =>
    rintro out length rfl wrong
    obtain ⟨low, inside, ends⟩ := fits_of_not_outside out
    rw [build, buffer_of_le fits, ok_bind, checkBounds_of low inside ends, ok_bind]
    simp only []
    rw [checkPath_refuses small out wrong, refuse_bind]
  case done =>
    intro out right
    obtain ⟨low, inside, ends⟩ := fits_of_not_outside out
    obtain ⟨left, made, -⟩ :=
      build_eq (H := H) offset leafIndex room low inside ends pos small right leaves adrs
    exact ⟨_, made⟩

theorem judged_rootOf (pos : 0 < H.n) (small : H.n ≤ 32) (adrs : Address) {first : Bytes}
    (whole : first.length = H.n) (path : Bytes) :
    Judged H.n height offset leafIndex (some path.length)
      (rootOf H adrs height offset leafIndex first path) := by
  refine judged_of (fun out => rootOf_of_outside out first path adrs) ?wrongLength ?done
  case wrongLength =>
    rintro out length ⟨⟩ wrong
    obtain ⟨low, inside, ends⟩ := fits_of_not_outside out
    rw [rootOf, checkBounds_of low inside ends, ok_bind, checkPath_refuses small out wrong,
      refuse_bind]
  case done =>
    intro out right
    obtain ⟨low, inside, ends⟩ := fits_of_not_outside out
    obtain ⟨left, reached, -⟩ := rootOf_eq (H := H) offset leafIndex first path low inside ends pos
      small whole (right _ rfl) adrs
    exact ⟨_, reached⟩

/-! ## The operations in place -/

/-- A run in a workspace ends as it should, and leaves the workspace as it was if it stops. -/
structure JudgedIn (n height : Nat) (offset leafIndex : UInt32) (length? : Option Nat)
    (run : Building Unit) (work : Workspace) : Prop where
  judged : Judged n height offset leafIndex length? (run work).1
  atomic : ∀ stop, (run work).1 = .error stop → (run work).2 = work

/-- What a run does outside, with a path of another length, and otherwise; where it refuses it has
written nothing. -/
theorem judgedIn_of {length? : Option Nat} {run : Building Unit} {work : Workspace}
    (outside : Outside height offset leafIndex → run work = (refuse
      (.invalidTree (UInt32.ofNat height) (offset.toUInt64 + leafIndex.toUInt64)), work))
    (wrongLength : ¬ Outside height offset leafIndex → ∀ length, length? = some length →
      length ≠ height * n →
        run work = (refuse (.invalidLength "authentication path" (height * n) length), work))
    (done : ¬ Outside height offset leafIndex → RightLength n height length? →
      ∃ after, run work = (.ok ⟨⟩, after)) :
    JudgedIn n height offset leafIndex length? run work where
  judged := by
    refine judged_of (fun out => by rw [outside out])
      (fun out length asked wrong => by rw [wrongLength out length asked wrong]) ?_
    intro out right
    obtain ⟨after, ran⟩ := done out right
    exact ⟨⟨⟩, by rw [ran]⟩
  atomic := by
    intro stop stopped
    by_cases out : Outside height offset leafIndex
    · rw [outside out]
    · rcases rightLength_or n height length? with right | ⟨length, asked, wrong⟩
      · obtain ⟨after, ran⟩ := done out right
        rw [ran] at stopped
        cases stopped
      · rw [wrongLength out length asked wrong]

/-- A check that refuses stops the run where nothing is written yet. -/
theorem refused_bind {β : Type} {outcome : Outcome α} {cause : Fault}
    (refused : outcome = refuse cause) (next : α → Building β) (work : Workspace) :
    (ofOutcome outcome >>= next) work = (refuse cause, work) := by
  subst refused
  rfl

theorem checkRoom_refuses (small : n ≤ 32) (inside : ¬ Outside height offset leafIndex)
    {path? : Option Bytes} {length : Nat} (asked : path?.map List.length = some length)
    (wrong : length ≠ height * n) : checkRoom n height path? =
      refuse (.invalidLength "authentication path" (height * n) length) := by
  obtain ⟨path, rfl, rfl⟩ := Option.map_eq_some_iff.1 asked
  exact checkPath_refuses small inside wrong

theorem judged_buildIn (pos : 0 < H.n) (small : H.n ≤ 32) {leaf : UInt32 → Outcome Bytes}
    {value : Nat → Bytes} (leaves : ∀ i < 2 ^ height, leaf (UInt32.ofNat i) = .ok (value i))
    (full : ∀ i block, leaf i = .ok block → block.length = H.n) (work : Workspace)
    (root_room : work.root.length = H.n) :
    JudgedIn H.n height offset leafIndex (work.path?.map List.length)
      (buildIn H height offset leafIndex leaf) work := by
  refine judgedIn_of (fun out => refused_bind (checkBounds_of_outside out) _ work) ?wrongLength ?done
  case wrongLength =>
    intro out length asked wrong
    obtain ⟨low, inside, ends⟩ := fits_of_not_outside out
    rw [buildIn, bind_of_run (ofOutcome_of work (checkBounds_of low inside ends)), get_bind,
      refused_bind (checkRoom_refuses small out asked wrong)]
  case done =>
    intro out right
    obtain ⟨low, inside, ends⟩ := fits_of_not_outside out
    obtain ⟨left, made, -⟩ := build_eq (H := H) offset leafIndex _ low inside ends pos small right
      leaves work.adrs
    obtain ⟨arena, ran⟩ := buildIn_eq full small work root_room made
    exact ⟨_, ran⟩

theorem judged_rootIn (pos : 0 < H.n) (small : H.n ≤ 32) {first : Bytes}
    (whole : first.length = H.n) (path : Bytes) (work : Workspace)
    (root_room : work.root.length = H.n) :
    JudgedIn H.n height offset leafIndex (some path.length)
      (rootIn H height offset leafIndex first path) work := by
  refine judgedIn_of (fun out => refused_bind (checkBounds_of_outside out) _ work) ?wrongLength ?done
  case wrongLength =>
    rintro out length ⟨⟩ wrong
    obtain ⟨low, inside, ends⟩ := fits_of_not_outside out
    rw [rootIn, bind_of_run (ofOutcome_of work (checkBounds_of low inside ends)),
      refused_bind (checkPath_refuses small out wrong)]
  case done =>
    intro out right
    obtain ⟨low, inside, ends⟩ := fits_of_not_outside out
    obtain ⟨left, reached, -⟩ := rootOf_eq (H := H) offset leafIndex first path low inside ends pos
      small whole (right _ rfl) work.adrs
    exact ⟨_, rootIn_eq work root_room reached⟩

/-- The checks of a tree are exact, for digests of 16, 24 or 32 bytes, any height, any offset and leaf
of 32 bits and a path of any length. A tree is refused for its place if and only if it is too high,
its leaf is not one of its leaves, or it ends behind the last index; otherwise it is refused for its
path if and only if that is there and does not have a node for each level; otherwise there is a
result. No rule of the machine is broken on any input that fits a buffer. In place, a tree that is
refused leaves the address, the buffers for root and path and the arena as they were. -/
theorem tree_bounds_are_exact (H : TweakableHash) (sized : H.n = 16 ∨ H.n = 24 ∨ H.n = 32)
    (leaf : UInt32 → Bytes) (full : ∀ i, (leaf i).length = H.n) (height : Nat)
    (offset leafIndex : UInt32) :
    (∀ (adrs : Address) (room : Option Nat), room.getD 0 ≤ maxBuffer →
      Exact H.n height offset leafIndex room
        (build H adrs height offset leafIndex room fun i => .ok (leaf i))) ∧
    (∀ (adrs : Address) (first path : Bytes), first.length = H.n →
      Exact H.n height offset leafIndex (some path.length)
        (rootOf H adrs height offset leafIndex first path)) ∧
    (∀ work : Workspace, work.root.length = H.n →
      let run := buildIn H height offset leafIndex (fun i => .ok (leaf i)) work
      Exact H.n height offset leafIndex (work.path?.map List.length) run.1 ∧
        ∀ stop, run.1 = .error stop → run.2 = work) ∧
    ∀ (work : Workspace) (first path : Bytes), work.root.length = H.n → first.length = H.n →
      let run := rootIn H height offset leafIndex first path work
      Exact H.n height offset leafIndex (some path.length) run.1 ∧
        ∀ stop, run.1 = .error stop → run.2 = work := by
  have pos : 0 < H.n := by omega
  have small : H.n ≤ 32 := by omega
  refine ⟨?build, ?rootOf, ?buildIn, ?rootIn⟩
  case build =>
    intro adrs room fits
    exact (judged_build pos small (fun _ _ => rfl) adrs fits).exact
  case rootOf =>
    intro adrs first path whole
    exact (judged_rootOf pos small adrs whole path).exact
  case buildIn =>
    intro work root_room
    have ends : JudgedIn H.n height offset leafIndex (work.path?.map List.length)
        (buildIn H height offset leafIndex fun i => .ok (leaf i)) work :=
      judged_buildIn pos small (fun _ _ => rfl) (fun i block made => Except.ok.inj made ▸ full i)
        work root_room
    exact ⟨ends.judged.exact, ends.atomic⟩
  case rootIn =>
    intro work first path root_room whole
    have ends : JudgedIn H.n height offset leafIndex (some path.length)
        (rootIn H height offset leafIndex first path) work :=
      judged_rootIn pos small whole path work root_room
    exact ⟨ends.judged.exact, ends.atomic⟩

/-- A height that loses its upper bits in the fault, the last leaf of the largest tree at the end of
the numbering with a path that is too short, a tree of one leaf there, and a tree that ends one leaf
behind the numbering. -/
theorem tree_bounds_are_exact_corners :
    (∃ index, rootOf (.shake 16 (Bytes.zeros 16)) .zero (2 ^ 32 + 5) 7 8 (Bytes.zeros 16) [] =
      refuse (.invalidTree 5 index) ∧ index.toNat = 15) ∧
    rootOf (.shake 16 (Bytes.zeros 16)) .zero 31 0x80000000 0x7fffffff (Bytes.zeros 16) [] =
      refuse (.invalidLength "authentication path" 496 0) ∧
    (∃ a, rootOf (.shake 16 (Bytes.zeros 16)) .zero 0 0xffffffff 0 (Bytes.zeros 16) [] = .ok a) ∧
    (buildIn (.shake 16 (Bytes.zeros 16)) 3 0xfffffff9 0 (fun _ => .ok (Bytes.zeros 16))
      ⟨.zero, Bytes.zeros 16, none, [1]⟩).2 = ⟨.zero, Bytes.zeros 16, none, [1]⟩ := by
  have exact (height : Nat) (offset leafIndex : UInt32) :=
    tree_bounds_are_exact (.shake 16 (Bytes.zeros 16)) (.inl rfl) (fun _ => Bytes.zeros 16)
      (fun _ => Bytes.length_zeros 16) height offset leafIndex
  refine ⟨?_, ?_, ?_, ?_⟩
  · have high := (exact (2 ^ 32 + 5) 7 8).2.1 .zero (Bytes.zeros 16) [] (Bytes.length_zeros 16)
    obtain ⟨shown, index, refused⟩ := high.invalidTree.2 (.inl (by decide))
    obtain ⟨shown_eq, index_eq⟩ := high.shows shown index refused
    obtain rfl : shown = 5 := UInt32.toNat_inj.1 shown_eq
    exact ⟨index, refused, index_eq⟩
  · have last := (exact 31 0x80000000 0x7fffffff).2.1 .zero (Bytes.zeros 16) []
      (Bytes.length_zeros 16)
    exact (last.invalidLength _ _ _).2 ⟨by decide, rfl, rfl, rfl, by decide⟩
  · have single := (exact 0 0xffffffff 0).2.1 .zero (Bytes.zeros 16) [] (Bytes.length_zeros 16)
    exact single.succeeds.2 ⟨by decide, by decide⟩
  · have behind := (exact 3 0xfffffff9 0).2.2.1 ⟨.zero, Bytes.zeros 16, none, [1]⟩
      (Bytes.length_zeros 16)
    obtain ⟨shown, index, refused⟩ := behind.1.invalidTree.2 (by decide)
    exact behind.2 _ refused

end HashSignature.MerkleTree
