/-
# HashSignature.Proofs.ParameterNames — the texts that name a parameter set

A text names a set if, between white space, it is the set's canonical name, whole or without the
scheme at its front, in letters of any case (`Spells`). Reading accepts exactly these texts. It
trims, lowers and strips a text, and strips the canonical names in the same way; what is left of a
text tells one set at most, because what is left of the names differs and none of it begins with the
scheme again. A second scheme is therefore never stripped.

* `Text.trim_append`, `Text.exists_trim` — trimming takes the white space from both ends, all of it
  and nothing else.
* `ofName?_eq_some_iff` — the set that is found is the one whose name the trimmed text is.
* `parse_accepts_exactly_names` — what is accepted, what is refused, and with which fault.
-/
import HashSignature.ParameterSet
import HashSignature.Proofs.Outcome
import Mathlib.Data.List.DropRight

namespace HashSignature

set_option autoImplicit false

/-! ## Trimmed texts -/

namespace Text

/-- A text without white space at its ends. -/
structure Tight (word : List Char) : Prop where
  front : ∀ c, word.head? = some c → ¬ isBlank c
  back : ∀ c, word.getLast? = some c → ¬ isBlank c

/-- A text is what is left of it when it is trimmed, between white space. -/
theorem exists_trim (chars : List Char) :
    ∃ front back, chars = front ++ trim chars ++ back ∧ (∀ c ∈ front, isBlank c) ∧
      ∀ c ∈ back, isBlank c := by
  refine ⟨chars.takeWhile isBlank, (chars.dropWhile isBlank).rtakeWhile isBlank, ?_, ?_, ?_⟩
  · have inner : trim chars ++ (chars.dropWhile isBlank).rtakeWhile isBlank =
        chars.dropWhile isBlank := List.rdropWhile_append_rtakeWhile ..
    rw [List.append_assoc, inner, List.takeWhile_append_dropWhile]
  · intro c member
    exact List.mem_takeWhile_imp member
  · intro c member
    exact List.mem_rtakeWhile_imp member

theorem rdropWhile_of_tight {word : List Char} (tight : Tight word) :
    word.rdropWhile isBlank = word := by
  apply List.rdropWhile_eq_self_iff.2
  intro some_char
  exact tight.back _ (List.getLast?_eq_some_getLast some_char)

theorem dropWhile_of_tight {word back : List Char} (tight : Tight word)
    (back_blank : ∀ c ∈ back, isBlank c) :
    ((word ++ back).dropWhile isBlank).rdropWhile isBlank = word := by
  cases word with
  | nil =>
      have all_blank : back.dropWhile isBlank = [] := List.dropWhile_eq_nil_iff.2 back_blank
      rw [List.nil_append, all_blank, List.rdropWhile_nil]
  | cons c rest =>
      have kept : (c :: rest ++ back).dropWhile isBlank = c :: rest ++ back :=
        List.dropWhile_cons_of_neg (tight.front c rfl)
      have reversed : ∀ d ∈ back.reverse, isBlank d :=
        fun d member => back_blank d (List.mem_reverse.1 member)
      rw [kept, List.rdropWhile, List.reverse_append, List.dropWhile_append_of_pos reversed]
      exact rdropWhile_of_tight tight

/-- White space around a text is trimmed. -/
theorem trim_append {front word back : List Char} (tight : Tight word)
    (front_blank : ∀ c ∈ front, isBlank c) (back_blank : ∀ c ∈ back, isBlank c) :
    trim (front ++ word ++ back) = word := by
  have dropped : (front ++ (word ++ back)).dropWhile isBlank = (word ++ back).dropWhile isBlank :=
    List.dropWhile_append_of_pos front_blank
  rw [trim, List.append_assoc, dropped]
  exact dropWhile_of_tight tight back_blank

/-! ## The characters of names -/

/-- The characters that names are made of: the hyphen, ASCII digits and ASCII letters. -/
def isNameChar (c : Char) : Bool :=
  let n := c.toNat
  n == 45 || (48 ≤ n && n ≤ 57) || (65 ≤ n && n ≤ 90) || (97 ≤ n && n ≤ 122)

theorem isNameChar_iff {c : Char} : isNameChar c ↔ c.toNat = 45 ∨ (48 ≤ c.toNat ∧ c.toNat ≤ 57) ∨
    (65 ≤ c.toNat ∧ c.toNat ≤ 90) ∨ (97 ≤ c.toNat ∧ c.toNat ≤ 122) := by
  simp [isNameChar, or_assoc]

/-- Lowering makes no other character one that names are made of. -/
theorem isNameChar_of_toLower {c : Char} (lowered : isNameChar c.toLower) : isNameChar c := by
  by_cases upper : 65 ≤ c.toNat ∧ c.toNat ≤ 90
  · exact isNameChar_iff.2 (.inr (.inr (.inl upper)))
  · have same : c.toLower = c := dif_neg upper
    rwa [same] at lowered

/-- Names are made of ASCII characters, and none of these is white space. -/
theorem ascii_of_isNameChar {c : Char} (plain : isNameChar c) : c.toNat < 128 ∧ ¬ isBlank c := by
  have codes := isNameChar_iff.1 plain
  refine ⟨by omega, ?_⟩
  simp only [isBlank, Bool.or_eq_true, Bool.and_eq_true, decide_eq_true_eq, beq_iff_eq]
  omega

theorem tight_of_isNameChar {word : List Char} (plain : ∀ c ∈ word, isNameChar c) : Tight word where
  front c first := (ascii_of_isNameChar (plain c (List.mem_of_head? first))).2
  back c last := (ascii_of_isNameChar (plain c (List.mem_of_getLast? last))).2

end Text

/-! ## Names -/

namespace ParameterSet

open Text

/-- A word that is the canonical name of a set, whole or without the scheme at its front, in letters
of any case. -/
def IsNameOf (word : List Char) (set : ParameterSet) : Prop :=
  lowerAscii word = lowerAscii set.name.toList ∨
    scheme ++ lowerAscii word = lowerAscii set.name.toList

/-- A text that names a set: a name of it between white space. -/
def Spells (text : String) (set : ParameterSet) : Prop :=
  ∃ front word back, text.toList = front ++ word ++ back ∧ (∀ c ∈ front, isBlank c) ∧
    (∀ c ∈ back, isBlank c) ∧ IsNameOf word set

/-- What is left of the canonical name, in lower case, without the scheme. -/
def shortName (set : ParameterSet) : List Char := (lowerAscii set.name.toList).drop scheme.length

theorem scheme_append_shortName (set : ParameterSet) :
    scheme ++ set.shortName = lowerAscii set.name.toList := by
  cases set <;> decide

/-- What is left of a name does not begin with the scheme once more. -/
theorem shortName_ne_scheme_append (set : ParameterSet) (rest : List Char) :
    set.shortName ≠ scheme ++ rest := by
  intro same
  have second : set.shortName.take 2 = ['s', 'l'] := by rw [same]; rfl
  revert second
  cases set <;> decide

theorem mem_all (set : ParameterSet) : set ∈ all := by
  cases set <;> decide

theorem shortName_inj {set set' : ParameterSet} (same : set.shortName = set'.shortName) :
    set = set' := by
  have distinct : ∀ a ∈ all, ∀ b ∈ all, a.shortName = b.shortName → a = b := by decide +kernel
  exact distinct set (mem_all set) set' (mem_all set') same

theorem isNameChar_of_mem_name (set : ParameterSet) :
    ∀ c ∈ lowerAscii set.name.toList, isNameChar c := by
  have table : (lowerAscii set.name.toList).all isNameChar = true := by cases set <;> rfl
  exact List.all_eq_true.1 table

/-- Every character of a name is one that names are made of. -/
theorem IsNameOf.plain {word : List Char} {set : ParameterSet} (named : IsNameOf word set) :
    ∀ c ∈ word, isNameChar c := by
  intro c member
  have lowered : c.toLower ∈ lowerAscii word := List.mem_map_of_mem member
  apply isNameChar_of_toLower
  apply isNameChar_of_mem_name set
  rcases named with whole | short
  · rw [← whole]
    exact lowered
  · rw [← short]
    exact List.mem_append_right scheme lowered

/-! ## What is compared -/

/-- What is compared of a text tells whether the trimmed text is a name: a scheme is stripped from
it, and from the canonical names, once. -/
theorem bareName_eq_shortName_iff {chars : List Char} {set : ParameterSet} :
    bareName chars = set.shortName ↔ IsNameOf (trim chars) set := by
  rw [IsNameOf, ← scheme_append_shortName, List.append_cancel_left_eq, bareName]
  cases stripped : scheme.isPrefixOf? (lowerAscii (trim chars)) with
  | none =>
      have unprefixed : lowerAscii (trim chars) ≠ scheme ++ set.shortName := by
        intro whole
        rw [List.isPrefixOf?_eq_some_iff_append_eq.2 whole.symm] at stripped
        cases stripped
      exact ⟨.inr, fun named => named.resolve_left unprefixed⟩
  | some rest =>
      rw [← List.isPrefixOf?_eq_some_iff_append_eq.1 stripped, List.append_cancel_left_eq]
      have prefixed : scheme ++ rest ≠ set.shortName := (shortName_ne_scheme_append set rest).symm
      exact ⟨.inl, fun named => named.resolve_right prefixed⟩

/-- The comparison with a set of the table. -/
theorem matches_iff {chars : List Char} {set : ParameterSet} :
    (scheme.isPrefixOf? (lowerAscii set.name.toList) == some (bareName chars)) = true ↔
      IsNameOf (trim chars) set := by
  rw [List.isPrefixOf?_eq_some_iff_append_eq.2 (scheme_append_shortName set), beq_iff_eq,
    Option.some.injEq, eq_comm, bareName_eq_shortName_iff]

/-- A word names one set at most. -/
theorem IsNameOf.unique {chars : List Char} {set set' : ParameterSet}
    (named : IsNameOf (trim chars) set) (named' : IsNameOf (trim chars) set') : set = set' :=
  shortName_inj
    ((bareName_eq_shortName_iff.2 named).symm.trans (bareName_eq_shortName_iff.2 named'))

/-! ## Reading -/

theorem spells_iff {text : String} {set : ParameterSet} :
    Spells text set ↔ IsNameOf (trim text.toList) set := by
  constructor
  · rintro ⟨front, word, back, text_eq, front_blank, back_blank, named⟩
    rw [text_eq, trim_append (tight_of_isNameChar named.plain) front_blank back_blank]
    exact named
  · intro named
    obtain ⟨front, back, text_eq, front_blank, back_blank⟩ := exists_trim text.toList
    exact ⟨front, _, back, text_eq, front_blank, back_blank, named⟩

theorem ofName?_eq_some_iff {text : String} {set : ParameterSet} :
    ofName? text = some set ↔ IsNameOf (trim text.toList) set := by
  have named_of_found {other : ParameterSet} (found : ofName? text = some other) :
      IsNameOf (trim text.toList) other := by
    have matched := List.find?_some found
    exact matches_iff.1 matched
  constructor
  · exact named_of_found
  · intro named
    cases found : ofName? text with
    | none => exact absurd (matches_iff.2 named) (List.find?_eq_none.1 found set (mem_all set))
    | some other => rw [(named_of_found found).unique named]

theorem parse_eq_ok_iff {text : String} {set : ParameterSet} :
    parse text = .ok set ↔ Spells text set := by
  rw [spells_iff, ← ofName?_eq_some_iff, parse]
  cases ofName? text with
  | none => simp
  | some other => simp

theorem parse_of_not_spells {text : String} (unnamed : ∀ set, ¬ Spells text set) :
    parse text = Outcome.refuse (.invalidParameters (.unknownSet text)) := by
  have none_found : ofName? text = none := by
    apply Option.eq_none_iff_forall_ne_some.2
    intro set found
    exact unnamed set (spells_iff.2 (ofName?_eq_some_iff.1 found))
  rw [parse, none_found]

/-! ## Words that are not names -/

/-- Words that come close to a name: a scheme in front of another, nothing behind the scheme, white
space that does not stand at an end, and a character outside ASCII, however it may look. -/
inductive Misspelt (word : List Char) : Prop where
  | doubled {rest : List Char} (front : lowerAscii word = scheme ++ (scheme ++ rest))
  | bare (alone : lowerAscii word = scheme)
  | inner {c : Char} (member : c ∈ word) (blank : isBlank c)
  | wide {c : Char} (member : c ∈ word) (outside : 128 ≤ c.toNat)

theorem not_isNameOf_of_scheme_append {word rest : List Char} (set : ParameterSet)
    (front : lowerAscii word = scheme ++ rest) (left : rest ≠ set.shortName) :
    ¬ IsNameOf word set := by
  rw [IsNameOf, front, ← scheme_append_shortName, List.append_cancel_left_eq,
    List.append_cancel_left_eq]
  exact not_or.2 ⟨left, (shortName_ne_scheme_append set rest).symm⟩

theorem Misspelt.not_isNameOf {word : List Char} (misspelt : Misspelt word) (set : ParameterSet) :
    ¬ IsNameOf word set := by
  cases misspelt with
  | doubled front =>
      exact not_isNameOf_of_scheme_append set front (shortName_ne_scheme_append set _).symm
  | bare alone =>
      apply not_isNameOf_of_scheme_append set (alone.trans (List.append_nil scheme).symm)
      cases set <;> decide
  | inner member blank =>
      intro named
      exact (ascii_of_isNameChar (named.plain _ member)).2 blank
  | wide member outside =>
      intro named
      exact Nat.not_lt.2 outside (ascii_of_isNameChar (named.plain _ member)).1

/-- Exactly the names of parameter sets are read. A text is read as a set if and only if it names
it: if, between white space, it is the canonical name, whole or without the scheme at its front, in
letters of any case. No text names two sets, so every canonical name is read as its set, however its
letters are cased and whatever white space stands around it. Every other text is refused with the
text as it came, and so are those that come close to a name. -/
theorem parse_accepts_exactly_names (text : String) :
    (∀ set, parse text = .ok set ↔ Spells text set) ∧
    (∀ set, Spells text set ↔ IsNameOf (trim text.toList) set) ∧
    (∀ set set', Spells text set → Spells text set' → set = set') ∧
    (∀ set front word back, text.toList = front ++ word ++ back → (∀ c ∈ front, isBlank c) →
      (∀ c ∈ back, isBlank c) → lowerAscii word = lowerAscii set.name.toList →
        parse text = .ok set) ∧
    ((∀ set, ¬ Spells text set) →
      parse text = Outcome.refuse (.invalidParameters (.unknownSet text))) ∧
    (Misspelt (trim text.toList) →
      parse text = Outcome.refuse (.invalidParameters (.unknownSet text))) := by
  refine ⟨fun _ => parse_eq_ok_iff, fun _ => spells_iff, ?unique, ?recased, parse_of_not_spells,
    ?misspelt⟩
  case unique =>
    intro set set' spells spells'
    exact (spells_iff.1 spells).unique (spells_iff.1 spells')
  case recased =>
    intro set front word back text_eq front_blank back_blank whole
    exact parse_eq_ok_iff.2 ⟨front, word, back, text_eq, front_blank, back_blank, .inl whole⟩
  case misspelt =>
    intro misspelt
    apply parse_of_not_spells
    intro set spells
    exact misspelt.not_isNameOf set (spells_iff.1 spells)

/-- A name in mixed case between an em space and a line end, and one with the sign of the unit
kelvin in place of a letter. -/
theorem parse_accepts_exactly_names_kelvin :
    parse "\u2003slh-DSA-ShAkE-256f\n" = .ok shake256f ∧
    parse "sha\u212ae-256f" =
      Outcome.refuse (.invalidParameters (.unknownSet "sha\u212ae-256f")) := by
  constructor
  · obtain ⟨-, -, -, recased, -, -⟩ := parse_accepts_exactly_names "\u2003slh-DSA-ShAkE-256f\n"
    exact recased shake256f ['\u2003'] "slh-DSA-ShAkE-256f".toList ['\n'] (by decide +kernel)
      (List.forall_mem_singleton.2 rfl) (List.forall_mem_singleton.2 rfl) (by decide +kernel)
  · obtain ⟨-, -, -, -, -, misspelt⟩ := parse_accepts_exactly_names "sha\u212ae-256f"
    exact misspelt (.wide (show '\u212a' ∈ _ by decide) (by decide))

end ParameterSet

end HashSignature
