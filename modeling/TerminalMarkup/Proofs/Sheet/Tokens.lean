import Mathlib.Data.List.TakeWhile
import TerminalMarkup.Proofs.Sheet.Derivation

/-!
Contract: the readers of words, white space and values read their phrases.

Runs that are maximal are what `takeWhile` and `dropWhile` split off, so each
of these phrases stands at the front of a text in one way at most.
-/

set_option autoImplicit false

namespace TerminalMarkup

/-! ## Character classes -/

namespace Text

/-- The code points of white space. -/
def blankCodes : List Nat :=
  List.range' 9 5 ++ [0x20, 0x85, 0xA0, 0x1680] ++ List.range' 0x2000 11 ++
    [0x2028, 0x2029, 0x202F, 0x205F, 0x3000]

theorem mem_blankCodes {character : Char} (blank : isBlank character) :
    character.toNat ∈ blankCodes := by
  simp only [isBlank, Bool.or_eq_true, Bool.and_eq_true, decide_eq_true_eq, beq_iff_eq]
    at blank
  simp only [blankCodes, List.mem_append, List.mem_range'_1, List.mem_cons,
    List.not_mem_nil, or_false]
  omega

theorem not_alphanumeric_of_mem_blankCodes :
    ∀ code ∈ blankCodes, inRanges code alphanumericRanges = false := by
  decide +kernel

/-- White space is not part of words. -/
theorem not_isWordChar_of_isBlank {character : Char} (blank : isBlank character) :
    ¬ isWordChar character := by
  intro word
  simp only [isWordChar, Bool.or_eq_true, beq_iff_eq] at word
  rcases word with (alphanumeric | rfl) | rfl
  · have outside := not_alphanumeric_of_mem_blankCodes _ (mem_blankCodes blank)
    rw [isAlphanumeric, outside] at alphanumeric
    exact absurd alphanumeric (by decide)
  · exact absurd blank (by decide)
  · exact absurd blank (by decide)

/-- The decimal digits are characters of words. -/
theorem isWordChar_of_isDigit {character : Char} (digit : isDigit character) :
    isWordChar character := by
  have among : character.toNat ∈ List.range' 48 10 := by
    simp only [isDigit, Bool.and_eq_true, decide_eq_true_eq, Char.le_def,
      UInt32.le_iff_toNat_le] at digit
    rw [List.mem_range'_1]
    exact ⟨digit.1, Nat.lt_succ_of_le digit.2⟩
  have codes : ∀ code ∈ List.range' 48 10, inRanges code alphanumericRanges := by
    decide +kernel
  have alphanumeric : isAlphanumeric character := codes _ among
  rw [isWordChar, alphanumeric]
  rfl

/-! ## Trimming -/

theorem trimStart_eq_nil_iff {text : Text} :
    trimStart text = [] ↔ ∀ character ∈ text, isBlank character :=
  List.dropWhile_eq_nil_iff

theorem trimEnd_of_blank {blanks : Text} (blank : ∀ character ∈ blanks, isBlank character) :
    trimEnd blanks = [] := by
  induction blanks with
  | nil => rfl
  | cons character rest inductionHypothesis =>
      have kept := inductionHypothesis fun other member =>
        blank other (List.mem_cons_of_mem character member)
      have first : isBlank character := blank character List.mem_cons_self
      rw [trimEnd, kept]
      exact if_pos first

theorem trimEnd_cons_of_ne_nil {character : Char} {rest : Text} (kept : trimEnd rest ≠ []) :
    trimEnd (character :: rest) = character :: trimEnd rest := by
  rw [trimEnd]
  split
  · next empty => exact absurd empty kept
  · rfl

theorem trimEnd_append_of_blank {front blanks : Text}
    (blank : ∀ character ∈ blanks, isBlank character)
    (last : ∀ character ∈ front.getLast?, ¬ isBlank character) :
    trimEnd (front ++ blanks) = front := by
  induction front with
  | nil => exact trimEnd_of_blank blank
  | cons character rest inductionHypothesis =>
      cases rest with
      | nil =>
          have solid : ¬ isBlank character := last character rfl
          rw [List.singleton_append, trimEnd, trimEnd_of_blank blank]
          exact if_neg solid
      | cons next others =>
          have kept := inductionHypothesis fun other member =>
            last other (by rwa [List.getLast?_cons_cons])
          rw [List.cons_append, trimEnd_cons_of_ne_nil (by rw [kept]; exact List.cons_ne_nil _ _),
            kept]

end Text

namespace Sheet

namespace Phrase

theorem trimsTo_trimEnd (text : Text) : TrimsTo text (Text.trimEnd text) := by
  induction text with
  | nil => exact ⟨[], rfl, by simp, by simp [Text.trimEnd]⟩
  | cons character rest inductionHypothesis =>
      obtain ⟨blanks, whole, blank, last⟩ := inductionHypothesis
      by_cases empty : Text.trimEnd rest = []
      · rw [empty, List.nil_append] at whole
        by_cases first : Text.isBlank character
        · have gone : Text.trimEnd (character :: rest) = [] := by
            rw [Text.trimEnd, empty]
            exact if_pos first
          refine ⟨character :: rest, by rw [gone, List.nil_append], ?_, by simp [gone]⟩
          intro other member
          rcases List.mem_cons.mp member with rfl | behind
          · exact first
          · exact blank other (whole ▸ behind)
        · have single : Text.trimEnd (character :: rest) = [character] := by
            rw [Text.trimEnd, empty]
            exact if_neg first
          refine ⟨rest, by rw [single, List.singleton_append], whole ▸ blank, ?_⟩
          intro other member
          rw [single, List.getLast?_singleton, Option.mem_some_iff] at member
          rwa [← member]
      · rw [Text.trimEnd_cons_of_ne_nil empty]
        refine ⟨blanks, by rw [List.cons_append, ← whole], blank, ?_⟩
        intro other member
        obtain ⟨next, others, same⟩ := List.exists_cons_of_ne_nil empty
        rw [same, List.getLast?_cons_cons, ← same] at member
        exact last other member

theorem trimsTo_iff {text front : Text} : TrimsTo text front ↔ front = Text.trimEnd text := by
  constructor
  · rintro ⟨blanks, rfl, blank, last⟩
    exact (Text.trimEnd_append_of_blank blank last).symm
  · rintro rfl
    exact trimsTo_trimEnd text

/-! ## Maximal runs -/

section Runs

variable {inClass : Char → Bool} {text run rest : Text}

/-- A maximal run is what `takeWhile` and `dropWhile` split off. -/
theorem maximalRun_iff :
    MaximalRun inClass text run rest ↔
      run = text.takeWhile inClass ∧ rest = text.dropWhile inClass := by
  constructor
  · rintro ⟨rfl, inside, boundary⟩
    have stop : rest.takeWhile inClass = [] ∧ rest.dropWhile inClass = rest := by
      cases rest with
      | nil => exact ⟨rfl, rfl⟩
      | cons next others =>
          have outside : ¬ inClass next := boundary next rfl
          exact ⟨List.takeWhile_cons_of_neg outside, List.dropWhile_cons_of_neg outside⟩
    rw [List.takeWhile_append_of_pos inside, List.dropWhile_append_of_pos inside, stop.1,
      stop.2, List.append_nil]
    exact ⟨rfl, rfl⟩
  · rintro ⟨rfl, rfl⟩
    refine ⟨List.takeWhile_append_dropWhile.symm, fun _ => List.mem_takeWhile_imp, ?_⟩
    intro next member
    have boundary := List.head?_dropWhile_not inClass text
    rw [Option.mem_def.mp member] at boundary
    simpa using boundary

end Runs

/-! ## Gaps -/

section Gaps

variable {text rest : Text}

theorem gap_skipSpace (text : Text) : Gap text (Reader.skipSpace text) :=
  ⟨text.takeWhile Text.isSpace, List.takeWhile_append_dropWhile.symm,
    fun _ => List.mem_takeWhile_imp⟩

/-- A gap before something other than white space is all the white space that
there is. -/
theorem Gap.eq_skipSpace (gap : Gap text rest)
    (solid : ∀ character ∈ rest.head?, ¬ Text.isSpace character) :
    rest = Reader.skipSpace text := by
  obtain ⟨run, whole, inside⟩ := gap
  exact (maximalRun_iff.mp ⟨whole, inside, solid⟩).2

theorem not_isSpace_of_mem_head?_skipSpace {character : Char}
    (first : character ∈ (Reader.skipSpace text).head?) :
    ¬ Text.isSpace character :=
  (maximalRun_iff.mpr ⟨rfl, rfl⟩ : MaximalRun Text.isSpace text _ _).2.2 character first

end Gaps

/-! ## Words -/

section Words

variable {text word rest : Text}

theorem Word.length_lt (found : Word text word rest) : rest.length < text.length := by
  obtain ⟨nonempty, rfl, inside, boundary⟩ := found
  have := List.length_pos_iff.mpr nonempty
  rw [List.length_append]
  omega

theorem Word.opens (found : Word text word rest) :
    ∃ first behind, text = first :: behind ∧ Text.isWordChar first := by
  obtain ⟨nonempty, rfl, inside, boundary⟩ := found
  obtain ⟨first, others, rfl⟩ := List.exists_cons_of_ne_nil nonempty
  exact ⟨first, others ++ rest, rfl, inside first List.mem_cons_self⟩

theorem Word.unique {otherWord otherRest : Text} (found : Word text word rest)
    (other : Word text otherWord otherRest) :
    word = otherWord ∧ rest = otherRest := by
  obtain ⟨front, behind⟩ := maximalRun_iff.mp found.2
  obtain ⟨otherFront, otherBehind⟩ := maximalRun_iff.mp other.2
  exact ⟨front.trans otherFront.symm, behind.trans otherBehind.symm⟩

end Words

end Phrase

/-! ## Readers of tokens -/

namespace Reader

open Phrase

variable {text rest : Text}

theorem expect_eq_some_iff {character : Char} :
    expect character text = some rest ↔ text = character :: rest := by
  cases text with
  | nil => simp [expect]
  | cons first behind =>
      rw [expect, List.cons.injEq]
      split
      · next same => simp [same]
      · next different => simp [different]

/-- A character other than white space is expected behind a gap. -/
theorem expect_skipSpace_eq_some_iff {character : Char}
    (solid : ¬ Text.isSpace character) :
    expect character (skipSpace text) = some rest ↔ Gap text (character :: rest) := by
  rw [expect_eq_some_iff]
  constructor
  · intro same
    rw [← same]
    exact gap_skipSpace text
  · intro gap
    refine (gap.eq_skipSpace ?_).symm
    intro first member
    rwa [← Option.some.inj member]

theorem identifier_eq_some_iff {word : Text} :
    identifier text = some (word, rest) ↔ Word text word rest := by
  unfold identifier Word
  rw [maximalRun_iff]
  split
  · next empty =>
    constructor
    · intro found
      exact absurd found (by simp)
    · rintro ⟨nonempty, same, behind⟩
      exact absurd (same.trans empty) nonempty
  · next nonempty =>
    constructor
    · intro found
      obtain ⟨rfl, rfl⟩ := Prod.mk.inj (Option.some.inj found)
      exact ⟨nonempty, rfl, rfl⟩
    · rintro ⟨_, rfl, rfl⟩
      rfl

theorem quoted_eq_some_iff {contents : Text} :
    quoted text = some (contents, rest) ↔
      '"' ∉ contents ∧ text = '"' :: (contents ++ '"' :: rest) := by
  simp only [quoted, Option.bind_eq_bind, Option.bind_eq_some_iff, expect_eq_some_iff,
    Option.pure_def, Option.some.injEq, Prod.mk.injEq]
  constructor
  · rintro ⟨opened, rfl, behind, closing, rfl, rfl⟩
    have whole : opened.takeWhile (· ≠ '"') ++ '"' :: behind = opened := by
      rw [← closing]
      exact List.takeWhile_append_dropWhile
    refine ⟨?_, by rw [whole]⟩
    intro member
    simpa using List.mem_takeWhile_imp member
  · rintro ⟨unquoted, rfl⟩
    have maximal : MaximalRun (· ≠ '"') (contents ++ '"' :: rest) contents ('"' :: rest) := by
      refine ⟨rfl, ?_, ?_⟩
      · intro character member
        simpa using fun same : character = '"' => unquoted (same ▸ member)
      · intro character member
        simpa using (Option.some.inj member).symm
    obtain ⟨front, behind⟩ := maximalRun_iff.mp maximal
    exact ⟨contents ++ '"' :: rest, rfl, rest, behind.symm, front.symm, rfl⟩

theorem bare_eq_some_iff {front : Text} :
    bare text = some (front, rest) ↔
      ∃ run, run ≠ [] ∧ MaximalRun (!endsBare ·) text run rest ∧ TrimsTo run front := by
  unfold bare
  simp only [maximalRun_iff, trimsTo_iff]
  split
  · next empty =>
    constructor
    · intro found
      exact absurd found (by simp)
    · rintro ⟨run, nonempty, ⟨same, behind⟩, trimmed⟩
      exact absurd (same.trans empty) nonempty
  · next nonempty =>
    constructor
    · intro found
      obtain ⟨rfl, rfl⟩ := Prod.mk.inj (Option.some.inj found)
      exact ⟨_, nonempty, ⟨rfl, rfl⟩, rfl⟩
    · rintro ⟨run, _, ⟨rfl, rfl⟩, rfl⟩
      rfl

end Reader

end Sheet

end TerminalMarkup
