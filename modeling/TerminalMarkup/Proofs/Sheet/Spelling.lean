import TerminalMarkup.Proofs.Sheet.Preprocessing
import TerminalMarkup.Proofs.Sheet.Tokens

/-!
Contract: sources as lexemes with free white space between them.

A source spells a list of lexemes when the lexemes stand in it one after
another, with any grammar white space before each of them and behind the last.
Two words need some white space between them, and nothing else does. Sources
whose lexemes are well formed pass through preprocessing with the same lexemes,
only the white space changes (`Spelled.preprocess`), and every list of
well-formed lexemes has a source (`spelled_join`).
-/

set_option autoImplicit false

namespace TerminalMarkup.Sheet

open Phrase

/-- What is said of the characters of a text is decided over this text, and not
over all the characters that there are. -/
instance (priority := high) decidableForallMem (text : Text) (holds : Char → Prop)
    [DecidablePred holds] : Decidable (∀ character ∈ text, holds character) :=
  List.decidableBAll holds text

/-- The characters that stand for themselves in a sheet. -/
def marks : List Char := ['\x7b', '\x7d', ':', ';', ',', '[', ']']

/-- Whether a text is a word: it has word characters only, and at least one. -/
def IsWord (text : Text) : Prop :=
  text ≠ [] ∧ ∀ character ∈ text, Text.isWordChar character

instance (text : Text) : Decidable (IsWord text) := by
  unfold IsWord
  infer_instance

/-- The smallest parts of a sheet between which white space may stand: a mark,
a word, the name of an at-rule with its at sign, and a quoted string. -/
inductive Lexeme where
  | mark (character : Char)
  | word (text : Text)
  | title (name : Text)
  | string (contents : Text)
deriving DecidableEq, Repr

namespace Lexeme

def text : Lexeme → Text
  | mark character => [character]
  | word text => text
  | title name => '@' :: name
  | string contents => '"' :: (contents ++ ['"'])

/-- Whether a word character directly behind a lexeme would become part of
it. -/
def endsInWord : Lexeme → Bool
  | word _ | title _ => true
  | mark _ | string _ => false

def WellFormed : Lexeme → Prop
  | mark character => character ∈ marks
  | word text => IsWord text
  | title name => IsWord name
  | string contents => '"' ∉ contents ∧ '\n' ∉ contents

end Lexeme

/-- A lexeme stands before the rest, and the rest does not go on with its
word. -/
def Phrase.OfLexeme : Phrase Lexeme := fun text lexeme rest =>
  text = lexeme.text ++ rest ∧
    (lexeme.endsInWord → ∀ character ∈ rest.head?, ¬ Text.isWordChar character)

/-- Whether a source consists of some lexemes with white space around them. -/
def Spelled (source : Text) (lexemes : List Lexeme) : Prop :=
  ∃ rest, Series OfLexeme source lexemes rest ∧ ∀ character ∈ rest, Text.isSpace character

/-! ## Words -/

/-- A word has no character that is not a word character. -/
theorem IsWord.not_mem {word : Text} (isWord : IsWord word) {character : Char}
    (other : Text.isWordChar character = false) :
    character ∉ word := by
  intro member
  have letter := isWord.2 character member
  rw [other] at letter
  exact absurd letter (by decide)

/-! ## Characters of lexemes -/

namespace Lexeme

variable {lexeme : Lexeme}

/-- A lexeme starts with something other than white space. -/
theorem WellFormed.opens (formed : lexeme.WellFormed) :
    ∃ first others, lexeme.text = first :: others ∧ ¬ Text.isBlank first := by
  cases lexeme with
  | mark character =>
      have solid : ∀ mark ∈ marks, ¬ Text.isBlank mark := by decide
      exact ⟨character, [], rfl, solid character formed⟩
  | word text =>
      obtain ⟨first, others, rfl⟩ := List.exists_cons_of_ne_nil formed.1
      have letter := formed.2 first List.mem_cons_self
      exact ⟨first, others, rfl, fun blank => Text.not_isWordChar_of_isBlank blank letter⟩
  | title name => exact ⟨'@', name, rfl, by decide⟩
  | string contents => exact ⟨'"', contents ++ ['"'], rfl, by decide⟩

theorem WellFormed.feed_not_mem (formed : lexeme.WellFormed) : '\n' ∉ lexeme.text := by
  cases lexeme with
  | mark character =>
      have solid : '\n' ∉ marks := by decide
      rw [text, List.mem_singleton]
      exact fun same => solid (same ▸ formed)
  | word text => exact formed.not_mem (by decide)
  | title name =>
      rw [text, List.mem_cons, not_or]
      exact ⟨by decide, formed.not_mem (by decide)⟩
  | string contents =>
      simp only [text, List.mem_cons, List.mem_append, List.not_mem_nil, or_false, not_or]
      exact ⟨by decide, formed.2, by decide⟩

theorem WellFormed.getLast?_ne_return (formed : lexeme.WellFormed) :
    lexeme.text.getLast? ≠ some '\r' := by
  cases lexeme with
  | mark character =>
      have solid : '\r' ∉ marks := by decide
      rw [text, List.getLast?_singleton]
      exact fun same => solid (Option.some.inj same ▸ formed)
  | word text =>
      intro last
      exact formed.not_mem (by decide) (List.mem_of_getLast? last)
  | title name =>
      intro last
      obtain ⟨first, others, rfl⟩ := List.exists_cons_of_ne_nil formed.1
      rw [text, List.getLast?_cons_cons] at last
      exact formed.not_mem (by decide) (List.mem_of_getLast? last)
  | string contents =>
      rw [text, ← List.cons_append, List.getLast?_concat]
      decide

/-- A slash or a dollar sign in a lexeme stands in quotes. -/
theorem WellFormed.onlyQuoted_append (formed : lexeme.WellFormed) {character : Char}
    (special : character = '/' ∨ character = '$') {byLine : Bool} {rest : Text} :
    OnlyQuoted character byLine false (lexeme.text ++ rest) ↔
      OnlyQuoted character byLine false rest := by
  cases lexeme with
  | mark mark =>
      have plain : ∀ mark ∈ marks, '"' ≠ mark ∧ '/' ≠ mark ∧ '$' ≠ mark := by decide
      obtain ⟨quote, slash, dollar⟩ := plain mark formed
      apply OnlyQuoted.append_outside
      · rwa [text, List.mem_singleton]
      · rw [text, List.mem_singleton]
        rcases special with rfl | rfl
        · exact slash
        · exact dollar
  | word text =>
      apply OnlyQuoted.append_outside
      · exact formed.not_mem (by decide)
      · rcases special with rfl | rfl <;> exact formed.not_mem (by decide)
  | title name =>
      apply OnlyQuoted.append_outside
      · rw [text, List.mem_cons, not_or]
        exact ⟨by decide, formed.not_mem (by decide)⟩
      · rw [text, List.mem_cons, not_or]
        rcases special with rfl | rfl <;>
          exact ⟨by decide, formed.not_mem (by decide)⟩
  | string contents =>
      rw [text, List.cons_append, List.append_assoc, List.singleton_append]
      apply OnlyQuoted.append_string formed.1 fun _ => formed.2
      rcases special with rfl | rfl <;> decide

end Lexeme

/-! ## Preprocessing -/

theorem OnlyQuoted.gap_iff {character : Char} {byLine : Bool} {text rest : Text}
    (special : character = '/' ∨ character = '$') (gap : Gap text rest) :
    OnlyQuoted character byLine false text ↔ OnlyQuoted character byLine false rest := by
  obtain ⟨run, rfl, inside⟩ := gap
  have absent : ∀ other, Text.isSpace other = false → other ∉ run := by
    intro other solid member
    rw [inside other member] at solid
    cases solid
  apply append_outside
  · exact absent '"' (by decide)
  · rcases special with rfl | rfl <;> exact absent _ (by decide)

section Series

variable {text rest : Text} {lexemes : List Lexeme}

/-- Slashes and dollar signs in lexemes stand in quotes. -/
theorem onlyQuoted_of_series (series : Series OfLexeme text lexemes rest)
    (formed : ∀ lexeme ∈ lexemes, lexeme.WellFormed) {character : Char}
    (special : character = '/' ∨ character = '$') {byLine : Bool}
    (behind : OnlyQuoted character byLine false rest) :
    OnlyQuoted character byLine false text := by
  induction series with
  | nil => exact behind
  | cons gap first others inductionHypothesis =>
      obtain ⟨firstFormed, othersFormed⟩ := List.forall_mem_cons.mp formed
      rw [OnlyQuoted.gap_iff special gap, first.1, firstFormed.onlyQuoted_append special]
      exact inductionHypothesis othersFormed behind

/-- Unifying line ends keeps the lexemes of a text. -/
theorem series_unifyLineEnds (series : Series OfLexeme text lexemes rest)
    (formed : ∀ lexeme ∈ lexemes, lexeme.WellFormed) {tail : Text}
    (last : Text.IsLastEnd tail) :
    Series OfLexeme (Text.unifyLineEnds text ++ tail) lexemes
      (Text.unifyLineEnds rest ++ tail) := by
  induction series with
  | nil => exact .nil
  | @cons text start behind rest lexeme lexemes gap first others inductionHypothesis =>
      obtain ⟨firstFormed, othersFormed⟩ := List.forall_mem_cons.mp formed
      obtain ⟨run, rfl, inside⟩ := gap
      obtain ⟨rfl, apart⟩ := first
      obtain ⟨opener, lexemeRest, shape, solid⟩ := firstFormed.opens
      have beforeLexeme : Text.unifyLineEnds (run ++ (lexeme.text ++ behind)) =
          Text.unifyLineEnds run ++ Text.unifyLineEnds (lexeme.text ++ behind) := by
        apply Text.unifyLineEnds_append
        intro _ feed
        rw [shape, List.cons_append, List.head?_cons] at feed
        rw [Option.some.inj feed] at solid
        exact solid (by decide)
      have behindLexeme : Text.unifyLineEnds (lexeme.text ++ behind) =
          lexeme.text ++ Text.unifyLineEnds behind := by
        rw [Text.unifyLineEnds_append fun ends => absurd ends firstFormed.getLast?_ne_return,
          Text.unifyLineEnds_of_no_feed firstFormed.feed_not_mem]
      rw [beforeLexeme, behindLexeme, List.append_assoc, List.append_assoc]
      refine .cons ⟨Text.unifyLineEnds run, rfl, ?_⟩ ⟨rfl, ?_⟩
        (inductionHypothesis othersFormed)
      · intro character member
        exact inside character ((Text.sublist_unifyLineEnds _).subset member)
      · intro word character member
        have feedApart : ¬ Text.isWordChar '\n' := by decide
        cases unified : Text.unifyLineEnds behind with
        | nil =>
            rw [unified, List.nil_append] at member
            rcases last with rfl | rfl
            · cases member
            · rwa [← Option.some.inj member]
        | cons next others =>
            have first : character ∈ (Text.unifyLineEnds behind).head? := by
              rw [unified] at member ⊢
              exact member
            rcases Text.head?_unifyLineEnds first with rfl | kept
            · exact feedApart
            · exact apart word character kept

end Series

/-- Preprocessing keeps the lexemes of a source, and they define no
variable. -/
theorem Spelled.preprocess {source : Text} {lexemes : List Lexeme}
    (spelled : Spelled source lexemes) (formed : ∀ lexeme ∈ lexemes, lexeme.WellFormed) :
    extractVariables (stripComments source) = Table.empty ∧
      ∃ resolved, Sheet.preprocess source = .ok resolved ∧ Spelled resolved lexemes := by
  obtain ⟨rest, series, blank⟩ := spelled
  have hidden : ∀ character, character = '/' ∨ character = '$' → ∀ byLine,
      OnlyQuoted character byLine false source := by
    intro character special byLine
    apply onlyQuoted_of_series series formed special
    exact (OnlyQuoted.gap_iff special ⟨rest, (List.append_nil rest).symm, blank⟩).mpr trivial
  obtain ⟨undefined, tail, last, resolves⟩ :=
    preprocess_of_onlyQuoted (hidden '/' (.inl rfl) false) (hidden '$' (.inr rfl) true)
  refine ⟨undefined, _, resolves, _, series_unifyLineEnds series formed last, ?_⟩
  intro character member
  rcases List.mem_append.mp member with inRest | inTail
  · exact blank character ((Text.sublist_unifyLineEnds _).subset inRest)
  · rcases last with rfl | rfl
    · cases inTail
    · rw [List.mem_singleton.mp inTail]
      decide

/-! ## A source for every list of lexemes -/

/-- Some lexemes with a space before each of them. -/
def Lexeme.join (lexemes : List Lexeme) : Text :=
  lexemes.flatMap fun lexeme => ' ' :: lexeme.text

theorem spelled_join (lexemes : List Lexeme) : Spelled (Lexeme.join lexemes) lexemes := by
  refine ⟨[], ?_, by simp⟩
  induction lexemes with
  | nil => exact .nil
  | cons lexeme others inductionHypothesis =>
      refine .cons ⟨[' '], rfl, by decide⟩ ⟨rfl, ?_⟩ inductionHypothesis
      intro _ character member
      cases others with
      | nil => cases member
      | cons next behind =>
          rw [← Option.some.inj member]
          decide

end TerminalMarkup.Sheet
