import TerminalMarkup.Proofs.Sheet.Phrasing
import TerminalMarkup.Proofs.Sheet.ValueGrammar
import TerminalMarkup.Proofs.Sheet.Writable

/-!
Contract: what is written for a value is read back.

The lexemes of a value stand in a bare text of the grammar without white space
around them (`front_of_series`). The lexemes of a list stand in a list
(`WritesWords.lists`), so what is written for a value is a value of the grammar,
and the readers of lists and colours take it up whole.
-/

set_option autoImplicit false

namespace TerminalMarkup.Sheet

open Lexeme Phrase Reader

/-! ## Lists -/

section Lists

variable {Value : Type} {written : Text → Value → Prop}

/-- The lexemes of a list stand in a list of the grammar, which begins with a
word. -/
theorem WritesWords.lists {texts : List Text} {lexemes : List Lexeme}
    (given : WritesWords texts lexemes) {values : List Value}
    (each : List.Forall₂ written texts values) (isWord : ∀ text ∈ texts, IsWord text)
    {text rest : Text} (series : Series OfLexeme text lexemes rest) :
    ∃ front, Gap text (front ++ rest) ∧ Lists written front values ∧
      ∃ first behind, front = first :: behind ∧ Text.isWordChar first := by
  induction given generalizing text values with
  | single =>
      obtain ⟨value, _, first, nothing, rfl⟩ := List.forall₂_cons_left_iff.mp each
      rw [List.forall₂_nil_left_iff.mp nothing]
      obtain ⟨start, behind, gap, found, ended⟩ :=
        series.behind_word (isWord _ List.mem_cons_self)
      cases ended
      obtain ⟨nonempty, rfl, inside, _⟩ := found
      obtain ⟨letter, letters, rfl⟩ := List.exists_cons_of_ne_nil nonempty
      exact ⟨_, gap, .single first, letter, letters, rfl, inside letter List.mem_cons_self⟩
  | comma others inductionHypothesis =>
      obtain ⟨value, _, first, behindFirst, rfl⟩ := List.forall₂_cons_left_iff.mp each
      obtain ⟨firstIsWord, othersAreWords⟩ := List.forall_mem_cons.mp isWord
      obtain ⟨start, behind, gap, found, behindWord⟩ := series.behind_word firstIsWord
      obtain ⟨between, comma, behindComma⟩ := behindWord.behind_mark
      obtain ⟨back, nextGap, listed, _⟩ :=
        inductionHypothesis behindFirst othersAreWords behindComma
      obtain ⟨nonempty, rfl, inside, _⟩ := found
      obtain ⟨before, rfl, spaceBefore⟩ := comma
      obtain ⟨after, rfl, spaceBehind⟩ := nextGap
      obtain ⟨letter, letters, rfl⟩ := List.exists_cons_of_ne_nil nonempty
      refine ⟨_, ?_, .more first (.comma spaceBefore spaceBehind) listed, letter, _, rfl,
        inside letter List.mem_cons_self⟩
      simpa using gap
  | space others inductionHypothesis =>
      obtain ⟨value, _, first, behindFirst, rfl⟩ := List.forall₂_cons_left_iff.mp each
      obtain ⟨firstIsWord, othersAreWords⟩ := List.forall_mem_cons.mp isWord
      obtain ⟨start, behind, gap, found, behindWord⟩ := series.behind_word firstIsWord
      obtain ⟨back, nextGap, listed, opening, behindOpening, rfl, opens⟩ :=
        inductionHypothesis behindFirst othersAreWords behindWord
      obtain ⟨nonempty, rfl, inside, apart⟩ := found
      obtain ⟨run, rfl, space⟩ := nextGap
      -- Two words with nothing between them would be one word.
      have separates : run ≠ [] := by
        rintro rfl
        exact apart opening rfl opens
      obtain ⟨letter, letters, rfl⟩ := List.exists_cons_of_ne_nil nonempty
      refine ⟨_, ?_, .more first (.space separates space) listed, letter, _, rfl,
        inside letter List.mem_cons_self⟩
      simpa using gap

/-- A byte is written in decimal digits. -/
theorem writtenByte_ofNat (value : UInt8) :
    WrittenByte (Text.ofNat value.toNat) value := by
  exact ⟨Text.ofNat_ne_nil _, fun _ => Text.isDigit_of_mem_ofNat, Text.digitsValue_ofNat _⟩

end Lists

/-! ## Bare values -/

/-- Whether a text is a bare value as it is written, without white space at its
ends. -/
structure IsBareText (text : Text) : Prop where
  nonempty : text ≠ []
  first : ∀ character ∈ text.head?, ¬ Text.isBlank character
  last : ∀ character ∈ text.getLast?, ¬ Text.isBlank character
  inside : ∀ character ∈ text, ¬ endsBare character

theorem mem_of_endsBare {character : Char} (ends : endsBare character) :
    character ∈ [';', ':', '\x7b', '\x7d', '"'] := by
  simpa [endsBare, or_assoc] using ends

theorem not_endsBare_of_isWordChar {character : Char} (letter : Text.isWordChar character) :
    ¬ endsBare character := by
  have enders : ∀ ender ∈ [';', ':', '\x7b', '\x7d', '"'], ¬ Text.isWordChar ender := by
    decide +kernel
  exact fun ends => enders character (mem_of_endsBare ends) letter

theorem not_endsBare_of_isSpace {character : Char} (space : Text.isSpace character) :
    ¬ endsBare character := by
  have enders : ∀ ender ∈ [';', ':', '\x7b', '\x7d', '"'], ¬ Text.isSpace ender := by
    decide
  exact fun ends => enders character (mem_of_endsBare ends) space

theorem Lexeme.IsBare.isBareText {lexeme : Lexeme} (bare : lexeme.IsBare) :
    IsBareText lexeme.text := by
  cases lexeme with
  | mark character =>
      have plain : ∀ mark ∈ [',', '[', ']'], ¬ Text.isBlank mark ∧ ¬ endsBare mark := by
        decide
      obtain ⟨solid, inside⟩ := plain character bare
      constructor <;> simp_all [Lexeme.text]
  | word text =>
      have solid : ∀ character ∈ text, ¬ Text.isBlank character :=
        fun character member blank =>
          Text.not_isWordChar_of_isBlank blank (bare.2 character member)
      exact {
        nonempty := bare.1
        first := fun character member => solid character (List.mem_of_mem_head? member)
        last := fun character member => solid character (List.mem_of_getLast? member)
        inside := fun character member => not_endsBare_of_isWordChar (bare.2 character member) }
  | title name => exact bare.elim
  | string contents => exact bare.elim

theorem IsBareText.append {front run back : Text} (opens : IsBareText front)
    (space : ∀ character ∈ run, Text.isSpace character) (closes : IsBareText back) :
    IsBareText (front ++ (run ++ back)) where
  nonempty := by
    intro empty
    exact opens.nonempty (List.append_eq_nil_iff.mp empty).1
  first := by
    rw [List.head?_append_of_ne_nil _ opens.nonempty]
    exact opens.first
  last := by
    rw [← List.append_assoc, List.getLast?_append_of_ne_nil _ closes.nonempty]
    exact closes.last
  inside := by
    simp only [List.mem_append]
    rintro character (inFront | inRun | inBack)
    · exact opens.inside character inFront
    · exact not_endsBare_of_isSpace (space character inRun)
    · exact closes.inside character inBack

theorem IsBareText.eq_of_gap {text start : Text} (bare : IsBareText text)
    (gap : Gap text start) :
    start = text := by
  obtain ⟨run, rfl, space⟩ := gap
  cases run with
  | nil => rfl
  | cons character others =>
      have blank := Text.isBlank_of_isSpace (space character List.mem_cons_self)
      exact absurd blank (bare.first character rfl)

/-- The lexemes of a value stand in a bare text, with the white space around them
left out. -/
theorem front_of_series {text rest : Text} {lexeme : Lexeme} {lexemes : List Lexeme}
    (series : Series OfLexeme text (lexeme :: lexemes) rest)
    (bare : AllBare (lexeme :: lexemes)) :
    ∃ front, Gap text (front ++ rest) ∧ Series OfLexeme front (lexeme :: lexemes) [] ∧
      IsBareText front := by
  induction lexemes generalizing text lexeme with
  | nil =>
      have firstBare : lexeme.IsBare := bare lexeme List.mem_cons_self
      cases series with
      | cons gap first others =>
          cases others
          obtain ⟨rfl, _⟩ := first
          exact ⟨lexeme.text, gap,
            .cons ⟨[], rfl, by simp⟩ ⟨(List.append_nil _).symm, by simp⟩ .nil,
            firstBare.isBareText⟩
  | cons next others inductionHypothesis =>
      obtain ⟨firstBare, othersBare⟩ := List.forall_mem_cons.mp bare
      cases series with
      | cons gap first behind =>
          obtain ⟨rfl, apart⟩ := first
          obtain ⟨back, ⟨run, rfl, space⟩, backSeries, backBare⟩ :=
            inductionHypothesis behind othersBare
          refine ⟨lexeme.text ++ (run ++ back), ?_, ?_,
            firstBare.isBareText.append space backBare⟩
          · simpa only [List.append_assoc] using gap
          · refine .cons ⟨[], rfl, by simp⟩ ⟨rfl, ?_⟩
              (.behind_gap ⟨run, rfl, space⟩ backSeries)
            intro word character member
            apply apart word character
            rw [← List.append_assoc]
            exact List.mem_head?_append_of_mem_head? member

/-- A bare text before a semicolon is a bare value. -/
theorem IsBareText.ofValue {front behind rest : Text} (bare : IsBareText front)
    (gap : Gap behind (';' :: rest)) :
    OfValue (front ++ behind) (.bare front) (';' :: rest) := by
  obtain ⟨run, rfl, space⟩ := gap
  have nonempty : front ++ run ≠ [] := by
    intro empty
    exact bare.nonempty (List.append_eq_nil_iff.mp empty).1
  have maximal : MaximalRun (!endsBare ·) (front ++ (run ++ ';' :: rest)) (front ++ run)
      (';' :: rest) := by
    refine ⟨(List.append_assoc _ _ _).symm, ?_, by simp [endsBare]⟩
    intro character member
    rw [Bool.not_eq_true']
    apply eq_false_of_ne_true
    rcases List.mem_append.mp member with inFront | inRun
    · exact bare.inside character inFront
    · exact not_endsBare_of_isSpace (space character inRun)
  have start : ∀ character ∈ (front ++ run).head?, ¬ Text.isSpace character := by
    rw [List.head?_append_of_ne_nil _ bare.nonempty]
    exact fun character member space =>
      bare.first character member (Text.isBlank_of_isSpace space)
  refine .bare nonempty maximal start ⟨run, rfl, ?_, bare.last⟩
  exact fun character member => Text.isBlank_of_isSpace (space character member)

/-- A colon, the lexemes of a value and a semicolon assign a bare text in which
the lexemes stand. -/
theorem yields_assigned {value : List Lexeme} (bare : AllBare value) (present : value ≠ []) :
    Yields Assigned (fun tree => ∃ front, tree = .bare front ∧
      Series OfLexeme front value [] ∧ IsBareText front) (mark ':' :: (value ++ [mark ';'])) := by
  intro text rest series
  obtain ⟨opened, gap, behind⟩ := series.behind_mark
  obtain ⟨middle, valueSeries, closing⟩ := behind.split
  obtain ⟨_, closed, ended⟩ := closing.behind_mark
  cases ended
  obtain ⟨lexeme, lexemes, rfl⟩ := List.exists_cons_of_ne_nil present
  obtain ⟨front, before, frontSeries, frontBare⟩ := front_of_series valueSeries bare
  exact ⟨':' :: opened, .bare front, gap,
    ⟨opened, front ++ middle, ';' :: rest, rfl, before, frontBare.ofValue closed,
      ⟨[], rfl, by simp⟩⟩, front, rfl, frontSeries, frontBare⟩

/-- A quoted string between a colon and a semicolon is assigned as it is. -/
theorem yields_assigned_string {contents : Text} (unquoted : '"' ∉ contents) :
    Yields Assigned (· = .quoted contents) [mark ':', string contents, mark ';'] := by
  intro text rest series
  obtain ⟨opened, gap, behind⟩ := series.behind_mark
  obtain ⟨last, between, closing⟩ := behind.behind_string
  obtain ⟨_, closed, ended⟩ := closing.behind_mark
  cases ended
  exact ⟨':' :: opened, .quoted contents, gap,
    ⟨opened, _, last, rfl, between, .quoted unquoted, closed⟩, rfl⟩

/-- A word before what assigns a value to it is a declaration. -/
theorem Yields.declaration {meaning : Value → Prop} {name : Text} {lexemes : List Lexeme}
    (yields : Yields Assigned meaning lexemes) (isWord : IsWord name) :
    Yields OfDeclaration (fun declaration => declaration.property = name ∧
      meaning declaration.value) (word name :: lexemes) := by
  intro text rest series
  obtain ⟨start, behind, gap, found, assignment⟩ := series.behind_word isWord
  obtain ⟨colon, value, between, assigned, holds⟩ := yields _ _ assignment
  exact ⟨start, ⟨name, value⟩, gap, ⟨behind, colon, found, between, assigned⟩, rfl, holds⟩

/-! ## Reading values whole -/

section Whole

variable {lexemes : List Lexeme} {front : Text}

theorem WritesWords.whole?_words {texts : List Text} (written : WritesWords texts lexemes)
    (isWord : ∀ text ∈ texts, IsWord text) (series : Series OfLexeme front lexemes [])
    (bare : IsBareText front) :
    whole? words front = some texts := by
  have each : List.Forall₂ WrittenWord texts texts :=
    List.forall₂_same.mpr fun text member => ⟨rfl, isWord text member⟩
  obtain ⟨text, gap, listed, _⟩ := written.lists each isWord series
  rw [List.append_nil] at gap
  rw [← bare.eq_of_gap gap]
  exact readsRuns_identifier.whole?_separated_iff.mpr listed

/-- A single word stands as a bare text. -/
theorem IsBareText.eq_of_series_word {word : Text} (bare : IsBareText front)
    (isWord : IsWord word) (series : Series OfLexeme front [.word word] []) :
    front = word := by
  obtain ⟨start, behind, gap, found, ended⟩ := series.behind_word isWord
  cases ended
  rw [← bare.eq_of_gap gap, found.2.1, List.append_nil]

theorem WritesColor.whole?_color {color : Color} (written : WritesColor color lexemes)
    (series : Series OfLexeme front lexemes []) (bare : IsBareText front) :
    whole? Reader.color front = some color := by
  cases written with
  | @base color =>
      rw [bare.eq_of_series_word (isWord_baseColor color) series]
      apply whole?_color_iff_isColorText.mpr
      apply IsColorText.name (isWord_baseColor color)
      cases color <;> rfl
  | @indexed index =>
      rw [bare.eq_of_series_word (isWord_byte index) series]
      exact whole?_color_iff_isColorText.mpr (.number (writtenByte_ofNat index))
  | @bracketed values _ _ named listed =>
      obtain ⟨opened, gap, behind⟩ := series.behind_mark
      obtain ⟨middle, listSeries, closing⟩ := behind.split
      obtain ⟨last, closed, ended⟩ := closing.behind_mark
      cases ended
      have each : List.Forall₂ WrittenByte
          (values.map fun value => Text.ofNat value.toNat) values :=
        List.forall₂_map_left_iff.mpr
          (List.forall₂_same.mpr fun value _ => writtenByte_ofNat value)
      obtain ⟨inner, ⟨before, rfl, spaceBefore⟩, lists, _⟩ :=
        listed.lists each (forall_mem_map_isWord values) listSeries
      obtain ⟨after, rfl, spaceBehind⟩ := closed
      rw [← bare.eq_of_gap gap, whole?_color_iff, bracketedColor_eq_some_iff]
      exact .inl ⟨values, .intro spaceBefore lists spaceBehind, named⟩

end Whole

end TerminalMarkup.Sheet
