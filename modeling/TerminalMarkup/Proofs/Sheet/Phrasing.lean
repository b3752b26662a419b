import TerminalMarkup.Proofs.Sheet.Writing

/-!
Contract: phrases of the grammar from lexemes.

Some lexemes yield a kind of phrase with a meaning when, wherever they stand in
a text, a phrase of this kind stands there with a tree that has the meaning.
Yielding goes up the grammar: from what stands between two braces to the block,
and from two runs of lexemes to both of them.
-/

set_option autoImplicit false

namespace TerminalMarkup.Sheet

open Lexeme Phrase

/-! ## Series -/

section Series

variable {Tree : Type} {phrase : Phrase Tree} {text middle rest : Text}
variable {left right : List Tree}

theorem Phrase.Series.split (series : Series phrase text (left ++ right) rest) :
    ∃ middle, Series phrase text left middle ∧ Series phrase middle right rest := by
  induction left generalizing text with
  | nil => exact ⟨text, .nil, series⟩
  | cons tree others inductionHypothesis =>
      cases series with
      | cons gap first behind =>
          obtain ⟨middle, front, back⟩ := inductionHypothesis behind
          exact ⟨middle, .cons gap first front, back⟩

theorem Phrase.Series.append (front : Series phrase text left middle)
    (back : Series phrase middle right rest) :
    Series phrase text (left ++ right) rest := by
  induction front with
  | nil => exact back
  | cons gap first others inductionHypothesis =>
      exact .cons gap first (inductionHypothesis back)

theorem Phrase.Series.behind_gap {start : Text} {tree : Tree} {trees : List Tree}
    (gap : Gap text start) (series : Series phrase start (tree :: trees) rest) :
    Series phrase text (tree :: trees) rest := by
  cases series with
  | cons inner first others =>
      obtain ⟨run, rfl, space⟩ := gap
      obtain ⟨innerRun, rfl, innerSpace⟩ := inner
      refine .cons ⟨run ++ innerRun, (List.append_assoc _ _ _).symm, ?_⟩ first others
      intro character member
      exact (List.mem_append.mp member).elim (space character) (innerSpace character)

end Series

section Lexemes

variable {text rest name : Text} {lexemes : List Lexeme}

theorem Phrase.Series.behind_mark {character : Char}
    (series : Series OfLexeme text (mark character :: lexemes) rest) :
    ∃ behind, Gap text (character :: behind) ∧ Series OfLexeme behind lexemes rest := by
  cases series with
  | cons gap first others =>
      obtain ⟨rfl, _⟩ := first
      exact ⟨_, gap, others⟩

theorem Phrase.Series.behind_word (series : Series OfLexeme text (word name :: lexemes) rest)
    (isWord : IsWord name) :
    ∃ start behind, Gap text start ∧ Word start name behind ∧
      Series OfLexeme behind lexemes rest := by
  cases series with
  | cons gap first others =>
      obtain ⟨rfl, apart⟩ := first
      exact ⟨_, _, gap, ⟨isWord.1, rfl, isWord.2, apart rfl⟩, others⟩

theorem Phrase.Series.behind_title
    (series : Series OfLexeme text (title name :: lexemes) rest) (isWord : IsWord name) :
    ∃ opened behind, Gap text ('@' :: opened) ∧ Word opened name behind ∧
      Series OfLexeme behind lexemes rest := by
  cases series with
  | cons gap first others =>
      obtain ⟨rfl, apart⟩ := first
      exact ⟨_, _, gap, ⟨isWord.1, rfl, isWord.2, apart rfl⟩, others⟩

theorem Phrase.Series.behind_string {contents : Text}
    (series : Series OfLexeme text (string contents :: lexemes) rest) :
    ∃ behind, Gap text ('"' :: (contents ++ '"' :: behind)) ∧
      Series OfLexeme behind lexemes rest := by
  cases series with
  | @cons _ _ behind _ _ _ gap first others =>
      obtain ⟨rfl, _⟩ := first
      refine ⟨behind, ?_, others⟩
      rwa [Lexeme.text, List.cons_append, List.append_assoc] at gap

end Lexemes

/-! ## Yielding -/

section Yielding

variable {Tree : Type} {phrase : Phrase Tree}

/-- Wherever the lexemes stand, a phrase with a tree of some meaning stands,
behind white space. -/
def Yields (phrase : Phrase Tree) (meaning : Tree → Prop) (lexemes : List Lexeme) : Prop :=
  ∀ text rest, Series OfLexeme text lexemes rest →
    ∃ start tree, Gap text start ∧ phrase start tree rest ∧ meaning tree

/-- Wherever the lexemes stand, a series of phrases stands whose trees have some
meaning together. -/
def YieldsSeries (phrase : Phrase Tree) (meaning : List Tree → Prop)
    (lexemes : List Lexeme) : Prop :=
  ∀ text rest, Series OfLexeme text lexemes rest →
    ∃ trees, Series phrase text trees rest ∧ meaning trees

namespace YieldsSeries

theorem nil {meaning : List Tree → Prop} (holds : meaning []) :
    YieldsSeries phrase meaning [] := by
  intro text rest series
  cases series
  exact ⟨[], .nil, holds⟩

theorem append {front back whole : List Tree → Prop} {left right : List Lexeme}
    (first : YieldsSeries phrase front left) (second : YieldsSeries phrase back right)
    (joins : ∀ trees others, front trees → back others → whole (trees ++ others)) :
    YieldsSeries phrase whole (left ++ right) := by
  intro text rest series
  obtain ⟨middle, leftSeries, rightSeries⟩ := series.split
  obtain ⟨trees, found, means⟩ := first _ _ leftSeries
  obtain ⟨others, foundOthers, othersMean⟩ := second _ _ rightSeries
  exact ⟨trees ++ others, found.append foundOthers, joins trees others means othersMean⟩

/-- A series of phrases of one kind is a series of another kind that has them
among its own. -/
theorem map {Other : Type} {other : Phrase Other} {ofTree : Tree → Other}
    {meaning : List Tree → Prop} {result : List Other → Prop} {lexemes : List Lexeme}
    (yields : YieldsSeries phrase meaning lexemes)
    (among : ∀ {text tree rest}, phrase text tree rest → other text (ofTree tree) rest)
    (means : ∀ trees, meaning trees → result (trees.map ofTree)) :
    YieldsSeries other result lexemes := by
  intro text rest series
  obtain ⟨trees, found, holds⟩ := yields _ _ series
  refine ⟨trees.map ofTree, ?_, means trees holds⟩
  clear series holds
  induction found with
  | nil => exact .nil
  | cons gap first others inductionHypothesis => exact .cons gap (among first) inductionHypothesis

theorem braced {meaning : List Tree → Prop} {inner : List Lexeme}
    (yields : YieldsSeries phrase meaning inner) :
    Yields (Braced phrase) meaning (mark '\x7b' :: (inner ++ [mark '\x7d'])) := by
  intro text rest series
  obtain ⟨opened, gap, behind⟩ := series.behind_mark
  obtain ⟨last, innerSeries, closing⟩ := behind.split
  obtain ⟨_, closed, ended⟩ := closing.behind_mark
  cases ended
  obtain ⟨trees, found, holds⟩ := yields _ _ innerSeries
  exact ⟨_, trees, gap, ⟨opened, last, rfl, found, closed⟩, holds⟩

theorem titled {meaning : List Tree → Prop} {name : Text} {inner : List Lexeme}
    (yields : YieldsSeries phrase meaning inner) (isWord : IsWord name) :
    Yields (Titled phrase) (fun titled => titled.1 = name ∧ meaning titled.2)
      (block (word name) inner) := by
  intro text rest series
  obtain ⟨start, behind, gap, found, braces⟩ := series.behind_word isWord
  obtain ⟨opening, trees, between, given, holds⟩ := yields.braced _ _ braces
  exact ⟨start, (name, trees), gap, ⟨behind, opening, found, between, given⟩, rfl, holds⟩

end YieldsSeries

theorem YieldsSeries.imp {meaning weaker : List Tree → Prop} {lexemes : List Lexeme}
    (yields : YieldsSeries phrase meaning lexemes) (means : ∀ trees, meaning trees → weaker trees) :
    YieldsSeries phrase weaker lexemes := by
  intro text rest series
  obtain ⟨trees, found, holds⟩ := yields _ _ series
  exact ⟨trees, found, means trees holds⟩

theorem Yields.imp {meaning weaker : Tree → Prop} {lexemes : List Lexeme}
    (yields : Yields phrase meaning lexemes) (means : ∀ tree, meaning tree → weaker tree) :
    Yields phrase weaker lexemes := by
  intro text rest series
  obtain ⟨start, tree, gap, found, holds⟩ := yields _ _ series
  exact ⟨start, tree, gap, found, means tree holds⟩

theorem Yields.map {Other : Type} {other : Phrase Other} {ofTree : Tree → Other}
    {meaning : Tree → Prop} {result : Other → Prop} {lexemes : List Lexeme}
    (yields : Yields phrase meaning lexemes)
    (among : ∀ {text tree rest}, phrase text tree rest → other text (ofTree tree) rest)
    (means : ∀ tree, meaning tree → result (ofTree tree)) :
    Yields other result lexemes := by
  intro text rest series
  obtain ⟨start, tree, gap, found, holds⟩ := yields _ _ series
  exact ⟨start, ofTree tree, gap, among found, means tree holds⟩

/-- One phrase is a series. -/
theorem Yields.single {meaning : Tree → Prop} {means : List Tree → Prop}
    {lexemes : List Lexeme} (yields : Yields phrase meaning lexemes)
    (alone : ∀ tree, meaning tree → means [tree]) :
    YieldsSeries phrase means lexemes := by
  intro text rest series
  obtain ⟨start, tree, gap, found, holds⟩ := yields _ _ series
  exact ⟨[tree], .cons gap found .nil, alone tree holds⟩

/-- An at sign with a name before what an at-rule gives. -/
theorem Yields.titled {meaning : AtBody → Prop} {name : Text} {lexemes : List Lexeme}
    (yields : Yields OfAtBody meaning lexemes) (isWord : IsWord name) :
    Yields OfItem (fun item => ∃ body, item = .atRule name body ∧ meaning body)
      (title name :: lexemes) := by
  intro text rest series
  obtain ⟨opened, behind, gap, found, bodySeries⟩ := series.behind_title isWord
  obtain ⟨start, body, between, given, holds⟩ := yields _ _ bodySeries
  exact ⟨_, .atRule name body, gap,
    .atRule ⟨opened, behind, start, rfl, found, between, given⟩, body, rfl, holds⟩

end Yielding

end TerminalMarkup.Sheet
