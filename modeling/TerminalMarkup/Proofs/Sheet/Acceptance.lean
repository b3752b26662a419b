import TerminalMarkup.Proofs.Sheet.Tokens
import TerminalMarkup.Sheet.Grammar

/-!
Contract: reading a sheet and deriving it from the grammar are the same.

A reader agrees with a kind of phrase when it gives exactly what the phrases
say. Agreement goes up from values to items. Where a reader tries one construct
before another one, no text starts with both, so the order does not matter; and
a repetition can stop only where no further phrase starts, because what closes
it starts none.
-/

set_option autoImplicit false

namespace TerminalMarkup.Sheet

open Phrase Reader

/-- A reader gives exactly what a kind of phrase says. A phrase begins with an
opening character, which is not white space, and takes up a part of the text. -/
structure Agrees {Tree : Type} (reader : Reader Tree) (phrase : Phrase Tree)
    (opener : Char → Bool) : Prop where
  eq_some_iff : ∀ {text tree rest}, reader text = some (tree, rest) ↔ phrase text tree rest
  opens : ∀ {text tree rest}, phrase text tree rest →
    ∃ first behind, text = first :: behind ∧ opener first
  solid : ∀ first, opener first → ¬ Text.isBlank first
  length_lt : ∀ {text tree rest}, phrase text tree rest → rest.length < text.length

namespace Agrees

variable {Tree : Type} {reader : Reader Tree} {phrase : Phrase Tree} {opener : Char → Bool}

/-- A reader gives nothing where no opening character stands. -/
theorem eq_none (agrees : Agrees reader phrase opener) {text : Text}
    (outside : ∀ first ∈ text.head?, ¬ opener first) :
    reader text = none := by
  cases result : reader text with
  | none => rfl
  | some found =>
      obtain ⟨first, behind, rfl, opening⟩ := agrees.opens (agrees.eq_some_iff.mp result)
      exact absurd opening (outside first rfl)

/-- Behind white space, a reader gives what the phrases behind a gap say. -/
theorem skipSpace_eq_some_iff (agrees : Agrees reader phrase opener) {text rest : Text}
    {tree : Tree} :
    reader (skipSpace text) = some (tree, rest) ↔
      ∃ start, Gap text start ∧ phrase start tree rest := by
  constructor
  · intro found
    exact ⟨skipSpace text, gap_skipSpace text, agrees.eq_some_iff.mp found⟩
  · rintro ⟨start, gap, found⟩
    obtain ⟨first, behind, rfl, opening⟩ := agrees.opens found
    have whole : first :: behind = skipSpace text := by
      apply gap.eq_skipSpace
      intro character member space
      rw [← Option.some.inj member] at space
      exact agrees.solid first opening (Text.isBlank_of_isSpace space)
    rw [← whole]
    exact agrees.eq_some_iff.mpr found

end Agrees

/-! ## Repetition -/

namespace Reader

variable {Tree : Type} {reader : Reader Tree}

theorem many_of_none {text : Text} (nothing : reader text = none) :
    many reader text = ([], text) := by
  rw [many, nothing]

theorem many_of_some {text rest : Text} {tree : Tree} (found : reader text = some (tree, rest))
    (shorter : rest.length < text.length) :
    many reader text = (tree :: (many reader rest).1, (many reader rest).2) := by
  rw [many, found]
  exact if_pos shorter

end Reader

section Repetition

variable {Tree : Type} {reader : Reader Tree} {phrase : Phrase Tree} {opener : Char → Bool}

theorem Phrase.Series.length_le
    (shorter : ∀ {text tree rest}, phrase text tree rest → rest.length < text.length)
    {text rest : Text} {trees : List Tree} (series : Series phrase text trees rest) :
    rest.length ≤ text.length := by
  induction series with
  | nil => exact Nat.le_refl _
  | cons gap first others inductionHypothesis =>
      have := gap.suffix.length_le
      have := shorter first
      omega

namespace Agrees

/-- A repetition reads a series, and stops where the reader gives nothing. -/
theorem series_many (agrees : Agrees reader phrase opener) (text : Text) :
    Series phrase text (many (spaced reader) text).1 (many (spaced reader) text).2 ∧
      reader (skipSpace (many (spaced reader) text).2) = none := by
  -- The induction is on the length, since a reader takes up some of the text.
  induction size : text.length using Nat.strongRecOn generalizing text with
  | ind length inductionHypothesis =>
      cases result : spaced reader text with
      | none =>
          rw [many_of_none result]
          exact ⟨.nil, result⟩
      | some found =>
          obtain ⟨tree, rest⟩ := found
          obtain ⟨start, gap, first⟩ := agrees.skipSpace_eq_some_iff.mp result
          have shorter : rest.length < text.length :=
            Nat.lt_of_lt_of_le (agrees.length_lt first) gap.suffix.length_le
          obtain ⟨others, stopped⟩ :=
            inductionHypothesis rest.length (size ▸ shorter) rest rfl
          rw [many_of_some result shorter]
          exact ⟨.cons gap first others, stopped⟩

theorem many_of_series (agrees : Agrees reader phrase opener) {text rest : Text}
    {trees : List Tree} (series : Series phrase text trees rest)
    (stopped : reader (skipSpace rest) = none) :
    many (spaced reader) text = (trees, rest) := by
  induction series with
  | nil => exact many_of_none stopped
  | @cons text start behind rest tree trees gap first others inductionHypothesis =>
      have found : spaced reader text = some (tree, behind) :=
        agrees.skipSpace_eq_some_iff.mpr ⟨start, gap, first⟩
      have shorter : behind.length < text.length :=
        Nat.lt_of_lt_of_le (agrees.length_lt first) gap.suffix.length_le
      rw [many_of_some found shorter, inductionHypothesis stopped]

/-- A repetition reads the series behind which the reader gives nothing. -/
theorem many_eq_iff (agrees : Agrees reader phrase opener) {text rest : Text}
    {trees : List Tree} :
    many (spaced reader) text = (trees, rest) ↔
      Series phrase text trees rest ∧ reader (skipSpace rest) = none := by
  constructor
  · intro reached
    have series := agrees.series_many text
    rw [reached] at series
    exact series
  · rintro ⟨series, stopped⟩
    exact agrees.many_of_series series stopped

/-- A character that opens no phrase stops a repetition. -/
theorem eq_none_of_gap (agrees : Agrees reader phrase opener) {closer : Char}
    (solid : ¬ Text.isSpace closer) (closing : ¬ opener closer) {text rest : Text}
    (gap : Gap text (closer :: rest)) :
    reader (skipSpace text) = none := by
  have closed : expect closer (skipSpace text) = some rest :=
    (expect_skipSpace_eq_some_iff solid).mpr gap
  rw [expect_eq_some_iff] at closed
  apply agrees.eq_none
  intro first member
  rw [closed, List.head?_cons, Option.mem_some_iff] at member
  rwa [← member]

theorem braced (agrees : Agrees reader phrase opener) (closing : ¬ opener '\x7d') :
    Agrees (Reader.braced reader) (Braced phrase) (· == '\x7b') where
  eq_some_iff := by
    intro text trees rest
    have solid : ¬ Text.isSpace '\x7d' := by decide
    simp only [Reader.braced, Option.bind_eq_bind, Option.bind_eq_some_iff, Option.pure_def,
      expect_eq_some_iff, expect_skipSpace_eq_some_iff solid, Option.some.injEq,
      Prod.mk.injEq]
    constructor
    · rintro ⟨opened, opening, behind, gap, rfl, rfl⟩
      exact ⟨opened, _, opening, (agrees.series_many opened).1, gap⟩
    · rintro ⟨opened, last, opening, series, gap⟩
      have reached : many (spaced reader) opened = (trees, last) :=
        agrees.many_eq_iff.mpr ⟨series, agrees.eq_none_of_gap solid closing gap⟩
      refine ⟨opened, opening, rest, ?_, ?_, rfl⟩
      · rw [reached]
        exact gap
      · rw [reached]
  opens := by
    rintro text trees rest ⟨opened, last, rfl, series, gap⟩
    exact ⟨_, opened, rfl, by decide⟩
  solid := by
    intro first opening
    rw [eq_of_beq opening]
    decide
  length_lt := by
    rintro text trees rest ⟨opened, last, rfl, series, gap⟩
    have inner := series.length_le agrees.length_lt
    have closed := gap.suffix.length_le
    simp only [List.length_cons] at closed ⊢
    omega

theorem titled (agrees : Agrees reader phrase opener) (closing : ¬ opener '\x7d') :
    Agrees (Reader.titled reader) (Titled phrase) Text.isWordChar where
  eq_some_iff := by
    rintro text ⟨name, trees⟩ rest
    simp only [Reader.titled, Option.bind_eq_bind, Option.bind_eq_some_iff, Option.pure_def,
      Prod.exists, identifier_eq_some_iff, (agrees.braced closing).skipSpace_eq_some_iff,
      Option.some.injEq, Prod.mk.injEq]
    constructor
    · rintro ⟨_, behind, word, _, _, ⟨start, gap, found⟩, ⟨rfl, rfl⟩, rfl⟩
      exact ⟨behind, start, word, gap, found⟩
    · rintro ⟨behind, start, word, gap, found⟩
      exact ⟨name, behind, word, trees, rest, ⟨start, gap, found⟩, ⟨rfl, rfl⟩, rfl⟩
  opens := by
    rintro text titled rest ⟨behind, start, word, gap, found⟩
    exact word.opens
  solid := fun _ letter blank => Text.not_isWordChar_of_isBlank blank letter
  length_lt := by
    rintro text titled rest ⟨behind, start, word, gap, found⟩
    have := word.length_lt
    have := gap.suffix.length_le
    have := (agrees.braced closing).length_lt found
    omega

end Agrees

end Repetition

/-! ## Values -/

/-- What is read where no white space stands is a value. -/
theorem ofValue_of_value {text rest : Text} {tree : Value}
    (solid : ∀ first ∈ text.head?, ¬ Text.isSpace first)
    (read : value text = some (tree, rest)) :
    OfValue text tree rest := by
  unfold value at read
  split at read
  · next contents behind quotes =>
    obtain ⟨unquoted, rfl⟩ := quoted_eq_some_iff.mp quotes
    obtain ⟨rfl, rfl⟩ := Prod.mk.inj (Option.some.inj read)
    exact .quoted unquoted
  · obtain ⟨⟨front, behind⟩, bareFound, same⟩ := Option.map_eq_some_iff.mp read
    obtain ⟨rfl, rfl⟩ := Prod.mk.inj same
    obtain ⟨run, nonempty, maximal, trims⟩ := bare_eq_some_iff.mp bareFound
    refine .bare nonempty maximal ?_ trims
    obtain ⟨first, others, rfl⟩ := List.exists_cons_of_ne_nil nonempty
    rw [maximal.1] at solid
    exact solid

/-- A value starts with no white space. -/
theorem Phrase.OfValue.solid {text rest : Text} {tree : Value}
    (given : OfValue text tree rest) :
    ∀ first ∈ text.head?, ¬ Text.isSpace first := by
  cases given with
  | quoted unquoted =>
      intro first member
      rw [← Option.some.inj member]
      decide
  | bare nonempty maximal start trims =>
      obtain ⟨first, others, rfl⟩ := List.exists_cons_of_ne_nil nonempty
      rw [maximal.1]
      exact start

theorem value_of_ofValue {text rest : Text} {tree : Value}
    (given : OfValue text tree rest) :
    value text = some (tree, rest) := by
  cases given with
  | quoted unquoted => rw [value, quoted_eq_some_iff.mpr ⟨unquoted, rfl⟩]
  | @bare _ run front _ nonempty maximal start trims =>
      -- A quotation mark would end the run before its first character.
      have plain : quoted text = none := by
        cases result : quoted text with
        | none => rfl
        | some found =>
            obtain ⟨unquoted, same⟩ := quoted_eq_some_iff.mp result
            obtain ⟨first, others, rfl⟩ := List.exists_cons_of_ne_nil nonempty
            rw [maximal.1] at same
            have quote : first = '"' := (List.cons.inj same).1
            have inside := maximal.2.1 first List.mem_cons_self
            rw [quote] at inside
            exact absurd inside (by decide)
      rw [value, plain, bare_eq_some_iff.mpr ⟨run, nonempty, maximal, trims⟩]
      rfl

/-- Behind white space, a value is read exactly as the phrases say. -/
theorem value_skipSpace_eq_some_iff {text rest : Text} {tree : Value} :
    value (skipSpace text) = some (tree, rest) ↔
      ∃ start, Gap text start ∧ OfValue start tree rest := by
  constructor
  · intro read
    refine ⟨skipSpace text, gap_skipSpace text, ofValue_of_value ?_ read⟩
    intro first member
    exact not_isSpace_of_mem_head?_skipSpace member
  · rintro ⟨start, gap, given⟩
    rw [← gap.eq_skipSpace given.solid]
    exact value_of_ofValue given

theorem agrees_assigned : Agrees assigned Assigned (· == ':') where
  eq_some_iff := by
    intro text tree rest
    simp only [assigned, Option.bind_eq_bind, Option.bind_eq_some_iff, Option.pure_def,
      Prod.exists, expect_eq_some_iff, value_skipSpace_eq_some_iff,
      expect_skipSpace_eq_some_iff (by decide : ¬ Text.isSpace ';'), Option.some.injEq,
      Prod.mk.injEq]
    constructor
    · rintro ⟨opened, rfl, _, behind, ⟨start, gap, found⟩, _, closing, rfl, rfl⟩
      exact ⟨opened, start, behind, rfl, gap, found, closing⟩
    · rintro ⟨opened, start, behind, rfl, gap, found, closing⟩
      exact ⟨opened, rfl, tree, behind, ⟨start, gap, found⟩, rest, closing, rfl, rfl⟩
  opens := by
    rintro text tree rest ⟨opened, start, behind, rfl, gap, found, closing⟩
    exact ⟨_, opened, rfl, by decide⟩
  solid := by
    intro first opening
    rw [eq_of_beq opening]
    decide
  length_lt := by
    rintro text tree rest ⟨opened, start, behind, rfl, gap, found, closing⟩
    have := gap.suffix.length_le
    have := found.suffix.length_le
    have closed := closing.suffix.length_le
    simp only [List.length_cons] at closed ⊢
    omega

theorem agrees_declaration : Agrees declaration OfDeclaration Text.isWordChar where
  eq_some_iff := by
    rintro text ⟨property, tree⟩ rest
    simp only [declaration, Option.bind_eq_bind, Option.bind_eq_some_iff, Option.pure_def,
      Prod.exists, identifier_eq_some_iff, agrees_assigned.skipSpace_eq_some_iff,
      Option.some.injEq, Prod.mk.injEq, Declaration.mk.injEq]
    constructor
    · rintro ⟨_, behind, word, _, _, ⟨start, gap, found⟩, ⟨rfl, rfl⟩, rfl⟩
      exact ⟨behind, start, word, gap, found⟩
    · rintro ⟨behind, start, word, gap, found⟩
      exact ⟨property, behind, word, tree, rest, ⟨start, gap, found⟩, ⟨rfl, rfl⟩, rfl⟩
  opens := by
    rintro text tree rest ⟨behind, start, word, gap, found⟩
    exact word.opens
  solid := fun _ letter blank => Text.not_isWordChar_of_isBlank blank letter
  length_lt := by
    rintro text tree rest ⟨behind, start, word, gap, found⟩
    have := word.length_lt
    have := gap.suffix.length_le
    have := agrees_assigned.length_lt found
    omega

theorem agrees_titled_declaration :
    Agrees (titled declaration) (Titled OfDeclaration) Text.isWordChar :=
  agrees_declaration.titled (by decide)

/-! ## Choices -/

/-- The phrases of a kind with another tree made of theirs. -/
def Phrase.map {Tree Other : Type} (ofTree : Tree → Other) (phrase : Phrase Tree) :
    Phrase Other := fun text other rest =>
  ∃ tree, phrase text tree rest ∧ ofTree tree = other

namespace Agrees

section Choice

variable {Tree : Type} {reader left right : Reader Tree}
variable {phrase leftPhrase rightPhrase : Phrase Tree}
variable {opener leftOpener rightOpener : Char → Bool}

theorem map {Other : Type} (agrees : Agrees reader phrase opener) (ofTree : Tree → Other) :
    Agrees (fun text => (reader text).map (Prod.map ofTree id)) (phrase.map ofTree)
      opener where
  eq_some_iff := by
    intro text other rest
    simp only [Option.map_eq_some_iff, Prod.exists, Prod.map_apply, id_eq, Prod.mk.injEq,
      agrees.eq_some_iff]
    constructor
    · rintro ⟨tree, _, given, same, rfl⟩
      exact ⟨tree, given, same⟩
    · rintro ⟨tree, given, same⟩
      exact ⟨tree, rest, given, same, rfl⟩
  opens := fun ⟨_, given, _⟩ => agrees.opens given
  solid := agrees.solid
  length_lt := fun ⟨_, given, _⟩ => agrees.length_lt given

/-- Where no text starts with phrases of two kinds, trying one before the other
is a choice between them. -/
theorem or (first : Agrees left leftPhrase leftOpener)
    (second : Agrees right rightPhrase rightOpener)
    (apart : ∀ {text leftTree leftRest rightTree rightRest},
      leftPhrase text leftTree leftRest → ¬ rightPhrase text rightTree rightRest) :
    Agrees (fun text => (left text).or (right text))
      (fun text tree rest => leftPhrase text tree rest ∨ rightPhrase text tree rest)
      (fun character => leftOpener character || rightOpener character) where
  eq_some_iff := by
    intro text tree rest
    rw [Option.or_eq_some_iff, first.eq_some_iff, second.eq_some_iff]
    constructor
    · rintro (given | ⟨_, given⟩)
      · exact .inl given
      · exact .inr given
    · rintro (given | given)
      · exact .inl given
      · refine .inr ⟨?_, given⟩
        cases result : left text with
        | none => rfl
        | some found => exact absurd given (apart (first.eq_some_iff.mp result))
  opens := by
    rintro text tree rest (given | given)
    · obtain ⟨character, behind, same, opening⟩ := first.opens given
      exact ⟨character, behind, same, by rw [opening, Bool.true_or]⟩
    · obtain ⟨character, behind, same, opening⟩ := second.opens given
      exact ⟨character, behind, same, by rw [opening, Bool.or_true]⟩
  solid := by
    intro character opening
    rcases (Bool.or_eq_true _ _).mp opening with opening | opening
    · exact first.solid character opening
    · exact second.solid character opening
  length_lt := by
    rintro text tree rest (given | given)
    · exact first.length_lt given
    · exact second.length_lt given

theorem congr {otherReader : Reader Tree} {otherPhrase : Phrase Tree}
    (agrees : Agrees reader phrase opener) (readers : ∀ text, otherReader text = reader text)
    (phrases : ∀ text tree rest, otherPhrase text tree rest ↔ phrase text tree rest) :
    Agrees otherReader otherPhrase opener := by
  have sameReader : otherReader = reader := funext readers
  have samePhrase : otherPhrase = phrase := by
    funext text tree rest
    exact propext (phrases text tree rest)
  rw [sameReader, samePhrase]
  exact agrees

end Choice

end Agrees

theorem Phrase.Titled.not_ofDeclaration {Tree : Type} {phrase : Phrase Tree}
    {text titledRest rest : Text} {titled : Text × List Tree} {declaration : Declaration}
    (titledFound : Titled phrase text titled titledRest) :
    ¬ OfDeclaration text declaration rest := by
  rintro ⟨behind, start, word, gap, opened, valueStart, valueBehind, rfl, given⟩
  obtain ⟨titledBehind, titledStart, titledWord, titledGap, inner, last, rfl, braced⟩ :=
    titledFound
  -- Behind the same word and the same gap stands a brace or a colon, not both.
  obtain ⟨_, rfl⟩ := word.unique titledWord
  have colon := gap.eq_skipSpace (by simp [Text.isSpace])
  have brace := titledGap.eq_skipSpace (by simp [Text.isSpace])
  have same := (List.cons.inj (colon.trans brace.symm)).1
  exact absurd same (by decide)

theorem Phrase.Braced.not_assigned {Tree : Type} {phrase : Phrase Tree}
    {text bracedRest rest : Text} {trees : List Tree} {value : Value}
    (braced : Braced phrase text trees bracedRest) :
    ¬ Assigned text value rest := by
  rintro ⟨opened, start, behind, rfl, given⟩
  obtain ⟨inner, last, same, series⟩ := braced
  exact absurd (List.cons.inj same).1 (by decide)

/-! ## Entries -/

theorem agrees_bodyEntry : Agrees bodyEntry OfEntry Text.isWordChar := by
  have either := (agrees_titled_declaration.map
      fun titled => BodyEntry.block titled.1 titled.2).or
    (agrees_declaration.map BodyEntry.declaration)
    (by
      rintro text _ _ _ _ ⟨titled, titledFound, _⟩ ⟨declaration, given, _⟩
      exact titledFound.not_ofDeclaration given)
  simp only [Bool.or_self] at either
  refine either.congr ?_ ?_
  · intro text
    unfold bodyEntry
    cases titled declaration text with
    | none => rfl
    | some found => rfl
  · intro text tree rest
    constructor
    · intro found
      cases found with
      | block titled => exact .inl ⟨_, titled, rfl⟩
      | declaration given => exact .inr ⟨_, given, rfl⟩
    · rintro (⟨titled, found, rfl⟩ | ⟨declaration, given, rfl⟩)
      · exact .block found
      · exact .declaration given

theorem agrees_titled_bodyEntry :
    Agrees (titled bodyEntry) (Titled OfEntry) Text.isWordChar :=
  agrees_bodyEntry.titled (by decide)

/-! ## At-rules and items -/

theorem agrees_atBody :
    Agrees atBody OfAtBody fun first => first == '\x7b' || first == ':' := by
  have either := ((agrees_declaration.braced (by decide)).map AtBody.block).or
    (agrees_assigned.map AtBody.value)
    (by
      rintro text _ _ _ _ ⟨declarations, braced, _⟩ ⟨value, given, _⟩
      exact braced.not_assigned given)
  refine either.congr ?_ ?_
  · intro text
    unfold atBody
    cases braced declaration text with
    | none => rfl
    | some found => rfl
  · intro text tree rest
    constructor
    · intro found
      cases found with
      | block braced => exact .inl ⟨_, braced, rfl⟩
      | value assigned => exact .inr ⟨_, assigned, rfl⟩
    · rintro (⟨declarations, braced, rfl⟩ | ⟨value, assigned, rfl⟩)
      · exact .block braced
      · exact .value assigned

theorem agrees_atRule :
    Agrees atRule (OfAtRule.map fun named => Item.atRule named.1 named.2) (· == '@') where
  eq_some_iff := by
    intro text item rest
    simp only [atRule, Option.bind_eq_bind, Option.bind_eq_some_iff, Option.pure_def,
      Prod.exists, expect_eq_some_iff, identifier_eq_some_iff,
      agrees_atBody.skipSpace_eq_some_iff, Option.some.injEq, Prod.mk.injEq]
    constructor
    · rintro ⟨opened, rfl, name, behind, word, body, _, ⟨start, gap, found⟩, same, rfl⟩
      exact ⟨(name, body), ⟨opened, behind, start, rfl, word, gap, found⟩, same⟩
    · rintro ⟨⟨name, body⟩, ⟨opened, behind, start, rfl, word, gap, found⟩, same⟩
      exact ⟨opened, rfl, name, behind, word, body, rest, ⟨start, gap, found⟩, same, rfl⟩
  opens := by
    rintro text item rest ⟨named, ⟨opened, behind, start, rfl, given⟩, same⟩
    exact ⟨_, opened, rfl, by decide⟩
  solid := by
    intro first opening
    rw [eq_of_beq opening]
    decide
  length_lt := by
    rintro text item rest ⟨named, ⟨opened, behind, start, rfl, word, gap, found⟩, same⟩
    have := word.length_lt
    have := gap.suffix.length_le
    have := agrees_atBody.length_lt found
    rw [List.length_cons]
    omega

theorem agrees_item :
    Agrees item OfItem fun first => first == '@' || Text.isWordChar first := by
  have either := agrees_atRule.or
    (agrees_titled_bodyEntry.map fun titled => Item.rule titled.1 titled.2)
    (by
      rintro text _ _ _ _ ⟨named, ⟨opened, behind, start, rfl, given⟩, _⟩ ⟨titled, found, _⟩
      obtain ⟨first, others, same, letter⟩ := agrees_titled_bodyEntry.opens found
      rw [← (List.cons.inj same).1] at letter
      exact absurd letter (by decide))
  refine either.congr ?_ ?_
  · intro text
    unfold item
    cases atRule text with
    | none => rfl
    | some found => rfl
  · intro text tree rest
    constructor
    · intro found
      cases found with
      | atRule given => exact .inl ⟨_, given, rfl⟩
      | rule titled => exact .inr ⟨_, titled, rfl⟩
    · rintro (⟨named, given, rfl⟩ | ⟨titled, found, rfl⟩)
      · exact .atRule given
      · exact .rule found

/-! ## Sheets -/

/-- No item starts in white space. -/
theorem item_skipSpace_eq_none {rest : Text}
    (blank : ∀ character ∈ rest, Text.isBlank character) :
    item (skipSpace rest) = none := by
  apply agrees_item.eq_none
  intro first member opening
  have inside : first ∈ rest :=
    (List.dropWhile_sublist Text.isSpace).subset (List.mem_of_mem_head? member)
  exact agrees_item.solid first opening (blank first inside)

theorem items_of_blank {source behind : Text} {found : List Item}
    (read : many (spaced item) source = (found, behind)) (blank : Text.trimStart behind = []) :
    items source = .ok found := by
  unfold items
  rw [read]
  simp only [blank]

theorem items_of_not_blank {source behind : Text} {found : List Item}
    (read : many (spaced item) source = (found, behind)) (more : Text.trimStart behind ≠ []) :
    items source = .error (syntaxErrorAt source (Text.trimStart behind)) := by
  unfold items
  rw [read]
  dsimp only
  split
  · next blank => exact absurd blank more
  · rfl

theorem items_eq_ok_iff {source : Text} {found : List Item} :
    items source = .ok found ↔ Derives source found := by
  constructor
  · intro read
    have series := (agrees_item.series_many source).1
    by_cases blank : Text.trimStart (many (spaced item) source).2 = []
    · rw [items_of_blank rfl blank] at read
      rw [← Except.ok.inj read]
      exact ⟨_, series, Text.trimStart_eq_nil_iff.mp blank⟩
    · rw [items_of_not_blank rfl blank] at read
      exact absurd read (by simp)
  · rintro ⟨rest, derived, blank⟩
    have reached : many (spaced item) source = (found, rest) :=
      agrees_item.many_eq_iff.mpr ⟨derived, item_skipSpace_eq_none blank⟩
    exact items_of_blank reached (Text.trimStart_eq_nil_iff.mpr blank)

/-- Reading a sheet gives the items that the grammar derives, and a syntax error
where the grammar derives none. A source derives one list of items at most. -/
theorem items_eq_ok_iff_derives (source : Text) :
    (∀ found, items source = .ok found ↔ Derives source found) ∧
      ((∀ found, ¬ Derives source found) →
        ∃ line snippet, items source = .error (.syntaxError line snippet)) ∧
      ∀ found other, Derives source found → Derives source other → found = other := by
  refine ⟨fun found => items_eq_ok_iff, ?_, ?_⟩
  · intro underivable
    by_cases blank : Text.trimStart (many (spaced item) source).2 = []
    · exact absurd (items_eq_ok_iff.mp (items_of_blank rfl blank)) (underivable _)
    · exact ⟨_, _, items_of_not_blank rfl blank⟩
  · intro found other derived otherDerived
    have read := items_eq_ok_iff.mpr derived
    rw [items_eq_ok_iff.mpr otherDerived] at read
    exact (Except.ok.inj read).symm

end TerminalMarkup.Sheet
