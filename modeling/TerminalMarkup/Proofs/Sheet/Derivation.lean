import TerminalMarkup.Sheet.Grammar

/-!
Contract: the grammar of rule sheets, stated without readers.

A phrase of some kind relates a text to a tree and to the rest of the text: the
text is the phrase followed by the rest. Runs that are maximal see the rest, so
the relation can say where they end. Nothing here is ordered: where a sheet
allows two constructs, either constructor applies. What stands behind a phrase
is always a suffix of its text (`Phrase.OfItem.suffix`).

```text
sheet       = (ws item)* blank*
item        = atRule | word ws braces(entry)
atRule      = '@' word ws atBody
atBody      = braces(declaration) | assigned
entry       = word ws braces(declaration) | declaration
declaration = word ws assigned
assigned    = ':' ws value ws ';'
braces(x)   = an opening brace, (ws x)*, ws, a closing brace
```
-/

set_option autoImplicit false

namespace TerminalMarkup.Sheet

/-- A text is a phrase with a tree, followed by a rest. -/
abbrev Phrase (Tree : Type) := Text → Tree → Text → Prop

namespace Phrase

/-- A run of grammar white space, which may be empty and need not be maximal,
stands before the rest. -/
def Gap (text rest : Text) : Prop :=
  ∃ run : Text, text = run ++ rest ∧ ∀ character ∈ run, Text.isSpace character

/-- A run of characters of a class stands before the rest, and the rest does
not go on with the class. -/
def MaximalRun (inClass : Char → Bool) (text run rest : Text) : Prop :=
  text = run ++ rest ∧ (∀ character ∈ run, inClass character) ∧
    ∀ character ∈ rest.head?, ¬ inClass character

/-- A word: a maximal run of word characters that is not empty. -/
def Word : Phrase Text := fun text word rest =>
  word ≠ [] ∧ MaximalRun Text.isWordChar text word rest

/-- A text is another one with white space at its end, and that one has none
there. -/
def TrimsTo (text front : Text) : Prop :=
  ∃ blanks : Text, text = front ++ blanks ∧
    (∀ character ∈ blanks, Text.isBlank character) ∧
    ∀ character ∈ front.getLast?, ¬ Text.isBlank character

/-- A value: a quoted string without quotes inside, or a maximal run of
characters that do not end bare text, without the white space at its end. The
run is not empty and does not start with grammar white space. -/
inductive OfValue : Phrase Value where
  | quoted {contents rest : Text} (unquoted : '"' ∉ contents) :
      OfValue ('"' :: (contents ++ '"' :: rest)) (.quoted contents) rest
  | bare {text run front rest : Text} (nonempty : run ≠ [])
      (maximal : MaximalRun (!Reader.endsBare ·) text run rest)
      (start : ∀ character ∈ run.head?, ¬ Text.isSpace character)
      (trims : TrimsTo run front) :
      OfValue text (.bare front) rest

/-- A colon, a value and a semicolon, with gaps between them. -/
def Assigned : Phrase Value := fun text value rest =>
  ∃ opened start behind, text = ':' :: opened ∧ Gap opened start ∧
    OfValue start value behind ∧ Gap behind (';' :: rest)

section Repetition

variable {Tree : Type}

/-- Any number of phrases of one kind, each behind a gap. -/
inductive Series (phrase : Phrase Tree) : Phrase (List Tree) where
  | nil {text : Text} : Series phrase text [] text
  | cons {text start behind rest : Text} {tree : Tree} {trees : List Tree}
      (gap : Gap text start) (first : phrase start tree behind)
      (others : Series phrase behind trees rest) :
      Series phrase text (tree :: trees) rest

/-- A series between braces. -/
def Braced (phrase : Phrase Tree) : Phrase (List Tree) := fun text trees rest =>
  ∃ opened last, text = '\x7b' :: opened ∧ Series phrase opened trees last ∧
    Gap last ('\x7d' :: rest)

/-- A word and a series between braces. -/
def Titled (phrase : Phrase Tree) : Phrase (Text × List Tree) := fun text titled rest =>
  ∃ behind start, Word text titled.1 behind ∧ Gap behind start ∧
    Braced phrase start titled.2 rest

end Repetition

/-- A property with its value. -/
def OfDeclaration : Phrase Declaration := fun text declaration rest =>
  ∃ behind start, Word text declaration.property behind ∧ Gap behind start ∧
    Assigned start declaration.value rest

/-- An entry in the body of a rule. -/
inductive OfEntry : Phrase BodyEntry where
  | block {text name rest : Text} {declarations : List Declaration}
      (titled : Titled OfDeclaration text (name, declarations) rest) :
      OfEntry text (.block name declarations) rest
  | declaration {text rest : Text} {declaration : Declaration}
      (given : OfDeclaration text declaration rest) :
      OfEntry text (.declaration declaration) rest

/-- What an at-rule gives. -/
inductive OfAtBody : Phrase AtBody where
  | block {text rest : Text} {declarations : List Declaration}
      (braced : Braced OfDeclaration text declarations rest) :
      OfAtBody text (.block declarations) rest
  | value {text rest : Text} {value : Value} (assigned : Assigned text value rest) :
      OfAtBody text (.value value) rest

/-- An at sign, a word, and what the at-rule gives. -/
def OfAtRule : Phrase (Text × AtBody) := fun text named rest =>
  ∃ opened behind start, text = '@' :: opened ∧ Word opened named.1 behind ∧
    Gap behind start ∧ OfAtBody start named.2 rest

/-- An item of a sheet. -/
inductive OfItem : Phrase Item where
  | atRule {text name rest : Text} {body : AtBody}
      (given : OfAtRule text (name, body) rest) :
      OfItem text (.atRule name body) rest
  | rule {text name rest : Text} {body : List BodyEntry}
      (titled : Titled OfEntry text (name, body) rest) :
      OfItem text (.rule name body) rest

end Phrase

/-- A source is a sheet with some items: a series of items, and then nothing
but white space. -/
def Derives (source : Text) (items : List Item) : Prop :=
  ∃ rest, Phrase.Series Phrase.OfItem source items rest ∧
    ∀ character ∈ rest, Text.isBlank character

/-! ## Phrases stand before their rest -/

namespace Phrase

theorem Gap.suffix {text rest : Text} (gap : Gap text rest) : rest <:+ text := by
  obtain ⟨run, rfl, space⟩ := gap
  exact List.suffix_append run rest

theorem MaximalRun.suffix {inClass : Char → Bool} {text run rest : Text}
    (maximal : MaximalRun inClass text run rest) : rest <:+ text :=
  maximal.1 ▸ List.suffix_append run rest

theorem OfValue.suffix {text rest : Text} {tree : Value}
    (found : OfValue text tree rest) : rest <:+ text := by
  cases found with
  | @quoted contents _ unquoted => exact ⟨'"' :: (contents ++ ['"']), by simp⟩
  | bare nonempty maximal start trims => exact maximal.suffix

theorem Assigned.suffix {text rest : Text} {tree : Value}
    (found : Assigned text tree rest) : rest <:+ text := by
  obtain ⟨opened, start, behind, rfl, gap, value, closing⟩ := found
  exact (List.suffix_cons _ _).trans <| closing.suffix.trans <|
    value.suffix.trans <| gap.suffix.trans <| List.suffix_cons _ _

section Repetition

variable {Tree : Type} {phrase : Phrase Tree} {text rest : Text} {trees : List Tree}

theorem Series.suffix
    (each : ∀ {text tree rest}, phrase text tree rest → rest <:+ text)
    (series : Series phrase text trees rest) : rest <:+ text := by
  induction series with
  | nil => exact List.suffix_refl _
  | cons gap first others inductionHypothesis =>
      exact inductionHypothesis.trans ((each first).trans gap.suffix)

/-- Each tree of a series is given by a phrase that starts in the text. -/
theorem Series.exists_of_mem
    (each : ∀ {text tree rest}, phrase text tree rest → rest <:+ text)
    (series : Series phrase text trees rest) {tree : Tree} (member : tree ∈ trees) :
    ∃ start behind, start <:+ text ∧ phrase start tree behind := by
  induction series with
  | nil => cases member
  | @cons _ start behind _ _ _ gap first others inductionHypothesis =>
      rcases List.mem_cons.mp member with rfl | later
      · exact ⟨start, behind, gap.suffix, first⟩
      · obtain ⟨place, rest, within, found⟩ := inductionHypothesis later
        exact ⟨place, rest, within.trans ((each first).trans gap.suffix), found⟩

theorem Braced.suffix
    (each : ∀ {text tree rest}, phrase text tree rest → rest <:+ text)
    (found : Braced phrase text trees rest) : rest <:+ text := by
  obtain ⟨opened, last, rfl, series, closing⟩ := found
  exact (List.suffix_cons _ _).trans <| closing.suffix.trans <|
    (series.suffix each).trans <| List.suffix_cons _ _

theorem Titled.suffix {titled : Text × List Tree}
    (each : ∀ {text tree rest}, phrase text tree rest → rest <:+ text)
    (found : Titled phrase text titled rest) : rest <:+ text := by
  obtain ⟨behind, start, word, gap, braced⟩ := found
  exact (braced.suffix each).trans (gap.suffix.trans word.2.suffix)

end Repetition

theorem OfDeclaration.suffix {text rest : Text} {tree : Declaration}
    (found : OfDeclaration text tree rest) : rest <:+ text := by
  obtain ⟨behind, start, word, gap, assigned⟩ := found
  exact assigned.suffix.trans (gap.suffix.trans word.2.suffix)

theorem OfEntry.suffix {text rest : Text} {tree : BodyEntry}
    (found : OfEntry text tree rest) : rest <:+ text := by
  cases found with
  | block titled => exact titled.suffix OfDeclaration.suffix
  | declaration given => exact given.suffix

theorem OfAtBody.suffix {text rest : Text} {tree : AtBody}
    (found : OfAtBody text tree rest) : rest <:+ text := by
  cases found with
  | block braced => exact braced.suffix OfDeclaration.suffix
  | value assigned => exact assigned.suffix

theorem OfItem.suffix {text rest : Text} {tree : Item}
    (found : OfItem text tree rest) : rest <:+ text := by
  cases found with
  | atRule given =>
      obtain ⟨opened, behind, start, rfl, word, gap, body⟩ := given
      exact body.suffix.trans <| gap.suffix.trans <| word.2.suffix.trans <|
        List.suffix_cons _ _
  | rule titled => exact titled.suffix OfEntry.suffix

end Phrase

end TerminalMarkup.Sheet
