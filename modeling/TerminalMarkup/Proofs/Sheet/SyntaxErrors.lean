import TerminalMarkup.Proofs.Sheet.Acceptance
import TerminalMarkup.Proofs.Sheet.KeptLines

/-!
Contract: where a syntax error points.

The items of a sheet are read as long as there are more, so what is left starts
behind the longest run of complete items (`length_le_of_series`). A syntax error
names the line of the first character there that is no white space, and shows
what stands in that line from there on (`items_eq_error_iff`). Its number is the
number of the line in the source, because preprocessing keeps lines where they
are.
-/

set_option autoImplicit false

namespace TerminalMarkup.Sheet

open Phrase Reader

/-! ## The longest run of items -/

/-- No series goes further than the repetition of its reader. -/
theorem Agrees.length_le_of_series {Tree : Type} {reader : Reader Tree} {phrase : Phrase Tree}
    {opener : Char → Bool} (agrees : Agrees reader phrase opener) {text rest : Text}
    {trees : List Tree} (series : Series phrase text trees rest) :
    (many (spaced reader) text).2.length ≤ rest.length := by
  induction series with
  | @nil text => exact (agrees.series_many text).1.length_le agrees.length_lt
  | @cons text start behind rest tree trees gap first others inductionHypothesis =>
      have found : spaced reader text = some (tree, behind) :=
        agrees.skipSpace_eq_some_iff.mpr ⟨start, gap, first⟩
      have shorter : behind.length < text.length :=
        Nat.lt_of_lt_of_le (agrees.length_lt first) gap.suffix.length_le
      rw [many_of_some found shorter]
      exact inductionHypothesis

/-- Reading a text stops before a character that is no white space. Only white
space lies between this character and the longest front of the text that is made
of complete items. -/
def StopsAt (text before : Text) (first : Char) (rest : Text) : Prop :=
  text = before ++ first :: rest ∧ ¬ Text.isBlank first ∧
    ∃ front blanks items, before = front ++ blanks ∧
      (∀ character ∈ blanks, Text.isBlank character) ∧
      Series OfItem text items (blanks ++ first :: rest) ∧
      ∀ others behind, Series OfItem text others behind →
        (blanks ++ first :: rest).length ≤ behind.length

/-! ## What is shown of a line -/

/-- The first line of a text is what stands before the first line feed, perhaps
without a carriage return at its end. -/
theorem takeWhile_feed_eq_headD_lines (text : Text) :
    ∃ tail, (tail = [] ∨ tail = ['\r']) ∧
      text.takeWhile (· ≠ '\n') = (Text.lines text).headD [] ++ tail := by
  fun_induction Text.lines text with
  | case1 => exact ⟨[], .inl rfl, rfl⟩
  | case2 rest inductionHypothesis => exact ⟨[], .inl rfl, rfl⟩
  | case3 rest inductionHypothesis => exact ⟨['\r'], .inr rfl, rfl⟩
  | case4 character rest notFeed notReturn noLines inductionHypothesis =>
      obtain rfl := Text.lines_eq_nil_iff.mp noLines
      refine ⟨[], .inl rfl, ?_⟩
      rw [List.takeWhile_cons_of_pos (by simpa using notFeed)]
      rfl
  | case5 character rest notFeed notReturn line others split inductionHypothesis =>
      obtain ⟨tail, atEnd, same⟩ := inductionHypothesis
      refine ⟨tail, atEnd, ?_⟩
      rw [split] at same
      rw [List.takeWhile_cons_of_pos (by simpa using notFeed), same]
      rfl

theorem trimEnd_append_blanks {text blanks : Text}
    (blank : ∀ character ∈ blanks, Text.isBlank character) :
    Text.trimEnd (text ++ blanks) = Text.trimEnd text := by
  obtain ⟨others, whole, otherBlank, solid⟩ := trimsTo_trimEnd text
  refine (trimsTo_iff.mp ⟨others ++ blanks, ?_, ?_, solid⟩).symm
  · rw [← List.append_assoc, ← whole]
  · exact List.forall_mem_append.mpr ⟨otherBlank, blank⟩

/-- The end of a line is not shown, so that a carriage return there does not
matter. -/
theorem trimEnd_take_headD_lines (text : Text) (count : Nat) :
    Text.trimEnd (((Text.lines text).headD []).take count) =
      Text.trimEnd ((text.takeWhile (· ≠ '\n')).take count) := by
  obtain ⟨tail, atEnd, same⟩ := takeWhile_feed_eq_headD_lines text
  have blank : ∀ character ∈ tail, Text.isBlank character := by
    rcases atEnd with rfl | rfl <;> decide
  rw [same, List.take_append]
  refine (trimEnd_append_blanks ?_).symm
  intro character member
  exact blank character (List.mem_of_mem_take member)

theorem syntaxErrorAt_append (before rest : Text) :
    syntaxErrorAt (before ++ rest) rest =
      .syntaxError (Text.lineFeeds before + 1)
        (Text.trimEnd ((rest.takeWhile (· ≠ '\n')).take snippetLength)) := by
  rw [syntaxErrorAt, trimEnd_take_headD_lines, List.length_append, Nat.add_sub_cancel,
    List.take_left]

/-- A text that is not white space is white space with something solid behind it. -/
theorem trimStart_eq_cons_iff {text rest : Text} {first : Char} :
    Text.trimStart text = first :: rest ↔
      ¬ Text.isBlank first ∧
        ∃ blanks, text = blanks ++ first :: rest ∧
          ∀ character ∈ blanks, Text.isBlank character := by
  constructor
  · intro shown
    refine ⟨?_, text.takeWhile Text.isBlank, ?_, ?_⟩
    · have solid := List.head?_dropWhile_not Text.isBlank text
      rw [← Text.trimStart, shown] at solid
      simpa using solid
    · rw [← shown, Text.trimStart, List.takeWhile_append_dropWhile]
    · exact fun character member => List.mem_takeWhile_imp member
  · rintro ⟨solid, blanks, rfl, blank⟩
    rw [Text.trimStart, List.dropWhile_append_of_pos blank, List.dropWhile_cons_of_neg solid]

/-- A text of which reading stops somewhere is read up to that place. -/
theorem stopsAt_iff {text before rest : Text} {first : Char} :
    StopsAt text before first rest ↔
      text = before ++ first :: rest ∧
        Text.trimStart (many (spaced item) text).2 = first :: rest := by
  have series := (agrees_item.series_many text).1
  rw [trimStart_eq_cons_iff]
  constructor
  · rintro ⟨whole, solid, front, blanks, found, rfl, blank, given, longest⟩
    have same : blanks ++ first :: rest = (many (spaced item) text).2 := by
      have long := longest _ _ series
      have short := agrees_item.length_le_of_series given
      have suffix := List.suffix_of_suffix_length_le (series.suffix OfItem.suffix)
        (given.suffix OfItem.suffix) short
      exact (suffix.eq_of_length (by omega)).symm
    exact ⟨whole, solid, blanks, same.symm, blank⟩
  · rintro ⟨whole, solid, blanks, same, blank⟩
    obtain ⟨front, split⟩ := series.suffix OfItem.suffix
    rw [same] at split
    refine ⟨whole, solid, front, blanks, (many (spaced item) text).1, ?_, blank, ?_, ?_⟩
    · rw [whole, ← List.append_assoc] at split
      exact (List.append_cancel_right split).symm
    · rw [← same]
      exact series
    · intro others behind given
      rw [← same]
      exact agrees_item.length_le_of_series given

/-- The items of a text cannot be read exactly if reading stops somewhere, and the
error points at that place. -/
theorem items_eq_error_iff {text : Text} {cause : SheetError} :
    items text = .error cause ↔
      ∃ before first rest, StopsAt text before first rest ∧
        cause = .syntaxError (Text.lineFeeds before + 1)
          (Text.trimEnd (((first :: rest).takeWhile (· ≠ '\n')).take snippetLength)) := by
  constructor
  · intro failed
    by_cases blank : Text.trimStart (many (spaced item) text).2 = []
    · rw [items_of_blank rfl blank] at failed
      cases failed
    · obtain ⟨first, rest, shown⟩ := List.exists_cons_of_ne_nil blank
      obtain ⟨before, whole⟩ : first :: rest <:+ text := by
        rw [← shown]
        exact (List.dropWhile_suffix _).trans
          ((agrees_item.series_many text).1.suffix OfItem.suffix)
      refine ⟨before, first, rest, stopsAt_iff.mpr ⟨whole.symm, shown⟩, ?_⟩
      rw [items_of_not_blank rfl blank, shown, ← whole, syntaxErrorAt_append] at failed
      exact (Except.error.inj failed).symm
  · rintro ⟨before, first, rest, stops, rfl⟩
    obtain ⟨whole, shown⟩ := stopsAt_iff.mp stops
    have more : Text.trimStart (many (spaced item) text).2 ≠ [] := by
      rw [shown]
      exact List.cons_ne_nil first rest
    rw [items_of_not_blank rfl more, shown, whole, syntaxErrorAt_append]

/-! ## The line of the author -/

theorem message_syntaxError (line : Nat) (snippet : Text) :
    (SheetError.syntaxError line snippet).message =
      "rule sheet syntax error: ".toList ++
        ("unexpected input on line ".toList ++ Text.ofNat line ++ ": ".toList ++ snippet) := by
  have split : "rule sheet syntax error: unexpected input on line ".toList =
      "rule sheet syntax error: ".toList ++ "unexpected input on line ".toList := by
    decide +kernel
  show "rule sheet syntax error: unexpected input on line ".toList ++ Text.ofNat line ++
    ": ".toList ++ snippet = _
  simp only [split, List.append_assoc]

theorem parse_eq_syntaxError_iff {source snippet : Text} {line : Nat} :
    Sheet.parse source = .error (.syntaxError line snippet) ↔
      ∃ processed, preprocess source = .ok processed ∧
        items processed = .error (.syntaxError line snippet) := by
  unfold Sheet.parse
  rw [bind_eq_error_iff]
  constructor
  · rintro (early | ⟨processed, ready, later⟩)
    · obtain ⟨name, _, cause⟩ := exists_name_of_resolveLines early
      cases cause
    · rcases bind_eq_error_iff.mp later with failed | ⟨found, _, done⟩
      · exact ⟨processed, ready, failed⟩
      · cases done
  · rintro ⟨processed, ready, failed⟩
    exact .inr ⟨processed, ready, bind_eq_error_iff.mpr (.inl failed)⟩

/-- A line of a source through preprocessing: it is freed of its comments, and its
references are replaced. -/
def LineAt (source : Text) (place : Nat) (processed : Text) : Prop :=
  ∃ original written, (source.splitOn '\n')[place]? = some original ∧
    (Text.lines (stripComments source))[place]? = some written ∧ written.Sublist original ∧
    ResolvesTo (extractVariables (stripComments source)) written processed

/-- The line in which reading stops comes from the line of the source with its
number. -/
theorem StopsAt.lineAt {source processed before rest : Text} {first : Char}
    (ready : preprocess source = .ok processed) (stops : StopsAt processed before first rest) :
    ∃ front, front <:+ before ∧
      LineAt source (Text.lineFeeds before)
        (front ++ (first :: rest).takeWhile (· ≠ '\n')) := by
  obtain ⟨resolved, rfl, oneLine, related⟩ := forall₂_of_resolveVariables ready
  have inLine : first ≠ '\n' := by
    rintro rfl
    exact stops.2.1 (by decide)
  obtain ⟨front, atEnd, shown⟩ := Text.exists_line_of_endLines oneLine inLine stops.1
  obtain ⟨written, stripped, made⟩ := exists_of_forall₂_getElem? related shown
  obtain ⟨kept, keptPlace, ends⟩ := Text.exists_splitOn_of_lines stripped
  have inKept : written.Sublist kept := by
    rcases ends with rfl | rfl
    · exact List.Sublist.refl _
    · exact List.sublist_append_left _ _
  obtain ⟨original, place, inOriginal⟩ := exists_of_forall₂_getElem?
    (keepsLines_stripComments source).forall₂_splitOn.flip keptPlace
  exact ⟨front, atEnd, original, written, place, stripped, inKept.trans inOriginal, made⟩

/-- A syntax error points at the line of the author. The repetition of items never
fails itself, since an item takes up some text. A source is refused for its syntax
exactly if reading what preprocessing gives stops before its end; the error counts
the line feeds before that place and shows 40 characters from there on. The number
is the number of the line in the source: removing comments keeps the line feeds
and only deletes characters, so that every character that stays is behind as many
line feeds as before, and replacing references makes one line of each line. -/
theorem syntaxError_points_at_line (source : Text) :
    (∀ text found rest, spaced item text = some (found, rest) → rest.length < text.length) ∧
    (∀ line snippet, Sheet.parse source = .error (.syntaxError line snippet) ↔
      ∃ processed before first rest, preprocess source = .ok processed ∧
        StopsAt processed before first rest ∧ line = Text.lineFeeds before + 1 ∧
        snippet = Text.trimEnd (((first :: rest).takeWhile (· ≠ '\n')).take 40)) ∧
    (∀ line snippet, (SheetError.syntaxError line snippet).message =
      "rule sheet syntax error: ".toList ++
        ("unexpected input on line ".toList ++ Text.ofNat line ++ ": ".toList ++ snippet)) ∧
    (∀ processed before first rest, preprocess source = .ok processed →
      StopsAt processed before first rest →
      ∃ front, front <:+ before ∧
        LineAt source (Text.lineFeeds before)
          (front ++ (first :: rest).takeWhile (· ≠ '\n'))) ∧
    Text.KeepsLines source (stripComments source) ∧
    (∀ front character back, stripComments source = front ++ character :: back →
      ∃ before behind, source = before ++ character :: behind ∧
        Text.KeepsLines before front ∧ Text.KeepsLines behind back ∧
        Text.lineFeeds before = Text.lineFeeds front) ∧
    ∀ text processed, resolveVariables text (extractVariables text) = .ok processed →
      ∃ resolved, processed = Text.endLines resolved ∧ (∀ line ∈ resolved, '\n' ∉ line) ∧
        List.Forall₂ (ResolvesTo (extractVariables text)) (Text.lines text) resolved := by
  refine ⟨?_, ?_, message_syntaxError, fun _ _ _ _ => StopsAt.lineAt,
    keepsLines_stripComments source, ?_, fun _ _ => forall₂_of_resolveVariables⟩
  · intro text found rest read
    obtain ⟨start, gap, given⟩ := agrees_item.skipSpace_eq_some_iff.mp read
    exact Nat.lt_of_lt_of_le (agrees_item.length_lt given) gap.suffix.length_le
  · intro line snippet
    simp only [parse_eq_syntaxError_iff, items_eq_error_iff, SheetError.syntaxError.injEq,
      snippetLength, exists_and_left]
  · intro front character back whole
    obtain ⟨before, behind, same, keptBefore, keptBehind⟩ :=
      (keepsLines_stripComments source).exists_place whole
    exact ⟨before, behind, same, keptBefore, keptBehind, keptBefore.lineFeeds_eq⟩

/-- A source with a comment over two lines, a variable, and a rule that is not
closed. -/
def unclosedRule : Text :=
  "/* two\nlines */\n$color: red;\nname \x7b fg: $color;\n".toList

theorem unclosedRule_points_at_line_four :
    Sheet.parse unclosedRule = .error (.syntaxError 4 "name \x7b fg: red;".toList) ∧
      ∃ before first rest, 4 = Text.lineFeeds before + 1 ∧
        ∃ front, front <:+ before ∧
          LineAt unclosedRule (Text.lineFeeds before)
            (front ++ (first :: rest).takeWhile (· ≠ '\n')) := by
  have pointing := syntaxError_points_at_line unclosedRule
  have failed : Sheet.parse unclosedRule =
      .error (.syntaxError 4 "name \x7b fg: red;".toList) := by decide +kernel
  obtain ⟨processed, before, first, rest, ready, stops, line, _⟩ :=
    (pointing.2.1 _ _).mp failed
  exact ⟨failed, before, first, rest, line,
    pointing.2.2.2.1 processed before first rest ready stops⟩

end TerminalMarkup.Sheet
