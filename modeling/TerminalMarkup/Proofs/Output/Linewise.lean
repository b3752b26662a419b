import TerminalMarkup.Printer
import TerminalMarkup.Proofs.Rendering.Stripping
import TerminalMarkup.Proofs.Scanning.Separation

/-!
Contract: output line by line.

Where no marker contains a line feed, a line feed separates the scan of a text.
Without markup a text is the literal text of its division, so its lines can be
stripped one by one. Styling cannot be taken apart like that, because rules stay
open across lines; but a line feed behind a text is literal text and nothing
else, so it makes no difference whether it is printed with the text or added to
what the text renders to.
-/

set_option autoImplicit false

namespace TerminalMarkup

/-! ## Literal text -/

/-- The literal text of a division, its markers left out. -/
def Division.literal (division : Division) : Text :=
  division.pieces.flatMap Piece.lead ++ division.remainder

theorem Division.literal_join (first second : Division) (between : Text) :
    (first.join between second).literal = first.literal ++ (between ++ second.literal) := by
  obtain ⟨pieces, remainder⟩ := second
  cases pieces with
  | nil => simp [join, literal]
  | cons piece others => simp [join, literal]

theorem Token.flatMap_literal_ofLiteral (stretch : Text) :
    (ofLiteral stretch).flatMap literal = stretch := by
  unfold ofLiteral
  split
  · next empty => exact empty.symm
  · simp [literal]

theorem Mark.literal_token (mark : Mark) : mark.token.literal = [] := by
  cases mark <;> rfl

theorem Division.flatMap_literal_tokens (division : Division) :
    division.tokens.flatMap Token.literal = division.literal := by
  have pieces : (division.pieces.flatMap Piece.tokens).flatMap Token.literal =
      division.pieces.flatMap Piece.lead := by
    rw [List.flatMap_assoc]
    apply List.flatMap_congr
    intro piece _
    simp [Piece.tokens, Token.flatMap_literal_ofLiteral, Mark.literal_token]
  rw [tokens, List.flatMap_append, pieces, Token.flatMap_literal_ofLiteral, literal]

theorem MarkerSet.divide_nil (set : MarkerSet) : set.divide [] = ⟨[], []⟩ := by
  rw [divide, Division.ofWatches]

namespace RuleSet

/-- What is left of a text without its markup is the literal text of its
division. -/
theorem strip_eq_literal (rules : RuleSet) (text : Text) :
    rules.strip text = (rules.markers.divide text).literal := by
  unfold strip renderText render
  rw [flatMap_written_plain]
  exact Division.flatMap_literal_tokens _

/-- A literal stretch is written as it is, whatever rules are open. -/
theorem flatMap_written_emissions_ofLiteral (rules : RuleSet) (rendition : Rendition)
    (stack : OpenRules) (stretch : Text) :
    (rules.emissions stack (Token.ofLiteral stretch)).flatMap (Emission.written rendition) =
      stretch := by
  unfold Token.ofLiteral
  split
  · next empty => exact empty.symm
  · simp [emissions, step, Emission.written]

/-- The literal text behind the last marker is written last. -/
theorem render_tokens (rules : RuleSet) (rendition : Rendition) (division : Division) :
    rules.render rendition division.tokens =
      rules.render rendition (division.pieces.flatMap Piece.tokens) ++ division.remainder := by
  unfold render Division.tokens
  rw [emissions_append, List.flatMap_append, flatMap_written_emissions_ofLiteral]

/-! ## Separators in rule sets -/

/-- Whether a character is in no symbol and in no name of a rule set. -/
def AvoidsCharacter (rules : RuleSet) (character : Char) : Prop :=
  (∀ role, character ∉ rules.settings.symbols.get role) ∧
    ∀ name ∈ rules.names, character ∉ name

variable {rules : RuleSet} {separator : Char}

theorem AvoidsCharacter.separates (avoids : rules.AvoidsCharacter separator) :
    Separates separator rules.markers.markers := by
  intro marker member
  simp only [markers, MarkerSet.build, List.mem_cons, List.mem_map] at member
  rcases member with rfl | rfl | ⟨name, listed, rfl⟩
  · exact avoids.1 .closing
  · exact avoids.1 .reset
  · have known : name ∈ rules.names := by
      rw [SortedNames.mem_ofList] at listed
      exact (List.mem_filter.mp listed).1
    rw [List.mem_append, not_or]
    exact ⟨avoids.1 .opening, avoids.2 name known⟩

/-- Text on the two sides of a separator is stripped apart. -/
theorem strip_separated (avoids : rules.AvoidsCharacter separator) (front back : Text) :
    rules.strip (front ++ separator :: back) =
      rules.strip front ++ separator :: rules.strip back := by
  rw [strip_eq_literal, strip_eq_literal, strip_eq_literal,
    MarkerSet.divide_separated avoids.separates, Division.literal_join]
  rfl

theorem strip_intercalate (avoids : rules.AvoidsCharacter separator) (stretches : List Text) :
    rules.strip ([separator].intercalate stretches) =
      [separator].intercalate (stretches.map rules.strip) := by
  induction stretches with
  | nil =>
      show rules.strip [] = []
      rw [strip_eq_literal, MarkerSet.divide_nil]
      rfl
  | cons first others inductionHypothesis =>
      cases others with
      | nil => simp
      | cons second rest =>
          rw [List.map_cons] at inductionHypothesis
          rw [List.intercalate_cons_cons, List.map_cons, List.map_cons,
            List.intercalate_cons_cons, List.append_assoc, List.append_assoc,
            List.singleton_append, List.singleton_append, strip_separated avoids,
            inductionHypothesis]

/-- A separator behind a text is written behind what the text renders to. -/
theorem renderText_append_separator (avoids : rules.AvoidsCharacter separator)
    (rendition : Rendition) (text : Text) :
    rules.renderText rendition (text ++ [separator]) =
      rules.renderText rendition text ++ [separator] := by
  have divided : rules.markers.divide (text ++ [separator]) =
      ⟨(rules.markers.divide text).pieces,
        (rules.markers.divide text).remainder ++ [separator]⟩ := by
    rw [MarkerSet.divide_separated avoids.separates, MarkerSet.divide_nil]
    rfl
  unfold renderText scan MarkerSet.tokenize
  rw [render_tokens, render_tokens, divided, List.append_assoc]

end RuleSet

theorem Printer.printLine_eq_print {printer : Printer}
    (avoids : printer.rules.AvoidsCharacter '\n') (text : Text) :
    printer.printLine text = printer.print (text ++ ['\n']) := by
  unfold printLine print rendered
  rw [RuleSet.renderText_append_separator avoids]

/-- A scan can be cut at every character that is in no pattern: the locations in
the whole text are those before it, and those behind it moved by the bytes up to
there. So where no symbol and no name contains a line feed, a text is stripped
line by line, and to print a line is to print the text with a line feed behind
it, in either rendition and into any sink. -/
theorem pieces_agree_with_whole :
    (∀ (set : MarkerSet) (separator : Char),
      (∀ marker ∈ set.markers, separator ∉ marker.pattern) →
      ∀ front back, set.locate (front ++ separator :: back) =
        set.locate front ++ (set.locate back).map
          (Location.behind (Text.byteCount (front ++ [separator])))) ∧
    ∀ rules : RuleSet, (∀ role, '\n' ∉ rules.settings.symbols.get role) →
      (∀ name ∈ rules.names, '\n' ∉ name) →
      (∀ text, rules.strip text =
        ['\n'].intercalate ((text.splitOn '\n').map rules.strip)) ∧
      ∀ (rendition : Rendition) (sink : Sink) (text : Text),
        (Printer.mk rules rendition sink).printLine text =
          (Printer.mk rules rendition sink).print (text ++ ['\n']) := by
  constructor
  · intro set separator separates front back
    exact MarkerSet.locate_separated separates front back
  · intro rules symbols names
    have avoids : rules.AvoidsCharacter '\n' := ⟨symbols, names⟩
    constructor
    · intro text
      rw [← RuleSet.strip_intercalate avoids, List.intercalate_splitOn]
    · intro rendition sink text
      exact Printer.printLine_eq_print avoids text

/-- Markers that overlap themselves and one another. -/
def doublingMarkers : MarkerSet :=
  MarkerSet.build { opening := "a".toList, closing := "aa".toList, reset := "aba".toList }
    ["b".toList, "ü".toList]

/-- The built-in rules and one that styles nothing. -/
def quietRules : RuleSet where
  ordinary := Table.empty.insert "q".toList (({} : Definition).compiled .auto)
  resetRule := builtinReset.compiled .keep
  settings := {}

/-- A cut between two markers that could go on behind it, and lines with markers
at their ends. -/
theorem doubled_markers_cut_at_comma :
    (∀ marker ∈ doublingMarkers.markers, ',' ∉ marker.pattern) ∧
    doublingMarkers.locate "éa,aüaba".toList =
      doublingMarkers.locate "éa".toList ++ (doublingMarkers.locate "aüaba".toList).map
        (Location.behind 4) ∧
    doublingMarkers.locate "éa,aüaba".toList = [⟨3, 4, 6, 7⟩, ⟨1, 7, 9, 10⟩] ∧
    (∀ role, '\n' ∉ quietRules.settings.symbols.get role) ∧
    (∀ name ∈ quietRules.names, '\n' ∉ name) ∧
    quietRules.strip "\x7b%qone%\n\x7dtwo%@\n".toList =
      ['\n'].intercalate ["one%".toList, "\x7dtwo".toList, []] ∧
    (Printer.mk quietRules .styled { room := some 3 }).printLine "%@%".toList =
      (Printer.mk quietRules .styled { room := some 3 }).print "%@%\n".toList := by
  have comma : ∀ marker ∈ doublingMarkers.markers, ',' ∉ marker.pattern := by decide
  have symbols : ∀ role, '\n' ∉ quietRules.settings.symbols.get role := by
    intro role
    cases role <;> decide
  have names : ∀ name ∈ quietRules.names, '\n' ∉ name := by decide
  have cut := pieces_agree_with_whole.1 doublingMarkers ',' comma "éa".toList "aüaba".toList
  obtain ⟨lines, prints⟩ := pieces_agree_with_whole.2 quietRules symbols names
  refine ⟨comma, cut, ?_, symbols, names, ?_, prints .styled { room := some 3 } "%@%".toList⟩
  · exact cut.trans (by decide +kernel)
  · exact (lines _).trans (by decide +kernel)

end TerminalMarkup
