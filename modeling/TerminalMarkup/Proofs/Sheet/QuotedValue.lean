import TerminalMarkup.Proofs.Sheet.DeclaredSheet
import TerminalMarkup.Proofs.Sheet.Preprocessing

/-!
Contract: quoted strings in preprocessing.

Comment marks are ignored up to the closing quotation mark, over any number of
lines. For variables the quotes end with their line: behind a line feed in the
string a line that opens with a dollar sign is a definition line, and a dollar
sign with a name behind it is a reference. A carriage return before a line feed
is lost. So not every string comes out as it is (`broken_string_not_verbatim`),
and `SurvivesLines` says which do.

The condition is exact (`quoted_symbol_verbatim`). That it is sufficient follows
line by line. That it is necessary needs more, because a substituted value may
close the string early and a later declaration may give the symbol. Preprocessing
has as many lines as the source, though, and so a text with all the line feeds of
the string can only stand where the string stood.
-/

set_option autoImplicit false

namespace TerminalMarkup

namespace Sheet

open Lexeme Phrase

/-! ## A sheet with one quoted symbol -/

/-- What stands before the quoted string of an opening symbol. -/
def openingFront : Text := "@symbols \x7b open: ".toList

/-- What stands behind the quoted string of an opening symbol. -/
def openingBack : Text := "; \x7d".toList

/-- A sheet that gives the opening symbol as a quoted string. -/
def openingSheet (contents : Text) : Text :=
  openingFront ++ '"' :: (contents ++ '"' :: openingBack)

/-- What stands around the string is on its line, without any special
character. -/
theorem plain_around : ∀ special ∈ ['"', '/', '$', '\n'],
    special ∉ openingFront ∧ special ∉ openingBack := by
  decide

/-- Slashes in the string stand in quotes, over all its lines. -/
theorem slashes_openingSheet {contents : Text} (unquoted : '"' ∉ contents) :
    OnlyQuoted '/' false false (openingSheet contents) := by
  obtain ⟨slash, behind⟩ := plain_around '/' (by decide)
  rw [openingSheet, OnlyQuoted.append_outside (plain_around '"' (by decide)).1 slash,
    OnlyQuoted.append_string unquoted (by simp) (by decide)]
  exact OnlyQuoted.of_not_mem behind false

theorem unifyLineEnds_openingSheet (contents : Text) :
    Text.unifyLineEnds (openingSheet contents) = openingSheet (Text.unifyLineEnds contents) := by
  obtain ⟨front, back⟩ := plain_around '\n' (by decide)
  have closing : '\n' ∉ '"' :: openingBack := by
    rw [List.mem_cons, not_or]
    exact ⟨by decide, back⟩
  have opened : Text.unifyLineEnds ('"' :: (contents ++ '"' :: openingBack)) =
      '"' :: Text.unifyLineEnds (contents ++ '"' :: openingBack) := by
    rw [Text.unifyLineEnds]
    simp
  rw [openingSheet, Text.unifyLineEnds_append (by simp), Text.unifyLineEnds_of_no_feed front,
    opened, Text.unifyLineEnds_append (by simp), Text.unifyLineEnds_of_no_feed closing,
    openingSheet]

/-! ## Strings that survive -/

/-- The condition for a quoted string to come out of preprocessing as it is: no
carriage return stands before a line feed, and the lines behind the first one
have no variables. -/
def SurvivesLines (contents : Text) : Prop :=
  ¬ ['\r', '\n'] <:+: contents ∧ ∀ line ∈ (contents.splitOn '\n').tail, VariableFree line

instance (contents : Text) : Decidable (SurvivesLines contents) := by
  unfold SurvivesLines
  infer_instance

theorem survivesLines_of_one_line {contents : Text} (oneLine : '\n' ∉ contents) :
    SurvivesLines contents := by
  refine ⟨fun pair => oneLine (pair.subset (by simp)), ?_⟩
  rw [List.splitOn_eq_singleton oneLine]
  simp

theorem survivesLines_append_feed {first later : Text} (oneLine : '\n' ∉ first) :
    SurvivesLines (first ++ '\n' :: later) ↔
      ¬ ['\r', '\n'] <:+: first ++ '\n' :: later ∧
        ∀ line ∈ later.splitOn '\n', VariableFree line := by
  rw [SurvivesLines, List.splitOn_append_cons_self_of_not_mem oneLine, List.tail_cons]

/-- Dollar signs in the first line of the string stand in quotes. -/
theorem untouched_firstLine {line : Text} (unquoted : '"' ∉ line) (oneLine : '\n' ∉ line) :
    Untouched (openingFront ++ '"' :: line) := by
  obtain ⟨dollar, _⟩ := plain_around '$' (by decide)
  obtain ⟨feed, _⟩ := plain_around '\n' (by decide)
  apply untouched_of_onlyQuoted
  · rw [OnlyQuoted.append_outside (plain_around '"' (by decide)).1 dollar, OnlyQuoted, if_pos rfl,
      Bool.not_false, ← List.append_nil line,
      OnlyQuoted.append_inside unquoted fun _ => oneLine]
    exact ⟨by decide, trivial⟩
  · simp [feed, oneLine]

theorem untouched_onlyLine {contents : Text} (unquoted : '"' ∉ contents)
    (oneLine : '\n' ∉ contents) :
    Untouched (openingSheet contents) := by
  obtain ⟨dollar, behind⟩ := plain_around '$' (by decide)
  obtain ⟨feed, feedBehind⟩ := plain_around '\n' (by decide)
  apply untouched_of_onlyQuoted
  · rw [openingSheet, OnlyQuoted.append_outside (plain_around '"' (by decide)).1 dollar,
      OnlyQuoted.append_string unquoted (fun _ => oneLine) (by decide)]
    exact OnlyQuoted.of_not_mem behind false
  · simp [openingSheet, feed, oneLine, feedBehind]

theorem splitOn_openingSheet {first : Text} (oneLine : '\n' ∉ first) (later : Text) :
    (openingSheet (first ++ '\n' :: later)).splitOn '\n' =
      (openingFront ++ '"' :: first) :: (later ++ '"' :: openingBack).splitOn '\n' := by
  obtain ⟨feed, _⟩ := plain_around '\n' (by decide)
  have front : '\n' ∉ openingFront ++ '"' :: first := by simp [feed, oneLine]
  rw [← List.splitOn_append_cons_self_of_not_mem front]
  simp [openingSheet]

theorem getLast?_openingSheet (contents : Text) :
    (openingSheet contents).getLast? = some '\x7d' := by
  have back : openingBack = [';', ' ', '\x7d'] := by decide
  simp [openingSheet, back, List.getLast?_cons, List.getLast?_append]

/-- Where no carriage return is lost, each line of the sheet gets its line feed
back. -/
theorem endLines_openingSheet {contents : Text} (noPair : ¬ ['\r', '\n'] <:+: contents) :
    Text.endLines (Text.lines (openingSheet contents)) = openingSheet contents ++ ['\n'] := by
  apply Text.endLines_lines_of_unended _ (getLast?_openingSheet contents) (by decide)
  rw [unifyLineEnds_openingSheet, Text.unifyLineEnds_eq_self_iff.mpr noPair]

theorem SurvivesLines.untouched {contents : Text} (survives : SurvivesLines contents)
    (unquoted : '"' ∉ contents) :
    ∀ line ∈ Text.lines (openingSheet contents), Untouched line := by
  have lines : Text.lines (openingSheet contents) = (openingSheet contents).splitOn '\n' :=
    Text.eq_splitOn_of_endLines (fun _ => Text.not_mem_of_mem_lines)
      (endLines_openingSheet survives.1)
  rw [lines]
  by_cases feed : '\n' ∈ contents
  · obtain ⟨first, later, rfl, oneLine⟩ := List.eq_append_cons_of_mem feed
    have free := ((survivesLines_append_feed oneLine).mp survives).2
    have firstUnquoted : '"' ∉ first := fun member => unquoted (List.mem_append_left _ member)
    have back : '\n' ∉ '"' :: openingBack := by decide
    rw [splitOn_openingSheet oneLine]
    intro line member
    rcases List.mem_cons.mp member with rfl | behind
    · exact untouched_firstLine firstUnquoted oneLine
    · rcases Text.mem_splitOn_append back behind with inside | ⟨last, listed, rfl⟩
      · exact (free line inside).untouched
      · exact ((free last listed).append (by decide)).untouched
  · have oneLine : '\n' ∉ openingSheet contents := by
      have front : '\n' ∉ openingFront := by decide
      have back : '\n' ∉ openingBack := by decide
      simp [openingSheet, front, feed, back]
    rw [List.splitOn_eq_singleton oneLine]
    intro line member
    rw [List.mem_singleton.mp member]
    exact untouched_onlyLine unquoted feed

/-- A string that survives is kept, and defines no variable. -/
theorem SurvivesLines.preprocess {contents : Text} (survives : SurvivesLines contents)
    (unquoted : '"' ∉ contents) :
    extractVariables (stripComments (openingSheet contents)) = Table.empty ∧
      Sheet.preprocess (openingSheet contents) = .ok (openingSheet contents ++ ['\n']) := by
  rw [← endLines_openingSheet survives.1]
  exact preprocess_of_untouched (slashes_openingSheet unquoted) (survives.untouched unquoted)

/-! ## Reading the sheet -/

/-- The symbols with the opening symbol replaced. -/
def opening (contents : Text) : Symbols := { opening := contents }

theorem unquoted_opening {contents : Text} (unquoted : '"' ∉ contents) (role : SymbolRole) :
    '"' ∉ (opening contents).get role := by
  cases role with
  | opening => exact unquoted
  | closing =>
      show '"' ∉ ({} : Symbols).closing
      decide
  | reset =>
      show '"' ∉ ({} : Symbols).reset
      decide

theorem ofLexeme_mark (character : Char) (rest : Text) :
    OfLexeme (character :: rest) (mark character) rest :=
  ⟨rfl, by simp [Lexeme.endsInWord]⟩

theorem ofLexeme_string (contents rest : Text) :
    OfLexeme ('"' :: (contents ++ '"' :: rest)) (string contents) rest :=
  ⟨by simp [Lexeme.text], by simp [Lexeme.endsInWord]⟩

/-- The source is what is written for the opening symbol alone. -/
theorem series_openingSheet (contents tail : Text) :
    Series OfLexeme (openingSheet contents ++ tail)
      (block (title "symbols".toList)
        ([SymbolRole.opening].flatMap fun role =>
          assign role.name [string ((opening contents).get role)])) tail := by
  have spaced : ∀ character ∈ [' '], Text.isSpace character := by decide
  have apart : ∀ first ∈ [' ', ':'], ∀ rest : Text,
      ∀ character ∈ (first :: rest).head?, ¬ Text.isWordChar character := by
    intro first member rest character head
    rw [← Option.some.inj head]
    have solid : ∀ first ∈ [' ', ':'], ¬ Text.isWordChar first := by decide
    exact solid first member
  have front : openingFront = '@' :: ("symbols".toList ++
      ' ' :: '\x7b' :: ' ' :: ("open".toList ++ [':', ' '])) := by decide
  have back : openingBack = [';', ' ', '\x7d'] := by decide
  have whole : openingSheet contents ++ tail = '@' :: ("symbols".toList ++
      ' ' :: '\x7b' :: ' ' :: ("open".toList ++
        ':' :: ' ' :: '"' :: (contents ++ '"' :: ';' :: ' ' :: '\x7d' :: tail))) := by
    simp only [openingSheet, front, back, List.cons_append, List.append_assoc, List.nil_append]
  rw [whole]
  have near : ∀ rest : Text, Gap rest rest := fun rest => ⟨[], rfl, by simp⟩
  have far : ∀ rest : Text, Gap (' ' :: rest) rest := fun rest => ⟨[' '], rfl, spaced⟩
  apply Series.cons (near _) ⟨rfl, fun _ => apart ' ' (by decide) _⟩
  apply Series.cons (far _) (ofLexeme_mark '\x7b' _)
  apply Series.cons (far _) ⟨rfl, fun _ => apart ':' (by decide) _⟩
  apply Series.cons (near _) (ofLexeme_mark ':' _)
  apply Series.cons (far _) (ofLexeme_string contents _)
  apply Series.cons (near _) (ofLexeme_mark ';' _)
  apply Series.cons (far _) (ofLexeme_mark '\x7d' _)
  exact Series.nil

theorem leads_opening (contents : Text) :
    Leads {} { settings := { symbols := opening contents } }
      (.atRule "symbols".toList (.block ([.opening].map (declarationOf (opening contents))))) := by
  show (readSymbols {} ([.opening].map (declarationOf (opening contents)))).map
    ({} : Sheet).withSymbols = _
  rw [List.map_singleton, readSymbols, readSymbol_declarationOf]
  rfl

/-- If preprocessing keeps the sheet, the string is read as the opening symbol. -/
theorem parse_of_preprocess {contents : Text} (unquoted : '"' ∉ contents)
    (kept : preprocess (openingSheet contents) = .ok (openingSheet contents ++ ['\n'])) :
    parse (openingSheet contents) =
      .ok ⟨{ settings := { symbols := opening contents } },
        [.finished 0 (extractVariables (stripComments (openingSheet contents))).size]⟩ := by
  obtain ⟨start, _, gap, found, rfl⟩ :=
    yields_symbolsBlock (unquoted_opening unquoted) _ _ _ (series_openingSheet contents ['\n'])
  have grammar := items_eq_ok_iff.mpr ⟨['\n'], .cons gap found .nil, by decide⟩
  have read : ofItems [.atRule "symbols".toList (.block ([SymbolRole.opening].map
      (declarationOf (opening contents))))] =
        ⟨{ settings := { symbols := opening contents } }, []⟩ := by
    rw [ofItems, readItems, leads_opening]
    rfl
  rw [parse, kept]
  simp only [bind, Except.bind, grammar, read]
  rfl

/-! ## Places of declared texts -/

theorem Phrase.OfValue.exists_place {text rest : Text} {value : Value}
    (given : OfValue text value rest) :
    ∃ front between, text = front ++ (value.text ++ (between ++ rest)) := by
  cases given with
  | quoted unquoted => exact ⟨['"'], ['"'], rfl⟩
  | bare nonempty maximal start trims =>
      obtain ⟨blanks, rfl, _⟩ := trims
      exact ⟨[], blanks, by rw [maximal.1, List.append_assoc]; rfl⟩

/-- The text of a declared value stands in the declaration, before a semicolon. -/
theorem Phrase.OfDeclaration.exists_place {text rest : Text} {declaration : Declaration}
    (given : OfDeclaration text declaration rest) :
    ∃ front between, text = front ++ (declaration.value.text ++ (between ++ ';' :: rest)) := by
  obtain ⟨behind, start, word, gap, opened, valueStart, valueRest, rfl, valueGap, value, closing⟩ :=
    given
  obtain ⟨skipped, between, rfl⟩ := value.exists_place
  obtain ⟨blanks, rfl, _⟩ := closing
  obtain ⟨lead, rfl⟩ := valueGap.suffix.trans
    ((List.suffix_cons ':' opened).trans (gap.suffix.trans word.2.suffix))
  exact ⟨lead ++ skipped, between ++ blanks, by simp only [List.append_assoc]⟩

/-- The declarations of an at-rule are phrases in it. -/
theorem Phrase.OfItem.exists_declaration {text rest title : Text} {body : AtBody}
    (found : OfItem text (.atRule title body) rest) {declaration : Declaration}
    (member : declaration ∈ body.declarations) :
    ∃ start behind, start <:+ text ∧ OfDeclaration start declaration behind := by
  cases body with
  | value given => cases member
  | block declarations =>
      obtain ⟨opened, behind, start, rfl, word, gap, given⟩ := found
      obtain ⟨inner, last, rfl, series, _⟩ := given
      obtain ⟨place, placeRest, inBody, declared⟩ :=
        series.exists_of_mem OfDeclaration.suffix member
      have bodyInRule : inner <:+ opened :=
        (List.suffix_cons _ inner).trans (gap.suffix.trans word.2.suffix)
      refine ⟨place, placeRest, ?_, declared⟩
      exact inBody.trans (bodyInRule.trans (List.suffix_cons '@' opened))

/-- What a sheet gives to a symbol stands in its text, before a semicolon. -/
theorem Derives.exists_place {source text : Text} {items : List Item} {role : SymbolRole}
    {name : Text} (derived : Derives source items)
    (declared : text ∈ symbolTexts role (atBodiesAmong name items)) :
    ∃ front between rest, source = front ++ (text ++ (between ++ ';' :: rest)) := by
  obtain ⟨behind, series, _⟩ := derived
  obtain ⟨declaration, inBodies, gives⟩ := List.mem_filterMap.mp declared
  obtain ⟨body, among, inBody⟩ := List.mem_flatMap.mp inBodies
  obtain ⟨item, member, isAtRule⟩ := List.mem_filterMap.mp among
  obtain ⟨start, itemRest, within, found⟩ := series.exists_of_mem OfItem.suffix member
  cases item with
  | rule title entries => cases isAtRule
  | atRule title given =>
      obtain rfl : given = body := by
        rw [Item.atBody?] at isAtRule
        split_ifs at isAtRule
        exact Option.some.inj isAtRule
      obtain rfl : declaration.value.text = text := by
        rw [Declaration.symbolText?] at gives
        split_ifs at gives
        exact Option.some.inj gives
      obtain ⟨place, rest, inItem, given⟩ := found.exists_declaration inBody
      obtain ⟨front, between, rfl⟩ := given.exists_place
      obtain ⟨lead, rfl⟩ := inItem.trans within
      exact ⟨lead ++ front, between, rest, by rw [List.append_assoc]⟩

/-- A symbol with a line feed stands in what preprocessing gives. -/
theorem exists_place_of_parse {source : Text} {reading : Reported Sheet}
    (read : parse source = .ok reading)
    (feed : '\n' ∈ reading.result.settings.symbols.opening) :
    ∃ front between rest, preprocess source =
      .ok (front ++ (reading.result.settings.symbols.opening ++ (between ++ ';' :: rest))) := by
  obtain ⟨resolved, ready, further⟩ := bind_eq_ok_iff.mp read
  obtain ⟨found, grammar, same⟩ := bind_eq_ok_iff.mp further
  obtain rfl := Except.ok.inj same
  have last : (ofItems found).result.settings.symbols.opening =
      (symbolTexts .opening (atBodiesAmong "symbols".toList found)).getLast?.getD
        ({} : Symbols).opening :=
    symbols_readItems {} found .opening
  cases declared : (symbolTexts .opening (atBodiesAmong "symbols".toList found)).getLast? with
  | none =>
      rw [declared, Option.getD_none] at last
      rw [last] at feed
      exact absurd feed (by decide)
  | some text =>
      rw [declared, Option.getD_some] at last
      obtain ⟨front, between, rest, whole⟩ :=
        (items_eq_ok_iff.mp grammar).exists_place (List.mem_of_getLast? declared)
      refine ⟨front, between, rest, ?_⟩
      rw [ready, whole, last]

/-! ## Strings that do not survive -/

/-- A text without quotation marks ends where the first quotation mark stands, if
it goes that far. -/
theorem eq_of_append_mark {front text back rest : Text} (unquoted : '"' ∉ text)
    (short : front.length ≤ text.length) (same : front ++ '"' :: back = text ++ rest) :
    front = text := by
  obtain ⟨tail, rfl⟩ := List.prefix_of_prefix_length_le ⟨'"' :: back, same⟩ ⟨rest, rfl⟩ short
  rw [List.append_assoc] at same
  have behind := List.append_cancel_left same
  cases tail with
  | nil => rw [List.append_nil]
  | cons first others =>
      rw [List.cons_append, List.cons.injEq] at behind
      rw [behind.1] at unquoted
      exact absurd (by simp) unquoted

theorem eq_of_mark_append {front text back rest : Text} (unquoted : '"' ∉ text)
    (short : front.length ≤ text.length) (same : back ++ '"' :: front = rest ++ text) :
    front = text := by
  have reversed : front.reverse ++ '"' :: back.reverse = text.reverse ++ rest.reverse := by
    simpa using congrArg List.reverse same
  apply List.reverse_inj.mp
  apply eq_of_append_mark _ _ reversed
  · rwa [List.mem_reverse]
  · rwa [List.length_reverse, List.length_reverse]

/-- The first line of the sheet opens the string. -/
theorem exists_firstLine {first later line : Text} (oneLine : '\n' ∉ first)
    (found : (Text.lines (openingSheet (first ++ '\n' :: later)))[0]? = some line) :
    ∃ kept, kept <+: first ∧ line = openingFront ++ '"' :: kept := by
  obtain ⟨original, place, ends⟩ := Text.exists_splitOn_of_lines found
  rw [splitOn_openingSheet oneLine, List.getElem?_cons_zero, Option.some.injEq] at place
  rcases ends with rfl | rfl
  · exact ⟨first, List.prefix_refl first, place.symm⟩
  · rcases first.eq_nil_or_concat with rfl | ⟨kept, last, rfl⟩
    · have same := (List.append_inj' place rfl).2
      exact absurd same (by decide)
    · rw [List.concat_eq_append] at place ⊢
      rw [← List.cons_append, ← List.append_assoc] at place
      exact ⟨kept, List.prefix_append kept _, (List.append_inj' place rfl).1.symm⟩

theorem length_lines_openingSheet (contents : Text) :
    (Text.lines (openingSheet contents)).length ≤ Text.lineFeeds contents + 1 := by
  have front : Text.lineFeeds openingFront = 0 := by decide
  have back : Text.lineFeeds openingBack = 0 := by decide
  have whole : Text.lineFeeds (openingSheet contents) = Text.lineFeeds contents := by
    simp [openingSheet, Text.lineFeeds_append, Text.lineFeeds_cons, front, back]
  rw [← whole]
  exact Text.length_lines_le _

section Lines

variable {first later back : Text} {known : Variables}

/-- The first line of the sheet is kept, so a line of it that ends with the first
line of the string has the same text before that. -/
theorem front_eq_of_resolvesTo {front : Text} {others : List Text} (unquoted : '"' ∉ first)
    (oneLine : '\n' ∉ first)
    (related : List.Forall₂ (ResolvesTo known)
      (Text.lines (openingSheet (first ++ '\n' :: later))) ((front ++ first) :: others)) :
    front = openingFront ++ ['"'] := by
  obtain ⟨line, found, made⟩ := exists_of_forall₂_getElem? related List.getElem?_cons_zero
  obtain ⟨kept, within, rfl⟩ := exists_firstLine oneLine found
  have untouched : Untouched (openingFront ++ '"' :: kept) :=
    untouched_firstLine (fun member => unquoted (within.subset member))
      fun member => oneLine (within.subset member)
  have same : openingFront ++ '"' :: kept = front ++ first := by
    rw [ResolvesTo, untouched.defines, if_neg (by decide), untouched.resolves] at made
    exact Except.ok.inj made
  obtain rfl := eq_of_mark_append unquoted within.length_le same
  have whole : (openingFront ++ ['"']) ++ kept = front ++ kept := by
    rw [← same, List.append_assoc, List.singleton_append]
  exact (List.append_cancel_right whole).symm

/-- Two lists that differ in their last items only have the same item at a place, or
it is the last one. -/
theorem eq_or_last_of_getElem? {Item : Type} {front : List Item} {last other item second : Item}
    {place : Nat} (found : (front ++ [last])[place]? = some item)
    (otherFound : (front ++ [other])[place]? = some second) :
    item = second ∨ item = last ∧ second = other := by
  rw [List.getElem?_append] at found otherFound
  by_cases inside : place < front.length
  · rw [if_pos inside] at found otherFound
    rw [found] at otherFound
    exact .inl (Option.some.inj otherFound)
  · rw [if_neg inside, List.getElem?_singleton] at found otherFound
    split_ifs at found otherFound
    exact .inr ⟨(Option.some.inj found).symm, (Option.some.inj otherFound).symm⟩

/-- If preprocessing keeps the lines of the string, none of them is a definition
line: that one would be blank. -/
theorem isDefinitionLine_of_resolvesTo (oneLine : '\n' ∉ first) (backOneLine : '\n' ∉ back)
    (related : List.Forall₂ (ResolvesTo known)
      (Text.lines (openingSheet (first ++ '\n' :: later)))
      ((openingFront ++ '"' :: first) :: (later ++ back).splitOn '\n')) :
    ∀ line ∈ Text.lines (openingSheet (first ++ '\n' :: later)),
      isDefinitionLine line = false := by
  intro line member
  rw [← Bool.not_eq_true]
  intro definition
  obtain ⟨number, found⟩ := List.mem_iff_getElem?.mp member
  obtain ⟨original, place, ends⟩ := Text.exists_splitOn_of_lines found
  have dollar : '$' ∈ original := by
    have inLine := List.mem_of_find?_eq_some (isDefinitionLine_iff.mp definition)
    rcases ends with rfl | rfl
    · exact inLine
    · exact List.mem_append_left _ inLine
  obtain ⟨resolved, kept, flipped⟩ := exists_of_forall₂_getElem? related.flip found
  have made : ResolvesTo known line resolved := flipped
  rw [ResolvesTo, if_pos definition] at made
  rw [made] at kept
  rw [splitOn_openingSheet oneLine] at place
  cases number with
  | zero => simp at kept
  | succ number =>
      obtain ⟨front, last, _, split⟩ := Text.exists_splitOn_append later
      rw [List.getElem?_cons_succ, split _ backOneLine] at kept
      rw [List.getElem?_cons_succ, split _ (by decide)] at place
      rcases eq_or_last_of_getElem? kept place with rfl | ⟨blank, rfl⟩
      · cases dollar
      · rw [(List.append_eq_nil_iff.mp blank.symm).1, List.nil_append] at dollar
        exact absurd dollar (by decide)

end Lines

/-- If a string of several lines is read verbatim, preprocessing keeps it and all
before it. -/
theorem exists_preprocess_of_parse {first later : Text} {reading : Reported Sheet}
    (unquoted : '"' ∉ first ++ '\n' :: later) (oneLine : '\n' ∉ first)
    (read : parse (openingSheet (first ++ '\n' :: later)) = .ok reading)
    (verbatim : reading.result.settings.symbols.opening = first ++ '\n' :: later) :
    ∃ back, '\n' ∉ back ∧ preprocess (openingSheet (first ++ '\n' :: later)) =
      .ok ((openingFront ++ '"' :: (first ++ '\n' :: later ++ back)) ++ ['\n']) := by
  have feed : '\n' ∈ reading.result.settings.symbols.opening := by
    rw [verbatim]
    simp
  obtain ⟨front, between, rest, ready⟩ := exists_place_of_parse read feed
  rw [verbatim] at ready
  have replaced := ready
  rw [preprocess, stripComments_of_onlyQuoted (slashes_openingSheet unquoted)] at replaced
  obtain ⟨ended, whole, endedOneLine, related⟩ := forall₂_of_resolveVariables replaced
  have few : ended.length ≤ Text.lineFeeds (first ++ '\n' :: later) + 1 := by
    rw [← related.length_eq]
    exact length_lines_openingSheet _
  obtain ⟨back, frontOneLine, backOneLine, placed⟩ :=
    Text.exists_splitOn_of_few endedOneLine (by decide : ';' ≠ '\n') whole.symm few
  have lines := Text.eq_splitOn_of_endLines endedOneLine placed
  have head : '\n' ∉ front ++ first := by simp [frontOneLine, oneLine]
  have shape : front ++ (first ++ '\n' :: later ++ back) =
      (front ++ first) ++ '\n' :: (later ++ back) := by simp
  rw [shape, List.splitOn_append_cons_self_of_not_mem head] at lines
  rw [lines] at related
  have start := front_eq_of_resolvesTo
    (fun member => unquoted (List.mem_append_left _ member)) oneLine related
  refine ⟨back, backOneLine, ?_⟩
  rw [ready, whole, placed, start]
  simp

/-- If the lines of the sheet hold the string, no carriage return of it is lost. -/
theorem noPair_of_endLines {contents back : Text} (unquoted : '"' ∉ contents)
    (whole : Text.endLines (Text.lines (openingSheet contents)) =
      (openingFront ++ '"' :: (contents ++ back)) ++ ['\n']) :
    ¬ ['\r', '\n'] <:+: contents := by
  obtain ⟨tail, _, ends⟩ := Text.endLines_lines (openingSheet contents)
  rw [whole, unifyLineEnds_openingSheet, openingSheet] at ends
  have kept : Text.unifyLineEnds contents ++ '"' :: (openingBack ++ tail) =
      contents ++ (back ++ ['\n']) := by
    simpa using ends.symm
  rw [← Text.unifyLineEnds_eq_self_iff]
  exact eq_of_append_mark unquoted (Text.sublist_unifyLineEnds contents).length_le kept

/-- If preprocessing keeps the string and all before it, the string survives. -/
theorem survivesLines_of_preprocess {contents back : Text} (unquoted : '"' ∉ contents)
    (backOneLine : '\n' ∉ back)
    (kept : preprocess (openingSheet contents) =
      .ok ((openingFront ++ '"' :: (contents ++ back)) ++ ['\n'])) :
    SurvivesLines contents := by
  by_cases feed : '\n' ∈ contents
  · obtain ⟨first, later, rfl, oneLine⟩ := List.eq_append_cons_of_mem feed
    rw [preprocess, stripComments_of_onlyQuoted (slashes_openingSheet unquoted)] at kept
    obtain ⟨ended, whole, endedOneLine, related⟩ := forall₂_of_resolveVariables kept
    have lines := Text.eq_splitOn_of_endLines endedOneLine whole.symm
    have head : '\n' ∉ openingFront ++ '"' :: first := by
      have front : '\n' ∉ openingFront := by decide
      simp [front, oneLine]
    have shape : openingFront ++ '"' :: (first ++ '\n' :: later ++ back) =
        (openingFront ++ '"' :: first) ++ '\n' :: (later ++ back) := by simp
    rw [shape, List.splitOn_append_cons_self_of_not_mem head] at lines
    have others := isDefinitionLine_of_resolvesTo oneLine backOneLine (lines ▸ related)
    rw [extractVariables_eq_empty others] at related
    obtain ⟨same, resolves⟩ := eq_of_resolvesTo (fun _ => rfl) others related
    rw [survivesLines_append_feed oneLine]
    refine ⟨noPair_of_endLines unquoted (same ▸ whole.symm), ?_⟩
    intro line member
    obtain ⟨rest, listed⟩ := Text.exists_mem_splitOn_append backOneLine member
    have read : line ++ rest ∈ Text.lines (openingSheet (first ++ '\n' :: later)) := by
      rw [← same, lines]
      exact List.mem_cons_of_mem _ listed
    have lineUnquoted : '"' ∉ line := by
      intro mark
      exact unquoted (by simp [Text.mem_of_mem_splitOn member mark])
    exact variableFree_of_resolveLine (fun _ => rfl) lineUnquoted (others _ read) (resolves _ read)
  · exact survivesLines_of_one_line feed

/-- If the string is read verbatim, it survives. -/
theorem survivesLines_of_parse {contents : Text} {reading : Reported Sheet}
    (unquoted : '"' ∉ contents) (read : parse (openingSheet contents) = .ok reading)
    (verbatim : reading.result.settings.symbols.opening = contents) :
    SurvivesLines contents := by
  by_cases feed : '\n' ∈ contents
  · obtain ⟨first, later, rfl, oneLine⟩ := List.eq_append_cons_of_mem feed
    obtain ⟨back, backOneLine, kept⟩ := exists_preprocess_of_parse unquoted oneLine read verbatim
    exact survivesLines_of_preprocess unquoted backOneLine kept
  · exact survivesLines_of_one_line feed

/-! ## Which strings are verbatim -/

/-- A quoted opening symbol survives preprocessing, and is read verbatim, exactly if
no carriage return stands before a line feed in it and its lines behind the first
one have no variables. Then the sheet defines no variable, and reading it gives no
warning. -/
theorem quoted_symbol_verbatim {contents : Text} (unquoted : '"' ∉ contents) :
    (SurvivesLines contents ↔
      preprocess (openingSheet contents) = .ok (openingSheet contents ++ ['\n'])) ∧
    (SurvivesLines contents ↔
      ∃ reading, parse (openingSheet contents) = .ok reading ∧
        reading.result.settings.symbols.opening = contents) ∧
    (SurvivesLines contents → parse (openingSheet contents) =
      .ok ⟨{ settings := { symbols := opening contents } }, [.finished 0 0]⟩) := by
  have verbatim : SurvivesLines contents → parse (openingSheet contents) =
      .ok ⟨{ settings := { symbols := opening contents } }, [.finished 0 0]⟩ := by
    intro survives
    obtain ⟨undefined, kept⟩ := survives.preprocess unquoted
    rw [parse_of_preprocess unquoted kept, undefined]
    rfl
  refine ⟨⟨fun survives => (survives.preprocess unquoted).2, ?_⟩, ⟨?_, ?_⟩, verbatim⟩
  · intro kept
    exact survivesLines_of_parse unquoted (parse_of_preprocess unquoted kept) rfl
  · intro survives
    exact ⟨_, verbatim survives, rfl⟩
  · rintro ⟨reading, read, same⟩
    exact survivesLines_of_parse unquoted read same

/-- A string with a reference, comment marks, braces, line ends and a dollar sign
without a name in a later line. -/
def mixedContents : Text := "$a /* \x7b\n;\x7d */ $ : b\r".toList

theorem mixed_symbol_verbatim :
    '"' ∉ mixedContents ∧ SurvivesLines mixedContents ∧
      parse (openingSheet mixedContents) =
        .ok ⟨{ settings := { symbols := opening mixedContents } }, [.finished 0 0]⟩ := by
  have unquoted : '"' ∉ mixedContents := by decide +kernel
  have survives : SurvivesLines mixedContents := by decide +kernel
  exact ⟨unquoted, survives, (quoted_symbol_verbatim unquoted).2.2 survives⟩

/-- A dollar sign behind a line feed breaks a quoted string, and so not every
string is read verbatim. -/
theorem broken_string_not_verbatim :
    ¬ ∀ contents : Text, '"' ∉ contents →
      ∃ reading, parse (openingSheet contents) = .ok reading ∧
        reading.result.settings.symbols.opening = contents := by
  intro verbatim
  obtain ⟨reading, read, _⟩ := verbatim "a\n$b".toList (by decide +kernel)
  have fails : parse (openingSheet "a\n$b".toList) =
      .error (.syntaxError 1 "@symbols \x7b open: \"a".toList) := by
    decide +kernel
  rw [fails] at read
  cases read

end Sheet

end TerminalMarkup
