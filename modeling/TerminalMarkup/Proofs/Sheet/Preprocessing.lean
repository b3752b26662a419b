import Mathlib.Data.List.Chain
import TerminalMarkup.Proofs.Sheet.References

/-!
Contract: sources that preprocessing leaves alone but for their line ends.

Comments open with a slash and references with a dollar sign, and neither acts
inside quotes. So a source in which both characters stand in quotes only keeps
all its characters; carriage returns before line feeds are lost, and the last
line gets a line feed if it has none (`preprocess_of_onlyQuoted`). The quotes
that hide slashes run over line ends and those that hide dollar signs do not.

Outside quotes a line is left alone if it has no variables: it does not open with
a dollar sign, and none has a name behind it (`VariableFree.untouched`). Where no
variable is known, only such lines come through (`variableFree_of_resolveLine`).
-/

set_option autoImplicit false

namespace TerminalMarkup

namespace Sheet

open Phrase (Word maximalRun_iff)

/-! ## Characters in quotes -/

/-- Whether a character stands only inside quotes, in a text that starts inside
quotes or outside of them. With `byLine` a line feed ends open quotes. -/
def OnlyQuoted (character : Char) (byLine : Bool) : Bool → Text → Prop
  | _, [] => True
  | quoted, first :: rest =>
    (first = character → quoted = true) ∧
      OnlyQuoted character byLine
        (if first = '"' then !quoted else quoted && !(byLine && first == '\n')) rest

namespace OnlyQuoted

variable {character : Char} {byLine quoted : Bool} {rest : Text}

/-- Outside quotes a stretch without quotation marks must not have the
character. -/
theorem append_outside {stretch : Text} (unquoted : '"' ∉ stretch)
    (absent : character ∉ stretch) :
    OnlyQuoted character byLine false (stretch ++ rest) ↔
      OnlyQuoted character byLine false rest := by
  induction stretch with
  | nil => rfl
  | cons first others inductionHypothesis =>
      rw [List.mem_cons, not_or] at unquoted absent
      have plain : first ≠ '"' := fun same => unquoted.1 same.symm
      have other : first ≠ character := fun same => absent.1 same.symm
      rw [List.cons_append, OnlyQuoted, if_neg plain, Bool.false_and,
        inductionHypothesis unquoted.2 absent.2]
      simp [other]

/-- Inside quotes a stretch without quotation marks may hold anything, unless
it ends the quotes with a line. -/
theorem append_inside {stretch : Text} (unquoted : '"' ∉ stretch)
    (oneLine : byLine = true → '\n' ∉ stretch) :
    OnlyQuoted character byLine true (stretch ++ rest) ↔
      OnlyQuoted character byLine true rest := by
  induction stretch with
  | nil => rfl
  | cons first others inductionHypothesis =>
      rw [List.mem_cons, not_or] at unquoted
      have plain : first ≠ '"' := fun same => unquoted.1 same.symm
      have goesOn : (true && !(byLine && first == '\n')) = true := by
        cases byLine with
        | false => rfl
        | true =>
            have inLine := oneLine rfl
            rw [List.mem_cons, not_or] at inLine
            have notFeed : (first == '\n') = false := by
              rw [beq_eq_false_iff_ne]
              exact fun same => inLine.1 same.symm
            rw [notFeed]
            rfl
      have othersOneLine : byLine = true → '\n' ∉ others := by
        intro lines member
        exact oneLine lines (List.mem_cons_of_mem first member)
      rw [List.cons_append, OnlyQuoted, if_neg plain, goesOn,
        inductionHypothesis unquoted.2 othersOneLine]
      simp

/-- A quoted string hides what it holds. -/
theorem append_string {contents : Text} (unquoted : '"' ∉ contents)
    (oneLine : byLine = true → '\n' ∉ contents) (other : character ≠ '"') :
    OnlyQuoted character byLine false ('"' :: (contents ++ '"' :: rest)) ↔
      OnlyQuoted character byLine false rest := by
  have mark : '"' ≠ character := fun same => other same.symm
  rw [OnlyQuoted, if_pos rfl, Bool.not_false, append_inside unquoted oneLine, OnlyQuoted,
    if_pos rfl, Bool.not_true]
  simp [mark]

/-- Where a character does not occur, it does not occur outside quotes. -/
theorem of_not_mem {text : Text} (absent : character ∉ text) (quoted : Bool) :
    OnlyQuoted character byLine quoted text := by
  induction text generalizing quoted with
  | nil => trivial
  | cons first others inductionHypothesis =>
      rw [List.mem_cons, not_or] at absent
      exact ⟨fun same => absurd same.symm absent.1, inductionHypothesis absent.2 _⟩

end OnlyQuoted

/-! ## Comments -/

/-- A source keeps its slashes, and so has no comments, if they stand in quotes
only. -/
theorem stripComments_of_onlyQuoted {source : Text}
    (hidden : OnlyQuoted '/' false false source) :
    stripComments source = source := by
  suffices zones : ∀ quoted, OnlyQuoted '/' false quoted source →
      stripFrom (if quoted then .quoted else .plain) source = source from zones false hidden
  clear hidden
  induction source with
  | nil =>
      intro quoted _
      rw [stripFrom]
  | cons first rest inductionHypothesis =>
      intro quoted clean
      obtain ⟨slash, behind⟩ := clean
      have next := inductionHypothesis _ behind
      by_cases mark : first = '"'
      · subst mark
        cases quoted with
        | false =>
            simp only [if_true, Bool.not_false] at next
            simp only [Bool.false_eq_true, if_false, stripFrom, next]
        | true =>
            simp only [if_true, Bool.not_true, Bool.false_eq_true, if_false] at next
            simp only [if_true, stripFrom, next]
      · simp only [mark, if_false, Bool.false_and, Bool.not_false, Bool.and_true] at next
        cases quoted with
        | false =>
            have plain : first ≠ '/' := fun same => absurd (slash same) (by decide)
            simp only [Bool.false_eq_true, if_false] at next ⊢
            rw [stripFrom, next]
            · exact mark
            · intro _ same
              exact absurd same plain
        | true =>
            simp only [if_true] at next ⊢
            rw [stripFrom, next]
            exact mark

/-! ## Lines without references -/

section Lines

variable {quoted : Bool} {line : Text}

/-- A dollar sign in quotes is no reference. -/
theorem resolveLine_of_onlyQuoted (hidden : OnlyQuoted '$' true quoted line)
    (oneLine : '\n' ∉ line) (known : Variables) :
    resolveLine known quoted line = .ok line := by
  induction line generalizing quoted with
  | nil => rw [resolveLine]
  | cons first rest inductionHypothesis =>
      obtain ⟨dollar, behind⟩ := hidden
      rw [List.mem_cons, not_or] at oneLine
      have notFeed : (first == '\n') = false := by
        rw [beq_eq_false_iff_ne]
        exact fun same => oneLine.1 same.symm
      rw [notFeed, Bool.and_false, Bool.not_false, Bool.and_true] at behind
      have next := inductionHypothesis behind oneLine.2
      rw [resolveLine]
      by_cases mark : first = '"'
      · rw [if_pos mark] at next
        rw [if_pos mark, next, mark]
        rfl
      · rw [if_neg mark] at next
        have verbatim : (quoted || decide (first ≠ '$')) = true := by
          by_cases reference : first = '$'
          · rw [dollar reference, Bool.true_or]
          · simp [reference]
        rw [if_neg mark, if_pos (by simpa using verbatim), next]
        rfl

/-- A line whose dollar signs stand in quotes does not open with one. -/
theorem not_opensWithDollar_of_onlyQuoted (hidden : OnlyQuoted '$' true false line) :
    ¬ OpensWithDollar line := by
  unfold OpensWithDollar
  induction line with
  | nil => simp
  | cons first rest inductionHypothesis =>
      obtain ⟨dollar, behind⟩ := hidden
      cases blank : Text.isBlank first with
      | true =>
          have plain : first ≠ '"' := by
            rintro rfl
            exact absurd blank (by decide)
          rw [if_neg plain, Bool.false_and] at behind
          rw [List.find?_cons_of_neg (by simp [blank])]
          exact inductionHypothesis behind
      | false =>
          rw [List.find?_cons_of_pos (by simp [blank])]
          exact fun same => absurd (dollar (Option.some.inj same)) (by decide)

end Lines

/-! ## Untouched lines -/

/-- A line that preprocessing leaves alone: it is no definition line, and it
comes out as it is whatever variables are known. -/
structure Untouched (line : Text) : Prop where
  defines : isDefinitionLine line = false
  resolves : ∀ known, resolveLine known false line = .ok line

theorem isDefinitionLine_eq_false {line : Text} (other : ¬ OpensWithDollar line) :
    isDefinitionLine line = false := by
  rw [← Bool.not_eq_true, isDefinitionLine_iff]
  exact other

theorem untouched_of_onlyQuoted {line : Text} (hidden : OnlyQuoted '$' true false line)
    (oneLine : '\n' ∉ line) :
    Untouched line :=
  ⟨isDefinitionLine_eq_false (not_opensWithDollar_of_onlyQuoted hidden),
    resolveLine_of_onlyQuoted hidden oneLine⟩

theorem definitionOf?_eq_none {line : Text} (other : isDefinitionLine line = false) :
    definitionOf? line = none := by
  unfold definitionOf?
  split
  · next body shape =>
    rw [isDefinitionLine, shape] at other
    cases other
  · rfl

/-- A source without definition lines defines no variable. -/
theorem extractVariables_eq_empty {source : Text}
    (others : ∀ line ∈ Text.lines source, isDefinitionLine line = false) :
    extractVariables source = Table.empty := by
  have nothing : (Text.lines source).filterMap definitionOf? = [] := by
    rw [List.filterMap_eq_nil_iff]
    intro line member
    exact definitionOf?_eq_none (others line member)
  rw [extractVariables, nothing]
  rfl

theorem resolveLines_of_untouched {lines : List Text}
    (untouched : ∀ line ∈ lines, Untouched line) (known : Variables) :
    resolveLines known lines = .ok (Text.endLines lines) := by
  induction lines with
  | nil => rfl
  | cons line others inductionHypothesis =>
      obtain ⟨first, behind⟩ := List.forall_mem_cons.mp untouched
      rw [resolveLines, first.defines, if_neg (by decide), first.resolves known,
        inductionHypothesis behind]
      show Except.ok (line ++ '\n' :: Text.endLines others) = _
      rw [Text.endLines, Text.endLines, List.flatMap_cons, List.append_assoc,
        List.singleton_append]

/-- A source without comments whose lines are left alone defines no variable,
and preprocessing only ends each line anew. -/
theorem preprocess_of_untouched {source : Text}
    (slashes : OnlyQuoted '/' false false source)
    (untouched : ∀ line ∈ Text.lines source, Untouched line) :
    extractVariables (stripComments source) = Table.empty ∧
      preprocess source = .ok (Text.endLines (Text.lines source)) := by
  have kept := stripComments_of_onlyQuoted slashes
  constructor
  · rw [kept]
    exact extractVariables_eq_empty fun line member => (untouched line member).defines
  · rw [preprocess, kept, resolveVariables, resolveLines_of_untouched untouched]

/-! ## Lines without variables -/

/-- A line in which nothing is taken for a variable: it does not open with a
dollar sign, and no dollar sign has a character of a name directly behind it. -/
def VariableFree (line : Text) : Prop :=
  ¬ OpensWithDollar line ∧
    line.IsChain fun first second => first = '$' → ¬ Text.isWordChar second

instance (line : Text) : Decidable (VariableFree line) := by
  unfold VariableFree
  infer_instance

/-- Dollar signs without a name behind them are kept, in quotes or not. -/
theorem resolveLine_of_nameless {line : Text}
    (nameless : line.IsChain fun first second => first = '$' → ¬ Text.isWordChar second)
    (known : Variables) (quoted : Bool) :
    resolveLine known quoted line = .ok line := by
  induction line generalizing quoted with
  | nil => rw [resolveLine]
  | cons first rest inductionHypothesis =>
      obtain ⟨apart, behind⟩ := List.isChain_cons.mp nameless
      have next := inductionHypothesis behind
      by_cases reference : quoted = false ∧ first = '$'
      · obtain ⟨rfl, rfl⟩ := reference
        have noWord : ¬ ∃ name behind, Word rest name behind := by
          rintro ⟨name, behind, word⟩
          obtain ⟨second, others, rfl, letter⟩ := word.opens
          exact apart second rfl rfl letter
        rw [resolveLine_of_no_word noWord, next]
        rfl
      · have verbatim : (quoted || decide (first ≠ '$')) = true := by
          by_contra other
          exact reference (by simpa using other)
        rw [resolveLine, if_pos verbatim, next, next]
        split_ifs with mark
        · rw [mark]
          rfl
        · rfl

theorem VariableFree.untouched {line : Text} (free : VariableFree line) : Untouched line where
  defines := isDefinitionLine_eq_false free.1
  resolves := fun known => resolveLine_of_nameless free.2 known false

/-- What has no dollar sign and starts with a quotation mark adds no variable to a
line. -/
theorem VariableFree.append {line rest : Text} (free : VariableFree line)
    (plain : '$' ∉ rest) : VariableFree (line ++ '"' :: rest) := by
  obtain ⟨opens, nameless⟩ := free
  have absent : '$' ∉ '"' :: rest := by
    rw [List.mem_cons, not_or]
    exact ⟨by decide, plain⟩
  constructor
  · intro opensWhole
    rw [OpensWithDollar, List.find?_append, Option.or_eq_some_iff] at opensWhole
    rcases opensWhole with inLine | ⟨_, behind⟩
    · exact opens inLine
    · exact absent (List.mem_of_find?_eq_some behind)
  · apply nameless.append
    · apply (List.isChain_isInfix _).imp
      intro first second pair dollar
      exact absurd (dollar ▸ pair.subset List.mem_cons_self) absent
    · intro first _ second head _
      rw [← Option.some.inj head]
      decide

/-- If no variable is known, replacing changes nothing where it succeeds. -/
theorem eq_of_resolveLine {known : Variables} {quoted : Bool} {line result : Text}
    (undefined : ∀ name, known.get? name = none)
    (resolved : resolveLine known quoted line = .ok result) :
    result = line := by
  fun_induction resolveLine known quoted line generalizing result with
  | case1 quoted => exact (Except.ok.inj resolved).symm
  | case2 quoted rest inductionHypothesis =>
      obtain ⟨behind, later, rfl⟩ := map_eq_ok_iff.mp resolved
      rw [inductionHypothesis later]
  | case3 quoted character rest notQuote verbatim inductionHypothesis =>
      obtain ⟨behind, later, rfl⟩ := map_eq_ok_iff.mp resolved
      rw [inductionHypothesis later]
  | case4 quoted character rest notQuote dollar nameless inductionHypothesis =>
      obtain ⟨behind, later, rfl⟩ := map_eq_ok_iff.mp resolved
      simp only [Bool.or_eq_true, decide_eq_true_eq, not_or, ne_eq, not_not] at dollar
      rw [inductionHypothesis later, dollar.2]
  | case5 quoted character rest notQuote dollar named unknown => cases resolved
  | case6 quoted character rest notQuote dollar value named found inductionHypothesis =>
      rw [undefined] at found
      cases found

/-- If no variable is known, a line that is kept has no variables, up to its first
quotation mark. -/
theorem variableFree_of_resolveLine {known : Variables} {line rest result : Text}
    (undefined : ∀ name, known.get? name = none) (unquoted : '"' ∉ line)
    (other : isDefinitionLine (line ++ rest) = false)
    (resolved : resolveLine known false (line ++ rest) = .ok result) :
    VariableFree line := by
  constructor
  · intro opens
    have definition : isDefinitionLine (line ++ rest) = true := by
      rw [isDefinitionLine_iff, OpensWithDollar, List.find?_append, opens, Option.some_or]
    rw [definition] at other
    cases other
  · clear other
    induction line generalizing result with
    | nil => exact List.IsChain.nil
    | cons first others inductionHypothesis =>
        rw [List.mem_cons, not_or] at unquoted
        have mark : first ≠ '"' := fun same => unquoted.1 same.symm
        rw [List.cons_append] at resolved
        rw [List.isChain_cons]
        by_cases dollar : first = '$'
        · subst dollar
          have noWord : ¬ ∃ name behind, Word (others ++ rest) name behind := by
            rintro ⟨name, behind, word⟩
            rw [resolveLine_of_word word, undefined] at resolved
            cases resolved
          rw [resolveLine_of_no_word noWord] at resolved
          obtain ⟨later, found, _⟩ := map_eq_ok_iff.mp resolved
          refine ⟨?_, inductionHypothesis unquoted.2 found⟩
          intro second head _ letter
          obtain ⟨more, rfl⟩ := List.head?_eq_some_iff.mp head
          refine noWord ⟨_, _, ?_, maximalRun_iff.mpr ⟨rfl, rfl⟩⟩
          rw [List.cons_append, List.takeWhile_cons_of_pos letter]
          exact List.cons_ne_nil _ _
        · rw [resolveLine, if_neg mark, if_pos (by simp [dollar])] at resolved
          obtain ⟨later, found, _⟩ := map_eq_ok_iff.mp resolved
          exact ⟨fun _ _ same => absurd same dollar, inductionHypothesis unquoted.2 found⟩

/-- If no variable is known and no line is a definition line, preprocessing gives
the lines themselves. -/
theorem eq_of_resolvesTo {known : Variables} {lines resolved : List Text}
    (undefined : ∀ name, known.get? name = none)
    (others : ∀ line ∈ lines, isDefinitionLine line = false)
    (related : List.Forall₂ (ResolvesTo known) lines resolved) :
    resolved = lines ∧ ∀ line ∈ lines, resolveLine known false line = .ok line := by
  induction related with
  | nil => simp
  | @cons line text behind texts made related inductionHypothesis =>
      obtain ⟨other, behindOthers⟩ := List.forall_mem_cons.mp others
      obtain ⟨same, kept⟩ := inductionHypothesis behindOthers
      rw [ResolvesTo, other, if_neg (by decide)] at made
      obtain rfl := eq_of_resolveLine undefined made
      rw [same]
      exact ⟨rfl, List.forall_mem_cons.mpr ⟨made, kept⟩⟩

/-! ## Sources without references -/

/-- Whether each of some lines has its dollar signs in quotes only. The first
line may start inside quotes; the others start outside. -/
def LinesOnlyQuoted (quoted : Bool) : List Text → Prop
  | [] => True
  | line :: others =>
    OnlyQuoted '$' true quoted line ∧ ∀ other ∈ others, OnlyQuoted '$' true false other

theorem linesOnlyQuoted_false_iff {lines : List Text} :
    LinesOnlyQuoted false lines ↔ ∀ line ∈ lines, OnlyQuoted '$' true false line := by
  cases lines with
  | nil => simp [LinesOnlyQuoted]
  | cons line others => simp [LinesOnlyQuoted]

theorem OnlyQuoted.behind_feed {character : Char} {quoted : Bool} {rest : Text}
    (hidden : OnlyQuoted character true quoted ('\n' :: rest)) :
    OnlyQuoted character true false rest := by
  have behind := hidden.2
  rwa [if_neg (by decide), beq_self_eq_true, Bool.and_true, Bool.not_true, Bool.and_false]
    at behind

theorem linesOnlyQuoted_lines {quoted : Bool} {text : Text}
    (hidden : OnlyQuoted '$' true quoted text) :
    LinesOnlyQuoted quoted (Text.lines text) := by
  fun_induction Text.lines text generalizing quoted with
  | case1 => trivial
  | case2 rest inductionHypothesis =>
      have others := linesOnlyQuoted_false_iff.mp (inductionHypothesis hidden.behind_feed)
      exact ⟨trivial, others⟩
  | case3 rest inductionHypothesis =>
      have behind := hidden.2
      rw [if_neg (by decide)] at behind
      have others := linesOnlyQuoted_false_iff.mp (inductionHypothesis behind.behind_feed)
      exact ⟨trivial, others⟩
  | case4 character rest notFeed notReturn noLines inductionHypothesis =>
      exact ⟨⟨hidden.1, trivial⟩, by simp⟩
  | case5 character rest notFeed notReturn line others found inductionHypothesis =>
      have next := inductionHypothesis hidden.2
      rw [found] at next
      exact ⟨⟨hidden.1, next.1⟩, next.2⟩

/-- A source whose slashes and dollar signs stand in quotes only defines no
variable, and preprocessing changes nothing in it but line ends. -/
theorem preprocess_of_onlyQuoted {source : Text}
    (slashes : OnlyQuoted '/' false false source)
    (dollars : OnlyQuoted '$' true false source) :
    extractVariables (stripComments source) = Table.empty ∧
      ∃ tail, Text.IsLastEnd tail ∧
        preprocess source = .ok (Text.unifyLineEnds source ++ tail) := by
  have hidden := linesOnlyQuoted_false_iff.mp (linesOnlyQuoted_lines dollars)
  have untouched : ∀ line ∈ Text.lines source, Untouched line := by
    intro line member
    exact untouched_of_onlyQuoted (hidden line member) (Text.not_mem_of_mem_lines member)
  obtain ⟨undefined, kept⟩ := preprocess_of_untouched slashes untouched
  obtain ⟨tail, last, ends⟩ := Text.endLines_lines source
  rw [ends] at kept
  exact ⟨undefined, tail, last, kept⟩

end Sheet

end TerminalMarkup
