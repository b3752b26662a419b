import TerminalMarkup.Proofs.Sheet.KeptLines
import TerminalMarkup.Proofs.Sheet.Tokens

/-!
Contract: the references of a source, and what replacing them gives.

A line is read as a list of fragments. Each is one character, which is kept, or
a reference: a dollar sign outside quotes and the longest name directly behind
it. A place lies outside quotes if an even number of quotation marks stands
before it in its line. This says what the references are without any variables,
and every line is read in one way (`ReadsAs.unique`, `exists_readsAs`).

Replacing goes over the lines once (`resolveVariables_single_pass`). It fails
exactly at the first reference to an undefined variable, and otherwise puts the
value in the place of each reference. What a value says decides nothing else,
and other variables decide nothing at all.
-/

set_option autoImplicit false

namespace TerminalMarkup.Sheet

open Phrase (Word)

/-! ## Fragments -/

/-- A part of a line: a character that is kept, or a reference to a variable. -/
inductive Fragment where
  | kept (character : Char)
  | reference (name : Text)
deriving DecidableEq, Repr

namespace Fragment

def name? : Fragment → Option Text
  | kept _ => none
  | reference name => some name

/-- The text that comes in the place of a fragment. -/
def replaced (known : Variables) : Fragment → Text
  | kept character => [character]
  | reference name => (known.get? name).getD []

end Fragment

/-- The variables that some fragments refer to, in text order. -/
def references (fragments : List Fragment) : List Text :=
  fragments.filterMap Fragment.name?

/-- The text of some fragments with the references replaced. -/
def substituted (known : Variables) (fragments : List Fragment) : Text :=
  fragments.flatMap (Fragment.replaced known)

/-- Whether quotes are open behind a text: it has an odd number of quotation
marks. -/
def quotesOpen (before : Text) : Bool :=
  before.count '"' % 2 == 1

/-- Whether a dollar sign between two texts of a line refers to a variable: it
stands outside quotes, and the name is the longest word behind it. -/
def RefersTo (before rest name behind : Text) : Prop :=
  quotesOpen before = false ∧ Word rest name behind

/-- How a text is read that stands behind another one in a line. A dollar sign
is kept only where it refers to nothing. -/
inductive ReadsAs : Text → Text → List Fragment → Prop where
  | nil {before : Text} : ReadsAs before [] []
  | kept {before rest : Text} {character : Char} {fragments : List Fragment}
      (plain : character = '$' → ¬ ∃ name behind, RefersTo before rest name behind)
      (further : ReadsAs (before ++ [character]) rest fragments) :
      ReadsAs before (character :: rest) (.kept character :: fragments)
  | reference {before rest name behind : Text} {fragments : List Fragment}
      (refers : RefersTo before rest name behind)
      (further : ReadsAs (before ++ '$' :: name) behind fragments) :
      ReadsAs before ('$' :: rest) (.reference name :: fragments)

/-- Whether the first character of a line that is no white space is a dollar
sign. -/
def OpensWithDollar (line : Text) : Prop :=
  line.find? (fun character => !Text.isBlank character) = some '$'

instance (line : Text) : Decidable (OpensWithDollar line) := by
  unfold OpensWithDollar
  infer_instance

/-- How a line is read. A line that opens with a dollar sign has no fragments:
nothing of it is kept and it refers to nothing. -/
def LineReadsAs (line : Text) (fragments : List Fragment) : Prop :=
  if OpensWithDollar line then fragments = [] else ReadsAs [] line fragments

/-! ## One way to read -/

/-- A line is read in one way only. -/
theorem ReadsAs.unique {before line : Text} {fragments others : List Fragment}
    (reads : ReadsAs before line fragments) (otherReads : ReadsAs before line others) :
    fragments = others := by
  induction reads generalizing others with
  | nil =>
      cases otherReads
      rfl
  | kept plain further inductionHypothesis =>
      cases otherReads with
      | kept _ otherFurther => rw [inductionHypothesis otherFurther]
      | reference refers _ => exact absurd ⟨_, _, refers⟩ (plain rfl)
  | reference refers further inductionHypothesis =>
      cases otherReads with
      | kept plain _ => exact absurd ⟨_, _, refers⟩ (plain rfl)
      | reference otherRefers otherFurther =>
          obtain ⟨rfl, rfl⟩ := refers.2.unique otherRefers.2
          rw [inductionHypothesis otherFurther]

/-- Every line can be read. -/
theorem exists_readsAs (before line : Text) : ∃ fragments, ReadsAs before line fragments := by
  induction bound : line.length using Nat.strongRecOn generalizing before line with
  | ind length inductionHypothesis =>
      cases line with
      | nil => exact ⟨[], .nil⟩
      | cons character rest =>
          subst bound
          by_cases refers : character = '$' ∧ ∃ name behind, RefersTo before rest name behind
          · obtain ⟨rfl, name, behind, found⟩ := refers
            have shorter : behind.length < ('$' :: rest).length :=
              found.2.length_lt.trans (Nat.lt_succ_self _)
            obtain ⟨fragments, further⟩ :=
              inductionHypothesis _ shorter (before ++ '$' :: name) behind rfl
            exact ⟨.reference name :: fragments, .reference found further⟩
          · obtain ⟨fragments, further⟩ :=
              inductionHypothesis _ (Nat.lt_succ_self _) (before ++ [character]) rest rfl
            exact ⟨.kept character :: fragments,
              .kept (fun dollar found => refers ⟨dollar, found⟩) further⟩

theorem LineReadsAs.unique {line : Text} {fragments others : List Fragment}
    (reads : LineReadsAs line fragments) (otherReads : LineReadsAs line others) :
    fragments = others := by
  unfold LineReadsAs at reads otherReads
  split_ifs at reads otherReads
  · rw [reads, otherReads]
  · exact reads.unique otherReads

theorem exists_lineReadsAs (line : Text) : ∃ fragments, LineReadsAs line fragments := by
  unfold LineReadsAs
  split_ifs
  · exact ⟨[], rfl⟩
  · exact exists_readsAs [] line

/-! ## Undefined references -/

/-- A text, unless one of some names has no value. The first such name is the
error. -/
def unlessUndefined (known : Variables) (names : List Text) (text : Text) :
    Except SheetError Text :=
  match names.find? fun name => (known.get? name).isNone with
  | none => .ok text
  | some name => .error (.unknownVariable name)

section Undefined

variable {known : Variables}

theorem unlessUndefined_cons_of_none {name : Text} (unknown : known.get? name = none)
    (names : List Text) (text : Text) :
    unlessUndefined known (name :: names) text = .error (.unknownVariable name) := by
  rw [unlessUndefined, List.find?_cons_of_pos (by rw [unknown]; rfl)]

theorem unlessUndefined_cons_of_some {name value : Text} (found : known.get? name = some value)
    (names : List Text) (text : Text) :
    unlessUndefined known (name :: names) text = unlessUndefined known names text := by
  rw [unlessUndefined, List.find?_cons_of_neg (by rw [found]; simp), unlessUndefined]

theorem map_unlessUndefined (names : List Text) (text : Text) (change : Text → Text) :
    (unlessUndefined known names text).map change =
      unlessUndefined known names (change text) := by
  unfold unlessUndefined
  cases names.find? fun name => (known.get? name).isNone <;> rfl

/-- Of two outcomes in a row the first error counts. -/
theorem unlessUndefined_append (front back : List Text) (first second : Text)
    (join : Text → Text → Text) :
    (unlessUndefined known front first >>= fun start =>
        unlessUndefined known back second >>= fun rest => .ok (join start rest)) =
      unlessUndefined known (front ++ back) (join first second) := by
  induction front with
  | nil =>
      show (unlessUndefined known back second >>= fun rest => .ok (join first rest)) = _
      exact map_unlessUndefined back second (join first)
  | cons name names inductionHypothesis =>
      rw [List.cons_append]
      cases found : known.get? name with
      | none => rw [unlessUndefined_cons_of_none found, unlessUndefined_cons_of_none found]; rfl
      | some value =>
          rw [unlessUndefined_cons_of_some found, unlessUndefined_cons_of_some found,
            inductionHypothesis]

end Undefined

/-! ## Replacing in a line -/

theorem quotesOpen_append_of_not_mem {before stretch : Text} (unquoted : '"' ∉ stretch) :
    quotesOpen (before ++ stretch) = quotesOpen before := by
  rw [quotesOpen, List.count_append, List.count_eq_zero.mpr unquoted, Nat.add_zero, quotesOpen]

theorem quotesOpen_append_mark (before : Text) :
    quotesOpen (before ++ ['"']) = !quotesOpen before := by
  unfold quotesOpen
  rw [List.count_append, List.count_singleton_self]
  rcases Nat.mod_two_eq_zero_or_one (before.count '"') with even | odd
  · rw [even, Nat.add_mod, even]
    rfl
  · rw [odd, Nat.add_mod, odd]
    rfl

/-- Word characters do not open or close quotes, nor do dollar signs. -/
theorem RefersTo.quotesOpen_append {before rest name behind : Text}
    (refers : RefersTo before rest name behind) :
    quotesOpen (before ++ '$' :: name) = false := by
  obtain ⟨outside, _, _, inside, _⟩ := refers
  have unquoted : '"' ∉ '$' :: name := by
    rw [List.mem_cons, not_or]
    refine ⟨by decide, fun member => ?_⟩
    exact absurd (inside _ member) (by decide)
  rw [quotesOpen_append_of_not_mem unquoted, outside]

/-- What replacing makes of a dollar sign that stands outside quotes and refers to
nothing. -/
theorem resolveLine_of_no_word {rest : Text} (nameless : ¬ ∃ name behind, Word rest name behind)
    (known : Variables) :
    resolveLine known false ('$' :: rest) =
      (resolveLine known false rest).map ('$' :: ·) := by
  have empty : rest.takeWhile Text.isWordChar = [] := by
    by_contra nonempty
    exact nameless ⟨_, _, nonempty, Phrase.maximalRun_iff.mpr ⟨rfl, rfl⟩⟩
  rw [resolveLine, if_neg (by decide), if_neg (by decide), empty]

theorem resolveLine_of_word {rest name behind : Text} (found : Word rest name behind)
    (known : Variables) :
    resolveLine known false ('$' :: rest) =
      match known.get? name with
      | none => .error (.unknownVariable name)
      | some value => (resolveLine known false behind).map (value ++ ·) := by
  obtain ⟨nonempty, run⟩ := found
  obtain ⟨rfl, rfl⟩ := Phrase.maximalRun_iff.mp run
  rw [resolveLine, if_neg (by decide), if_neg (by decide)]
  split
  · next empty => exact absurd empty nonempty
  · rfl

theorem resolveLine_of_readsAs {before line : Text} {fragments : List Fragment}
    (reads : ReadsAs before line fragments) (known : Variables) :
    resolveLine known (quotesOpen before) line =
      unlessUndefined known (references fragments) (substituted known fragments) := by
  induction reads with
  | nil =>
      rw [resolveLine]
      rfl
  | @kept before rest character fragments plain further inductionHypothesis =>
      have result (outcome : resolveLine known (quotesOpen before) (character :: rest) =
          (resolveLine known (quotesOpen (before ++ [character])) rest).map (character :: ·)) :
          resolveLine known (quotesOpen before) (character :: rest) =
            unlessUndefined known (references (.kept character :: fragments))
              (substituted known (.kept character :: fragments)) := by
        rw [outcome, inductionHypothesis, map_unlessUndefined]
        rfl
      apply result
      by_cases mark : character = '"'
      · subst mark
        rw [resolveLine, if_pos rfl, quotesOpen_append_mark]
      · have same : quotesOpen (before ++ [character]) = quotesOpen before :=
          quotesOpen_append_of_not_mem (by simpa using Ne.symm mark)
        rw [same]
        by_cases dollar : quotesOpen before = false ∧ character = '$'
        · obtain ⟨outside, rfl⟩ := dollar
          rw [outside]
          apply resolveLine_of_no_word
          rintro ⟨name, behind, word⟩
          exact plain rfl ⟨name, behind, outside, word⟩
        · have verbatim : (quotesOpen before || decide (character ≠ '$')) = true := by
            by_contra other
            simp at other
            exact dollar other
          rw [resolveLine, if_neg mark, if_pos verbatim]
  | @reference before rest name behind fragments refers further inductionHypothesis =>
      have names : references (.reference name :: fragments) = name :: references fragments := rfl
      rw [refers.quotesOpen_append] at inductionHypothesis
      rw [refers.1, resolveLine_of_word refers.2, names, inductionHypothesis]
      cases found : known.get? name with
      | none => rw [unlessUndefined_cons_of_none found]
      | some value =>
          rw [unlessUndefined_cons_of_some found]
          show (unlessUndefined known _ _).map (value ++ ·) = _
          rw [map_unlessUndefined]
          simp [substituted, Fragment.replaced, found]

/-! ## Replacing in a source -/

/-- Trimming a line keeps its first character that is no white space. -/
theorem head?_trim (line : Text) :
    (Text.trim line).head? = line.find? fun character => !Text.isBlank character := by
  rw [List.find?_not_eq_head?_dropWhile, Text.trim, Text.trimStart]
  cases shape : line.dropWhile Text.isBlank with
  | nil => rfl
  | cons first rest =>
      have solid : ¬ Text.isBlank first := by
        have boundary := List.head?_dropWhile_not Text.isBlank line
        rw [shape] at boundary
        simpa using boundary
      rw [Text.trimEnd]
      split
      · rw [if_neg solid]
        rfl
      · rfl

theorem isDefinitionLine_iff {line : Text} :
    isDefinitionLine line = true ↔ OpensWithDollar line := by
  rw [isDefinitionLine, decide_eq_true_eq, head?_trim, OpensWithDollar]

theorem resolveLine_of_lineReadsAs {line : Text} {fragments : List Fragment}
    (reads : LineReadsAs line fragments) (known : Variables) :
    (if isDefinitionLine line then .ok [] else resolveLine known false line) =
      unlessUndefined known (references fragments) (substituted known fragments) := by
  unfold LineReadsAs at reads
  split_ifs at reads with opens
  · rw [if_pos (isDefinitionLine_iff.mpr opens), reads]
    rfl
  · rw [if_neg (by rwa [isDefinitionLine_iff])]
    exact resolveLine_of_readsAs reads known

theorem resolveLines_of_lineReadsAs {lines : List Text} {readings : List (List Fragment)}
    (read : List.Forall₂ LineReadsAs lines readings) (known : Variables) :
    resolveLines known lines =
      unlessUndefined known (readings.flatMap references)
        (Text.endLines (readings.map (substituted known))) := by
  induction read with
  | nil => rfl
  | @cons line fragments others more reads behind inductionHypothesis =>
      rw [resolveLines_cons, resolveLine_of_lineReadsAs reads, inductionHypothesis,
        unlessUndefined_append _ _ _ _ fun resolved rest => resolved ++ '\n' :: rest]
      simp [Text.endLines]

/-- The lines of a source can be read, and in one way only. -/
theorem exists_unique_readings (lines : List Text) :
    ∃ readings, ∀ others, List.Forall₂ LineReadsAs lines others ↔ others = readings := by
  induction lines with
  | nil => exact ⟨[], fun others => List.forall₂_nil_left_iff⟩
  | cons line lines inductionHypothesis =>
      obtain ⟨readings, further⟩ := inductionHypothesis
      obtain ⟨fragments, reads⟩ := exists_lineReadsAs line
      refine ⟨fragments :: readings, fun others => ?_⟩
      rw [List.forall₂_cons_left_iff]
      constructor
      · rintro ⟨first, rest, firstReads, restReads, rfl⟩
        rw [firstReads.unique reads, (further rest).mp restReads]
      · rintro rfl
        exact ⟨fragments, readings, reads, (further readings).mpr rfl, rfl⟩

/-! ## Other variables -/

section Changed

variable {known changed : Variables} {names : List Text}

/-- Which name is undefined depends on no value. -/
theorem find?_undefined_congr
    (alike : ∀ name ∈ names, (changed.get? name).isSome = (known.get? name).isSome) :
    (names.find? fun name => (changed.get? name).isNone) =
      names.find? fun name => (known.get? name).isNone := by
  induction names with
  | nil => rfl
  | cons name names inductionHypothesis =>
      obtain ⟨here, others⟩ := List.forall_mem_cons.mp alike
      have same : (changed.get? name).isNone = (known.get? name).isNone := by
        rw [← Option.not_isSome, ← Option.not_isSome, here]
      rw [List.find?_cons, List.find?_cons, same, inductionHypothesis others]

theorem unlessUndefined_error_congr
    (alike : ∀ name ∈ names, (changed.get? name).isSome = (known.get? name).isSome)
    (text other : Text) (cause : SheetError) :
    unlessUndefined changed names text = .error cause ↔
      unlessUndefined known names other = .error cause := by
  unfold unlessUndefined
  rw [find?_undefined_congr alike]
  cases names.find? fun name => (known.get? name).isNone with
  | none => simp
  | some name => rfl

theorem substituted_congr {fragments : List Fragment}
    (same : ∀ name ∈ references fragments, changed.get? name = known.get? name) :
    substituted changed fragments = substituted known fragments := by
  apply List.flatMap_congr
  intro fragment member
  cases fragment with
  | kept character => rfl
  | reference name =>
      have referred : name ∈ references fragments := List.mem_filterMap.mpr ⟨_, member, rfl⟩
      rw [Fragment.replaced, Fragment.replaced, same name referred]

theorem unlessUndefined_substituted_congr {readings : List (List Fragment)}
    (same : ∀ name ∈ readings.flatMap references, changed.get? name = known.get? name) :
    unlessUndefined changed (readings.flatMap references)
        (Text.endLines (readings.map (substituted changed))) =
      unlessUndefined known (readings.flatMap references)
        (Text.endLines (readings.map (substituted known))) := by
  have texts : readings.map (substituted changed) = readings.map (substituted known) := by
    apply List.map_congr_left
    intro fragments member
    apply substituted_congr
    intro name referred
    exact same name (List.mem_flatMap.mpr ⟨fragments, member, referred⟩)
  have undefined := find?_undefined_congr fun name member =>
    congrArg Option.isSome (same name member)
  rw [unlessUndefined, unlessUndefined, undefined, texts]

end Changed

/-- Every source is read in one way, whatever the variables are. Replacing its
references fails at the first one that is undefined, and otherwise gives the
lines with each reference replaced and a line feed behind each. Failure depends
on which of the references are defined and not on their values, and variables
that are not referred to change nothing. -/
theorem resolveVariables_single_pass (source : Text) :
    ∃ readings, (∀ others,
        List.Forall₂ LineReadsAs (Text.lines source) others ↔ others = readings) ∧
      (∀ known, resolveVariables source known =
        unlessUndefined known (readings.flatMap references)
          (Text.endLines (readings.map (substituted known)))) ∧
      (∀ known changed,
        (∀ name ∈ readings.flatMap references,
          (changed.get? name).isSome = (known.get? name).isSome) →
        ∀ cause, resolveVariables source changed = .error cause ↔
          resolveVariables source known = .error cause) ∧
      ∀ known changed,
        (∀ name ∈ readings.flatMap references, changed.get? name = known.get? name) →
        resolveVariables source changed = resolveVariables source known := by
  obtain ⟨readings, unique⟩ := exists_unique_readings (Text.lines source)
  have replaced : ∀ known, resolveVariables source known =
      unlessUndefined known (readings.flatMap references)
        (Text.endLines (readings.map (substituted known))) :=
    resolveLines_of_lineReadsAs ((unique readings).mpr rfl)
  refine ⟨readings, unique, replaced, ?_, ?_⟩
  · intro known changed alike cause
    rw [replaced, replaced]
    exact unlessUndefined_error_congr alike _ _ cause
  · intro known changed same
    rw [replaced, replaced]
    exact unlessUndefined_substituted_congr same

/-- A value with a dollar sign and a quotation mark in it is inserted as it is,
and a variable that the text does not refer to changes nothing. -/
theorem dollar_in_value_inserted :
    resolveVariables "x$a".toList (Table.empty.insert "a".toList "\"$b".toList) =
        .ok "x\"$b\n".toList ∧
      (∀ cause,
        resolveVariables "x$a".toList (Table.empty.insert "a".toList "\"$b".toList) =
            .error cause ↔
          resolveVariables "x$a".toList (Table.empty.insert "a".toList "red".toList) =
            .error cause) ∧
      resolveVariables "x$a".toList
          ((Table.empty.insert "a".toList "\"$b".toList).insert "b".toList "red".toList) =
        resolveVariables "x$a".toList (Table.empty.insert "a".toList "\"$b".toList) := by
  obtain ⟨readings, unique, replaced, alike, same⟩ := resolveVariables_single_pass "x$a".toList
  have refers : RefersTo ['x'] ['a'] ['a'] [] :=
    ⟨rfl, by decide, Phrase.maximalRun_iff.mpr ⟨by decide, by decide⟩⟩
  have reads : ReadsAs [] "x$a".toList [.kept 'x', .reference ['a']] :=
    .kept (fun dollar => absurd dollar (by decide)) (.reference refers .nil)
  have read : List.Forall₂ LineReadsAs (Text.lines "x$a".toList)
      [[.kept 'x', .reference ['a']]] := by
    have lineReads : LineReadsAs "x$a".toList [.kept 'x', .reference ['a']] := by
      rw [LineReadsAs, if_neg (by decide)]
      exact reads
    exact .cons lineReads .nil
  obtain rfl := (unique _).mp read
  refine ⟨?_, ?_, ?_⟩
  · rw [replaced]
    decide
  · exact alike _ _ (by decide)
  · exact same _ _ (by decide)

end TerminalMarkup.Sheet
