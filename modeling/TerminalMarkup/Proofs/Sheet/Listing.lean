import Mathlib.Data.List.Basic
import TerminalMarkup.Proofs.Sheet.Acceptance

/-!
Contract: what a list in a value is, and that its reader reads just that.

A list is written as its values with separators between them. A separator is a
comma with white space around it, or white space alone, so the same white space
may be a separator or stand before a comma. The values are runs of a class of
characters that has neither commas nor white space, which settles where each of
them ends (`ReadsRuns.whole?_separated_iff`).

```text
list      = value (separator value)*
separator = ws* ',' ws* | ws+
```
-/

set_option autoImplicit false

namespace TerminalMarkup.Sheet

open Phrase Reader

/-! ## The grammar -/

/-- A text of grammar white space, which may be empty. -/
def IsSpacing (text : Text) : Prop :=
  ∀ character ∈ text, Text.isSpace character

/-- What stands between two values of a list. -/
inductive IsSeparator : Text → Prop where
  | comma {before behind : Text} (spaceBefore : IsSpacing before)
      (spaceBehind : IsSpacing behind) :
      IsSeparator (before ++ ',' :: behind)
  | space {run : Text} (nonempty : run ≠ []) (space : IsSpacing run) : IsSeparator run

/-- A text lists some values: they are written with a separator between each two
of them. There is one value at least. -/
inductive Lists {Value : Type} (written : Text → Value → Prop) : Text → List Value → Prop where
  | single {piece : Text} {value : Value} (first : written piece value) :
      Lists written piece [value]
  | more {piece separator text : Text} {value : Value} {values : List Value}
      (first : written piece value) (separates : IsSeparator separator)
      (others : Lists written text values) :
      Lists written (piece ++ (separator ++ text)) (value :: values)

/-- A reader takes what is written for a value, which is a maximal run of
characters of a class. The class has neither commas nor white space. -/
structure ReadsRuns {Value : Type} (reader : Reader Value) (written : Text → Value → Prop)
    (inClass : Char → Bool) : Prop where
  eq_some_iff : ∀ {text value rest}, reader text = some (value, rest) ↔
    ∃ run, written run value ∧ MaximalRun inClass text run rest
  nonempty : ∀ {run value}, written run value → run ≠ []
  inside : ∀ {run value}, written run value → ∀ character ∈ run, inClass character
  solid : ∀ {character}, inClass character → ¬ Text.isSpace character
  noComma : ¬ inClass ','

/-! ## Separators -/

section Separators

variable {text rest : Text}

theorem isSeparator_of_separator (skipped : separator text = some rest) :
    ∃ front, text = front ++ rest ∧ IsSeparator front := by
  unfold separator at skipped
  split at skipped
  · next behindComma comma =>
    obtain ⟨before, whole, spaceBefore⟩ :=
      (expect_skipSpace_eq_some_iff (by decide)).mp comma
    obtain ⟨behind, opens, spaceBehind⟩ := gap_skipSpace behindComma
    rw [Option.some.inj skipped] at opens
    refine ⟨before ++ ',' :: behind, ?_, .comma spaceBefore spaceBehind⟩
    rw [whole, opens, List.append_assoc, List.cons_append]
  · next noComma =>
    split_ifs at skipped with space
    cases text with
    | nil => cases space
    | cons first others =>
        have blank : Text.isSpace first := space
        have taken : (first :: others).takeWhile Text.isSpace ≠ [] := by
          rw [List.takeWhile_cons_of_pos blank]
          exact List.cons_ne_nil _ _
        refine ⟨(first :: others).takeWhile Text.isSpace, ?_,
          .space taken fun _ => List.mem_takeWhile_imp⟩
        rw [← Option.some.inj skipped]
        exact List.takeWhile_append_dropWhile.symm

theorem skipSpace_append {run : Text} (space : IsSpacing run)
    (solid : ∀ character ∈ rest.head?, ¬ Text.isSpace character) :
    skipSpace (run ++ rest) = rest :=
  (Gap.eq_skipSpace ⟨run, rfl, space⟩ solid).symm

theorem separator_of_comma (gap : Gap text (',' :: rest)) :
    separator text = some (skipSpace rest) := by
  have comma : expect ',' (skipSpace text) = some rest :=
    (expect_skipSpace_eq_some_iff (by decide)).mpr gap
  rw [separator, comma]

/-- A separator is skipped as a whole where neither white space nor a comma stands
behind it. -/
theorem separator_append {front : Text} (separates : IsSeparator front)
    (solid : ∀ character ∈ rest.head?, ¬ Text.isSpace character ∧ character ≠ ',') :
    separator (front ++ rest) = some rest := by
  have noSpace : ∀ character ∈ rest.head?, ¬ Text.isSpace character :=
    fun character first => (solid character first).1
  cases separates with
  | @comma before behind spaceBefore spaceBehind =>
      have gap : Gap (before ++ ',' :: behind ++ rest) (',' :: (behind ++ rest)) :=
        ⟨before, by rw [List.append_assoc, List.cons_append], spaceBefore⟩
      rw [separator_of_comma gap, skipSpace_append spaceBehind noSpace]
  | space nonempty space =>
      have noComma : expect ',' rest = none := by
        cases rest with
        | nil => rfl
        | cons first others => exact if_neg (solid first rfl).2
      have opens : (front ++ rest).head?.any Text.isSpace := by
        obtain ⟨first, others, rfl⟩ := List.exists_cons_of_ne_nil nonempty
        exact space first List.mem_cons_self
      rw [separator, skipSpace_append space noSpace, noComma]
      exact if_pos opens

theorem IsSeparator.opens {front : Text} (separates : IsSeparator front) :
    ∃ first others, front = first :: others ∧ (first = ',' ∨ Text.isSpace first) := by
  cases separates with
  | @comma before behind spaceBefore spaceBehind =>
      cases before with
      | nil => exact ⟨',', behind, rfl, .inl rfl⟩
      | cons first others =>
          exact ⟨first, _, rfl, .inr (spaceBefore first List.mem_cons_self)⟩
  | space nonempty space =>
      obtain ⟨first, others, rfl⟩ := List.exists_cons_of_ne_nil nonempty
      exact ⟨first, others, rfl, .inr (space first List.mem_cons_self)⟩

end Separators

/-! ## Reading lists -/

theorem separated_eq_some_iff {Value : Type} {reader : Reader Value} {text rest : Text}
    {values : List Value} :
    separated reader text = some (values, rest) ↔
      ∃ first behind others, reader text = some (first, behind) ∧
        many (fun next => separator next >>= reader) behind = (others, rest) ∧
        values = first :: others := by
  unfold separated
  constructor
  · intro read
    obtain ⟨⟨first, behind⟩, opened, given⟩ := Option.bind_eq_some_iff.mp read
    obtain ⟨rfl, rfl⟩ := Prod.mk.inj (Option.some.inj given)
    exact ⟨first, behind, _, opened, rfl, rfl⟩
  · rintro ⟨first, behind, others, opened, more, rfl⟩
    rw [opened]
    show some (first :: (many (fun next => separator next >>= reader) behind).1,
      (many (fun next => separator next >>= reader) behind).2) = _
    rw [more]

theorem whole?_eq_some_iff {Value : Type} {reader : Reader Value} {text : Text}
    {value : Value} :
    whole? reader text = some value ↔ reader text = some (value, []) := by
  unfold whole?
  cases reader text with
  | none => simp
  | some found =>
      obtain ⟨given, rest⟩ := found
      cases rest <;> simp

namespace ReadsRuns

variable {Value : Type} {reader : Reader Value} {written : Text → Value → Prop}
  {inClass : Char → Bool} {text rest : Text} {values : List Value}

theorem solid_of_mem_head? (reads : ReadsRuns reader written inClass) {run : Text}
    {value : Value} (given : written run value) :
    ∀ character ∈ (run ++ rest).head?, ¬ Text.isSpace character ∧ character ≠ ',' := by
  intro character first
  rw [List.head?_append_of_ne_nil _ (reads.nonempty given)] at first
  have letter := reads.inside given character (List.mem_of_mem_head? first)
  refine ⟨reads.solid letter, ?_⟩
  rintro rfl
  exact reads.noComma letter

/-- A list begins with the first of its values. -/
theorem opens (reads : ReadsRuns reader written inClass) (listed : Lists written text values)
    (rest : Text) :
    ∀ character ∈ (text ++ rest).head?, ¬ Text.isSpace character ∧ character ≠ ',' := by
  cases listed with
  | single first => exact reads.solid_of_mem_head? first
  | more first separates others =>
      rw [List.append_assoc]
      exact reads.solid_of_mem_head? first

/-- White space before a list is skipped, and nothing else. -/
theorem skipSpace_list (reads : ReadsRuns reader written inClass)
    (listed : Lists written text values) {run : Text} (space : IsSpacing run) (rest : Text) :
    skipSpace (run ++ (text ++ rest)) = text ++ rest :=
  skipSpace_append space fun character first => (reads.opens listed rest character first).1

/-- What a repetition reads behind a value makes a list with it. -/
theorem lists_many (reads : ReadsRuns reader written inClass) (text : Text) :
    ∃ tail, text = tail ++ (many (fun next => separator next >>= reader) text).2 ∧
      ∀ {piece value}, written piece value →
        Lists written (piece ++ tail)
          (value :: (many (fun next => separator next >>= reader) text).1) := by
  have stop : ∀ {piece value}, written piece value → Lists written (piece ++ []) [value] := by
    intro piece value first
    rw [List.append_nil]
    exact .single first
  induction text using many.induct (fun next => separator next >>= reader) with
  | case1 text nothing =>
      rw [many_of_none nothing]
      exact ⟨[], rfl, stop⟩
  | case2 text value rest found shorter _ _ _ inductionHypothesis =>
      rw [many_of_some found shorter]
      obtain ⟨start, skipped, given⟩ := Option.bind_eq_some_iff.mp found
      obtain ⟨front, rfl, separates⟩ := isSeparator_of_separator skipped
      obtain ⟨run, next, rfl, _, _⟩ := reads.eq_some_iff.mp given
      obtain ⟨tail, whole, others⟩ := inductionHypothesis
      refine ⟨front ++ (run ++ tail), ?_, fun first => .more first separates (others next)⟩
      rw [List.append_assoc, List.append_assoc, ← whole]
  | case3 text value rest found noShorter =>
      have nothing : many (fun next => separator next >>= reader) text = ([], text) := by
        rw [many, found]
        exact if_neg noShorter
      rw [nothing]
      exact ⟨[], rfl, stop⟩

/-- The values of a list are read where the text does not go on with another
one. -/
theorem separated_append (reads : ReadsRuns reader written inClass)
    (listed : Lists written text values)
    (apart : ∀ character ∈ rest.head?, ¬ inClass character)
    (stopped : (separator rest >>= reader) = none) :
    separated reader (text ++ rest) = some (values, rest) := by
  induction listed with
  | @single piece value first =>
      have read : reader (piece ++ rest) = some (value, rest) :=
        reads.eq_some_iff.mpr ⟨piece, first, rfl, reads.inside first, apart⟩
      exact separated_eq_some_iff.mpr ⟨value, rest, [], read, many_of_none stopped, rfl⟩
  | @more piece front text value values first separates others inductionHypothesis =>
      obtain ⟨second, behind, tail, opened, more, rfl⟩ :=
        separated_eq_some_iff.mp inductionHypothesis
      rw [List.append_assoc, List.append_assoc]
      have boundary : ∀ character ∈ (front ++ (text ++ rest)).head?, ¬ inClass character := by
        obtain ⟨opening, behindOpening, rfl, kind⟩ := separates.opens
        rintro character same letter
        rw [← Option.some.inj same] at letter
        rcases kind with rfl | space
        · exact reads.noComma letter
        · exact reads.solid letter space
      have read : reader (piece ++ (front ++ (text ++ rest))) =
          some (value, front ++ (text ++ rest)) :=
        reads.eq_some_iff.mpr ⟨piece, first, rfl, reads.inside first, boundary⟩
      have step : (separator (front ++ (text ++ rest)) >>= reader) = some (second, behind) := by
        rw [separator_append separates (reads.opens others rest)]
        exact opened
      have shorter : behind.length < (front ++ (text ++ rest)).length := by
        obtain ⟨run, _, maximal⟩ := reads.eq_some_iff.mp opened
        have := maximal.suffix.length_le
        obtain ⟨opening, behindOpening, rfl, _⟩ := separates.opens
        simp only [List.cons_append, List.length_cons, List.length_append] at *
        omega
      refine separated_eq_some_iff.mpr ⟨value, _, second :: tail, read, ?_, rfl⟩
      rw [many_of_some step shorter, more]

/-- What is read of a text is a list, and it stands before the rest. -/
theorem lists_of_separated (reads : ReadsRuns reader written inClass)
    (read : separated reader text = some (values, rest)) :
    ∃ front, text = front ++ rest ∧ Lists written front values := by
  obtain ⟨first, behind, others, opened, more, rfl⟩ := separated_eq_some_iff.mp read
  obtain ⟨run, given, rfl, _, _⟩ := reads.eq_some_iff.mp opened
  obtain ⟨tail, whole, listed⟩ := reads.lists_many behind
  rw [more] at whole listed
  exact ⟨run ++ tail, by rw [List.append_assoc, ← whole], listed given⟩

/-- A text is read whole exactly if it is a list. -/
theorem whole?_separated_iff (reads : ReadsRuns reader written inClass) :
    whole? (separated reader) text = some values ↔ Lists written text values := by
  rw [whole?_eq_some_iff]
  constructor
  · intro read
    obtain ⟨front, rfl, listed⟩ := reads.lists_of_separated read
    rwa [List.append_nil]
  · intro listed
    have read : separated reader (text ++ []) = some (values, []) :=
      reads.separated_append listed (by simp) rfl
    rwa [List.append_nil] at read

end ReadsRuns

/-! ## Commas -/

theorem IsSpacing.noComma {text : Text} (space : IsSpacing text) : ',' ∉ text := by
  intro member
  exact absurd (space ',' member) (by decide)

section Commas

variable {Value : Type} {reader : Reader Value} {written : Text → Value → Prop}
  {inClass : Char → Bool} {text : Text} {values : List Value}

namespace ReadsRuns

/-- A list ends with the last of its values. -/
theorem closes (reads : ReadsRuns reader written inClass) (listed : Lists written text values) :
    text ≠ [] ∧ ∀ character ∈ text.getLast?, inClass character := by
  induction listed with
  | single first =>
      exact ⟨reads.nonempty first, fun character last =>
        reads.inside first character (List.mem_of_getLast? last)⟩
  | @more piece front text value values first separates others inductionHypothesis =>
      have present : front ++ text ≠ [] :=
        fun empty => inductionHypothesis.1 (List.append_eq_nil_iff.mp empty).2
      refine ⟨fun empty => present (List.append_eq_nil_iff.mp empty).2, ?_⟩
      rw [List.getLast?_append_of_ne_nil _ present,
        List.getLast?_append_of_ne_nil _ inductionHypothesis.1]
      exact inductionHypothesis.2

end ReadsRuns

end Commas

end TerminalMarkup.Sheet
