import TerminalMarkup.Proofs.Sheet.References

/-!
Contract: which lines define a variable, and which lines are blanked.

Two passes look at the lines of a source. Collecting takes a definition from a
line that opens with a dollar sign and has a colon
(`definitionOf?_isSome_iff`). Replacing blanks every line that opens with a
dollar sign. The passes differ on the stray lines: these open with a dollar
sign, define nothing for want of a colon, and are blanked all the same
(`resolveVariables_blanks_definitions`, `stray_line_blanked`).
-/

set_option autoImplicit false

namespace TerminalMarkup.Sheet

/-! ## Lines that define -/

/-- Trimming takes nothing away but white space. -/
theorem mem_trim_iff {character : Char} {line : Text} (solid : ¬ Text.isBlank character) :
    character ∈ Text.trim line ↔ character ∈ line := by
  obtain ⟨blanks, whole, blank, _⟩ := Phrase.trimsTo_trimEnd (Text.trimStart line)
  constructor
  · exact fun member => (sublist_trim line).subset member
  · intro member
    rw [← List.takeWhile_append_dropWhile (p := Text.isBlank) (l := line),
      List.mem_append] at member
    rcases member with before | behind
    · exact absurd (List.mem_takeWhile_imp before) solid
    · have kept : character ∈ Text.trimStart line := behind
      rw [whole, List.mem_append] at kept
      exact kept.resolve_right fun trailing => solid (blank character trailing)

theorem splitOnce_isSome_iff {separator : Char} {text : Text} :
    (splitOnce separator text).isSome ↔ separator ∈ text := by
  induction text with
  | nil => simp [splitOnce]
  | cons character rest inductionHypothesis =>
      rw [splitOnce]
      split_ifs with separates
      · simp [separates]
      · rw [Option.isSome_map, inductionHypothesis, List.mem_cons]
        simp [Ne.symm separates]

/-- A line defines a variable exactly if it opens with a dollar sign and has a
colon. -/
theorem definitionOf?_isSome_iff {line : Text} :
    (definitionOf? line).isSome ↔ OpensWithDollar line ∧ ':' ∈ line := by
  rw [OpensWithDollar, ← head?_trim, ← mem_trim_iff (by decide), definitionOf?]
  split
  · next body trimmed =>
      rw [Option.isSome_map, splitOnce_isSome_iff, trimmed]
      simp
  · next other =>
      constructor
      · simp
      · rintro ⟨opens, _⟩
        obtain ⟨body, trimmed⟩ := List.head?_eq_some_iff.mp opens
        exact absurd trimmed (other body)

/-- Whether a line opens with a dollar sign and still defines nothing. -/
def IsStray (line : Text) : Prop :=
  OpensWithDollar line ∧ ':' ∉ line

instance (line : Text) : Decidable (IsStray line) := by
  unfold IsStray
  infer_instance

theorem isDefinitionLine_iff_defines_or_isStray {line : Text} :
    isDefinitionLine line = true ↔ (definitionOf? line).isSome ∨ IsStray line := by
  rw [isDefinitionLine_iff, definitionOf?_isSome_iff, IsStray]
  tauto

/-! ## Lines that are kept -/

/-- Whether an output is a line with each of its references replaced and nothing
else changed. All of its references are defined. -/
def Substitutes (known : Variables) (line output : Text) : Prop :=
  ∃ fragments, ReadsAs [] line fragments ∧
    (∀ name ∈ references fragments, (known.get? name).isSome) ∧
    output = substituted known fragments

section Substitution

variable {known : Variables}

theorem unlessUndefined_eq_ok_iff {names : List Text} {text output : Text} :
    unlessUndefined known names text = .ok output ↔
      (∀ name ∈ names, (known.get? name).isSome) ∧ output = text := by
  have defined : (names.find? fun name => (known.get? name).isNone) = none ↔
      ∀ name ∈ names, (known.get? name).isSome := by
    simp [Option.isSome_iff_ne_none]
  rw [unlessUndefined, ← defined]
  cases names.find? fun name => (known.get? name).isNone with
  | none => simp [eq_comm]
  | some name => simp

theorem resolveLine_eq_ok_iff {line output : Text} :
    resolveLine known false line = .ok output ↔ Substitutes known line output := by
  obtain ⟨fragments, reads⟩ := exists_readsAs [] line
  have resolved : resolveLine known false line =
      unlessUndefined known (references fragments) (substituted known fragments) :=
    resolveLine_of_readsAs reads known
  rw [resolved, unlessUndefined_eq_ok_iff]
  constructor
  · rintro ⟨defined, rfl⟩
    exact ⟨fragments, reads, defined, rfl⟩
  · rintro ⟨others, otherReads, defined, rfl⟩
    rw [reads.unique otherReads]
    exact ⟨defined, rfl⟩

end Substitution

/-! ## Definitions and blank lines -/

theorem resolvesTo_iff_substitutes (known : Variables) (line output : Text) :
    ResolvesTo known line output ↔
      if (definitionOf? line).isSome ∨ IsStray line then output = []
      else Substitutes known line output := by
  unfold ResolvesTo
  by_cases blanked : isDefinitionLine line = true
  · rw [if_pos blanked, if_pos (isDefinitionLine_iff_defines_or_isStray.mp blanked)]
  · rw [if_neg blanked, if_neg (isDefinitionLine_iff_defines_or_isStray.not.mp blanked),
      resolveLine_eq_ok_iff]

/-- Replacing gives one line for each line of a source. The lines that define a
variable and the stray lines come out empty, and every other line comes out with
its references replaced and nothing else changed. -/
theorem resolveVariables_blanks_definitions (source text : Text) (known : Variables) :
    resolveVariables source known = .ok text ↔
      ∃ outputs, List.Forall₂
          (fun line output =>
            if (definitionOf? line).isSome ∨ IsStray line then output = []
            else Substitutes known line output)
          (Text.lines source) outputs ∧
        text = Text.endLines outputs := by
  rw [resolveVariables, resolveLines_eq_ok_iff]
  simp only [← resolvesTo_iff_substitutes]

/-- A lone dollar sign in a line of its own is lost, although the line defines
nothing. -/
theorem stray_line_blanked :
    ¬ ∀ (source text : Text) (known : Variables), stripComments source = source →
      (resolveVariables source known = .ok text ↔
        ∃ outputs, List.Forall₂
            (fun line output =>
              if (definitionOf? line).isSome then output = []
              else Substitutes known line output)
            (Text.lines source) outputs ∧
          text = Text.endLines outputs) := by
  intro agreeing
  have nameless : ¬ ∃ name behind, RefersTo [] [] name behind := by
    rintro ⟨name, behind, _, nonempty, whole, _⟩
    exact nonempty (List.append_eq_nil_iff.mp whole.symm).1
  have reads : ReadsAs [] ['$'] [.kept '$'] := .kept (fun _ => nameless) .nil
  have kept : Substitutes Table.empty ['$'] ['$'] := by
    refine ⟨[.kept '$'], reads, ?_, rfl⟩
    intro name member
    cases member
  have expected : resolveVariables ['$'] Table.empty = .ok ['$', '\n'] := by
    refine (agreeing ['$'] ['$', '\n'] Table.empty (by decide)).mpr ⟨[['$']], ?_, rfl⟩
    refine .cons ?_ .nil
    rw [if_neg (by decide)]
    exact kept
  have blanked : resolveVariables ['$'] Table.empty = .ok ['\n'] := by
    decide
  rw [blanked] at expected
  cases expected

end TerminalMarkup.Sheet
