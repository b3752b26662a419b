import TerminalMarkup.Text.Basic
import Mathlib.Data.List.TakeWhile

/-!
Contract: the control sequences in a text, and the text without them.

A control sequence is an escape character, an opening bracket, a run of digits
and semicolons, and the letter m. It ends at that letter, whatever stands
behind it. `eraseSequences` deletes every control sequence from the front to
the end and does not read again what a deletion brings together. Stretches
without escape characters stay (`eraseSequences_append_of_plain`).
-/

set_option autoImplicit false

namespace TerminalMarkup.Text

/-- The characters of the parameters of a control sequence. -/
def isParameter (character : Char) : Bool :=
  isDigit character || character == ';'

theorem isParameter_of_mem_ofNat {number : Nat} {character : Char}
    (member : character ∈ ofNat number) :
    isParameter character := by
  simp [isParameter, isDigit_of_mem_ofNat member]

/-- The text behind the control sequence with which a text starts. -/
def behindSequence? : Text → Option Text
  | '\x1b' :: '[' :: rest =>
    match rest.dropWhile isParameter with
    | 'm' :: behind => some behind
    | _ => none
  | _ => none

/-- The control sequence with some parameters. -/
def controlSequence (parameters : Text) : Text :=
  '\x1b' :: '[' :: (parameters ++ ['m'])

theorem behindSequence?_controlSequence_append {parameters : Text}
    (inClass : ∀ character ∈ parameters, isParameter character) (behind : Text) :
    behindSequence? (controlSequence parameters ++ behind) = some behind := by
  have stop : ¬ isParameter 'm' := by decide
  simp only [controlSequence, List.cons_append, List.append_assoc, List.nil_append,
    behindSequence?, List.dropWhile_append_of_pos inClass, List.dropWhile_cons_of_neg stop]

theorem behindSequence?_eq_some_iff {text behind : Text} :
    behindSequence? text = some behind ↔
      ∃ parameters, (∀ character ∈ parameters, isParameter character) ∧
        text = controlSequence parameters ++ behind := by
  constructor
  · intro found
    unfold behindSequence? at found
    split at found
    · next rest =>
      split at found
      · next remainder closed =>
        refine ⟨rest.takeWhile isParameter, fun _ => List.mem_takeWhile_imp, ?_⟩
        rw [← Option.some.inj found]
        simp only [controlSequence, List.cons_append, List.append_assoc, List.nil_append,
          ← closed, List.takeWhile_append_dropWhile]
      · cases found
    · cases found
  · rintro ⟨parameters, inClass, rfl⟩
    exact behindSequence?_controlSequence_append inClass behind

/-- A control sequence ends at the same place whatever stands behind it, and so
it can be told from what stands behind it. -/
theorem controlSequence_append_inj {first second front back : Text}
    (firstInClass : ∀ character ∈ first, isParameter character)
    (secondInClass : ∀ character ∈ second, isParameter character)
    (same : controlSequence first ++ front = controlSequence second ++ back) :
    first = second ∧ front = back := by
  have behindFirst := behindSequence?_controlSequence_append firstInClass front
  have behindSecond := behindSequence?_controlSequence_append secondInClass back
  rw [same, behindSecond, Option.some.injEq] at behindFirst
  subst behindFirst
  have sequences : controlSequence first = controlSequence second := List.append_cancel_right same
  simp only [controlSequence, List.cons.injEq, true_and] at sequences
  exact ⟨List.append_cancel_right sequences, rfl⟩

theorem length_lt_of_behindSequence? {text behind : Text}
    (found : behindSequence? text = some behind) :
    behind.length < text.length := by
  obtain ⟨parameters, _, rfl⟩ := behindSequence?_eq_some_iff.mp found
  rw [controlSequence, List.length_append]
  simp

/-- Only an escape character starts a control sequence. -/
theorem behindSequence?_of_plain {first : Char} (plain : first ≠ '\x1b') (rest : Text) :
    behindSequence? (first :: rest) = none := by
  cases found : behindSequence? (first :: rest) with
  | none => rfl
  | some behind =>
      obtain ⟨parameters, _, same⟩ := behindSequence?_eq_some_iff.mp found
      exact absurd (List.cons.inj same).1 plain

/-- A text without its control sequences. -/
def eraseSequences (text : Text) : Text :=
  match text with
  | [] => []
  | first :: rest =>
    match _found : behindSequence? (first :: rest) with
    | some behind => eraseSequences behind
    | none => first :: eraseSequences rest
termination_by text.length
decreasing_by
  · exact length_lt_of_behindSequence? _found
  · simp

@[simp]
theorem eraseSequences_nil : eraseSequences [] = [] := by
  rw [eraseSequences]

theorem eraseSequences_controlSequence_append {parameters : Text}
    (inClass : ∀ character ∈ parameters, isParameter character) (rest : Text) :
    eraseSequences (controlSequence parameters ++ rest) = eraseSequences rest := by
  have found := behindSequence?_controlSequence_append inClass rest
  rw [controlSequence, List.cons_append] at found ⊢
  rw [eraseSequences]
  split
  · next behind reached =>
    rw [found] at reached
    rw [Option.some.inj reached]
  · next nothing =>
    rw [found] at nothing
    cases nothing

theorem eraseSequences_append_of_plain {literal : Text} (plain : '\x1b' ∉ literal)
    (rest : Text) :
    eraseSequences (literal ++ rest) = literal ++ eraseSequences rest := by
  induction literal with
  | nil => rfl
  | cons first others inductionHypothesis =>
      rw [List.mem_cons, not_or] at plain
      have nothing := behindSequence?_of_plain (fun same => plain.1 same.symm) (others ++ rest)
      rw [List.cons_append, eraseSequences]
      split
      · next behind found =>
        rw [nothing] at found
        cases found
      · rw [inductionHypothesis plain.2, List.cons_append]

/-! ## Escape characters -/

/-- Whether every escape character of a text starts a control sequence that has
parameters. -/
def EscapesStartSequences (text : Text) : Prop :=
  ∀ front back, text = front ++ '\x1b' :: back →
    ∃ parameters behind, '\x1b' :: back = controlSequence parameters ++ behind ∧
      parameters ≠ [] ∧ ∀ character ∈ parameters, isParameter character

theorem EscapesStartSequences.of_plain {text : Text} (plain : '\x1b' ∉ text) :
    EscapesStartSequences text := by
  rintro front back rfl
  exact absurd (List.mem_append_right front List.mem_cons_self) plain

theorem EscapesStartSequences.append {left right : Text}
    (first : EscapesStartSequences left) (second : EscapesStartSequences right) :
    EscapesStartSequences (left ++ right) := by
  intro front back whole
  rcases List.append_eq_append_iff.mp whole with ⟨between, _, rest⟩ | ⟨between, inside, rest⟩
  · exact second between back rest
  · cases between with
    | nil => exact second [] back rest.symm
    | cons escape others =>
        obtain ⟨rfl, rfl⟩ := List.cons.inj rest
        obtain ⟨parameters, behind, same, nonempty, inClass⟩ := first front others inside
        refine ⟨parameters, behind ++ right, ?_, nonempty, inClass⟩
        rw [← List.append_assoc, ← same]
        rfl

theorem EscapesStartSequences.controlSequence {parameters : Text} (nonempty : parameters ≠ [])
    (inClass : ∀ character ∈ parameters, isParameter character) :
    EscapesStartSequences (controlSequence parameters) := by
  intro front back whole
  cases front with
  | nil => exact ⟨parameters, [], by rw [List.append_nil]; exact whole.symm, nonempty, inClass⟩
  | cons escape others =>
      -- Behind its first character a control sequence has no escape character.
      have behind : '\x1b' ∈ '[' :: (parameters ++ ['m']) := by
        rw [(List.cons.inj whole).2]
        exact List.mem_append_right others List.mem_cons_self
      simp only [List.mem_cons, List.mem_append, List.not_mem_nil, or_false] at behind
      rcases behind with bracket | parameter | letter
      · exact absurd bracket (by decide)
      · exact absurd (inClass _ parameter) (by decide)
      · exact absurd letter (by decide)

end TerminalMarkup.Text
