import TerminalMarkup.Text.Basic
import Mathlib.Data.List.Infix

/-!
Contract: runs of a text up to the next mark.

A run holds no mark and goes on to the next one or to the end of the text.
Marks have one or two characters, and no mark starts with the second character
of one; so no mark can stand across the end of a run (`IsRun.not_prefix`).
Every text starts with exactly one run (`exists_run`, `IsRun.unique`).
-/

set_option autoImplicit false

namespace TerminalMarkup.Text

/-- Whether marks have one or two characters, and none starts with the second
character of one. -/
def Separate (marks : List Text) : Prop :=
  ∀ mark ∈ marks, mark ≠ [] ∧ mark.length ≤ 2 ∧
    ∀ other ∈ marks, mark[1]? ≠ none → other.head? ≠ mark[1]?

instance (marks : List Text) : Decidable (Separate marks) := by
  unfold Separate
  infer_instance

/-- Whether the front of a text holds no mark, and the text ends behind it or
goes on with a mark. -/
structure IsRun (marks : List Text) (front back : Text) : Prop where
  free : ∀ mark ∈ marks, ¬ mark <:+: front
  stops : back = [] ∨ ∃ mark ∈ marks, mark <+: back

section Run

variable {marks : List Text} {front back : Text}

namespace IsRun

/-- Where the next mark stands at once, the run is empty. -/
theorem nil (separate : Separate marks) (stops : back = [] ∨ ∃ mark ∈ marks, mark <+: back) :
    IsRun marks [] back where
  free := fun mark member occurs => (separate mark member).1 (List.infix_nil.mp occurs)
  stops := stops

theorem of_suffix {rest : Text} (run : IsRun marks front back) (suffix : rest <:+ front) :
    IsRun marks rest back where
  free := fun mark member occurs => run.free mark member (occurs.trans suffix.isInfix)
  stops := run.stops

/-- No mark stands at the start of a run, not even across its end. -/
theorem not_prefix (run : IsRun marks front back) (separate : Separate marks)
    (nonempty : front ≠ []) {mark : Text} (member : mark ∈ marks) :
    ¬ mark <+: front ++ back := by
  intro occurs
  obtain ⟨_, short, apart⟩ := separate mark member
  have frontWritten := List.length_pos_iff.mpr nonempty
  by_cases within : mark.length ≤ front.length
  · have inside := List.prefix_of_prefix_length_le occurs (List.prefix_append front back) within
    exact run.free mark member inside.isInfix
  · -- The mark has two characters: the run is the first and the second stands behind it.
    have oneCharacter : front.length = 1 := by omega
    have twoCharacters : mark.length = 2 := by omega
    obtain ⟨first, rfl⟩ := List.length_eq_one_iff.mp oneCharacter
    obtain ⟨one, two, rfl⟩ := List.length_eq_two.mp twoCharacters
    obtain ⟨rest, whole⟩ := occurs
    obtain ⟨_, rfl⟩ := List.cons.inj whole
    rcases run.stops with stop | ⟨other, known, later⟩
    · cases stop
    · obtain ⟨otherWritten, _, _⟩ := separate other known
      obtain ⟨third, others, rfl⟩ := List.exists_cons_of_ne_nil otherWritten
      obtain ⟨_, joined⟩ := later
      exact apart _ known (by simp) (congrArg some (List.cons.inj joined).1)

/-- A run in front of the text behind it ends nowhere else. -/
theorem eq_nil_of_append {rest tail : Text} (run : IsRun marks front (rest ++ tail))
    (later : IsRun marks (front ++ rest) tail) (separate : Separate marks) :
    rest = [] := by
  by_contra nonempty
  have behind : IsRun marks rest tail := later.of_suffix (List.suffix_append front rest)
  rcases run.stops with stop | ⟨mark, member, occurs⟩
  · exact nonempty (List.append_eq_nil_iff.mp stop).1
  · exact behind.not_prefix separate nonempty member occurs

/-- A text starts with one run only. -/
theorem unique {other rest : Text} (run : IsRun marks front back)
    (otherRun : IsRun marks other rest) (separate : Separate marks)
    (same : front ++ back = other ++ rest) :
    front = other ∧ back = rest := by
  rcases List.append_eq_append_iff.mp same with ⟨extra, rfl, rfl⟩ | ⟨extra, rfl, rfl⟩
  · obtain rfl := run.eq_nil_of_append otherRun separate
    exact ⟨(List.append_nil front).symm, rfl⟩
  · obtain rfl := otherRun.eq_nil_of_append run separate
    exact ⟨List.append_nil other, rfl⟩

end IsRun

/-- Every text starts with a run. -/
theorem exists_run (separate : Separate marks) (text : Text) :
    ∃ front back, text = front ++ back ∧ IsRun marks front back := by
  induction text with
  | nil => exact ⟨[], [], rfl, .nil separate (.inl rfl)⟩
  | cons character rest inductionHypothesis =>
      by_cases here : ∃ mark ∈ marks, mark <+: character :: rest
      · exact ⟨[], character :: rest, rfl, .nil separate (.inr here)⟩
      · obtain ⟨front, back, rfl, run⟩ := inductionHypothesis
        refine ⟨character :: front, back, rfl, ?_, run.stops⟩
        intro mark member occurs
        rcases List.infix_cons_iff.mp occurs with atStart | inside
        · exact here ⟨mark, member, atStart.trans (List.prefix_append (character :: front) back)⟩
        · exact run.free mark member inside

end Run

end TerminalMarkup.Text
