import TerminalMarkup.Text.Basic

/-!
Contract: names in ascending order without repetition.

Names are compared by the code points of their characters from the front, and
a name comes before every longer name that it begins. This is also the order
of their UTF-8 bytes.
-/

set_option autoImplicit false

namespace TerminalMarkup

namespace SortedNames

/-- Puts a name at its place among ascending names, unless it is there. -/
def insert (name : Text) : List Text → List Text
  | [] => [name]
  | first :: rest =>
    if name < first then name :: first :: rest
    else if name = first then first :: rest
    else first :: insert name rest

/-- The distinct names of a list in ascending order. -/
def ofList (names : List Text) : List Text :=
  names.foldr insert []

theorem mem_insert {name other : Text} {names : List Text} :
    other ∈ insert name names ↔ other = name ∨ other ∈ names := by
  induction names with
  | nil => simp [insert]
  | cons first rest inductionHypothesis =>
      unfold insert
      split
      · simp
      · split
        · rename_i same
          simp [same]
        · simp only [List.mem_cons, inductionHypothesis]
          constructor
          · rintro (h | h | h) <;> simp [h]
          · rintro (h | h | h) <;> simp [h]

theorem mem_ofList {other : Text} {names : List Text} :
    other ∈ ofList names ↔ other ∈ names := by
  induction names with
  | nil => simp [ofList]
  | cons first rest inductionHypothesis =>
      have step : ofList (first :: rest) = insert first (ofList rest) := rfl
      rw [step, mem_insert, inductionHypothesis, List.mem_cons]

theorem pairwise_insert {name : Text} {names : List Text}
    (ascending : names.Pairwise (· < ·)) :
    (insert name names).Pairwise (· < ·) := by
  induction names with
  | nil => simp [insert]
  | cons first rest inductionHypothesis =>
      obtain ⟨smallest, others⟩ := List.pairwise_cons.mp ascending
      unfold insert
      split
      · next before =>
        rw [List.pairwise_cons]
        refine ⟨?_, ascending⟩
        intro other member
        rcases List.mem_cons.mp member with rfl | behind
        · exact before
        · exact List.lt_trans before (smallest other behind)
      · next notBefore =>
        split
        · exact ascending
        · next different =>
          have after : first < name := by
            apply Decidable.byContradiction
            intro notAfter
            exact different
              (List.le_antisymm (List.not_lt.mp notAfter) (List.not_lt.mp notBefore))
          rw [List.pairwise_cons]
          refine ⟨?_, inductionHypothesis others⟩
          intro other member
          rcases mem_insert.mp member with rfl | behind
          · exact after
          · exact smallest other behind

theorem pairwise_ofList (names : List Text) : (ofList names).Pairwise (· < ·) := by
  induction names with
  | nil => exact .nil
  | cons first rest inductionHypothesis => exact pairwise_insert inductionHypothesis

end SortedNames

end TerminalMarkup
