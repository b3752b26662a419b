import TerminalMarkup.Text.Basic

/-!
Contract: tables of values under names.

A table keeps each name at the place where it was first given and its last
value. `get?` is the view through which the other operations are described.
-/

set_option autoImplicit false

namespace TerminalMarkup

/-- Values under names, in the order in which the names were first given. -/
structure Table (Value : Type) where
  entries : List (Text × Value) := []
deriving DecidableEq, Repr

namespace Table

variable {Value : Type}

def empty : Table Value := ⟨[]⟩

/-- The entries of a table with a value put under a name. -/
def place (name : Text) (value : Value) : List (Text × Value) → List (Text × Value)
  | [] => [(name, value)]
  | entry :: rest =>
    if entry.1 = name then (name, value) :: rest else entry :: place name value rest

/-- Puts a value under a name. A name that is present keeps its place. -/
def insert (table : Table Value) (name : Text) (value : Value) : Table Value :=
  ⟨place name value table.entries⟩

/-- The value of the first entry with a name. -/
def find (name : Text) : List (Text × Value) → Option Value
  | [] => none
  | entry :: rest => if entry.1 = name then some entry.2 else find name rest

def get? (table : Table Value) (name : Text) : Option Value :=
  find name table.entries

def contains (table : Table Value) (name : Text) : Bool :=
  (table.get? name).isSome

/-- The names of a table, in the order in which they were first given. -/
def names (table : Table Value) : List Text :=
  table.entries.map Prod.fst

def size (table : Table Value) : Nat :=
  table.entries.length

def isEmpty (table : Table Value) : Bool :=
  table.entries.isEmpty

@[simp]
theorem get?_empty (name : Text) : (empty : Table Value).get? name = none := rfl

theorem get?_insert (table : Table Value) (name other : Text) (value : Value) :
    (table.insert name value).get? other =
      if other = name then some value else table.get? other := by
  obtain ⟨entries⟩ := table
  simp only [get?, insert]
  induction entries with
  | nil => simp [place, find, eq_comm]
  | cons entry rest inductionHypothesis =>
      by_cases here : entry.1 = name
      · by_cases same : other = name
        · simp [place, find, here, same]
        · have differs : name ≠ other := fun equal => same equal.symm
          simp [place, find, here, same, differs]
      · by_cases hit : entry.1 = other
        · have differs : other ≠ name := fun equal => here (hit.trans equal)
          simp [place, find, hit, differs]
        · simp [place, find, here, hit, inductionHypothesis]

theorem mem_names_iff {table : Table Value} {name : Text} :
    name ∈ table.names ↔ (table.get? name).isSome := by
  obtain ⟨entries⟩ := table
  simp only [names, get?]
  induction entries with
  | nil => simp [find]
  | cons entry rest inductionHypothesis =>
      by_cases here : entry.1 = name
      · simp [find, here]
      · have differs : name ≠ entry.1 := fun same => here same.symm
        rw [List.map_cons, List.mem_cons, inductionHypothesis, find, if_neg here]
        simp [differs]

end Table

end TerminalMarkup
