/-!
Contract: lists without repetition, in the order in which their items were
first seen.

`add` appends an item unless it is present, and the other functions repeat
`add`. Repetitions that a list already has are kept by `add` and `addAll`;
`distinct` starts from the empty list and so removes them. It works on the parts
of a list one by one where these have no item in common.
-/

set_option autoImplicit false

namespace TerminalMarkup.FirstSeen

variable {Item : Type} [DecidableEq Item]

/-- A list with one more item, unless the item is already present. -/
def add (items : List Item) (item : Item) : List Item :=
  if item ∈ items then items else items ++ [item]

/-- A list with every item of another added in turn. -/
def addAll (items new : List Item) : List Item :=
  new.foldl add items

/-- The items of a list in the order in which they first occur. -/
def distinct (items : List Item) : List Item :=
  addAll [] items

theorem mem_add {items : List Item} {item other : Item} :
    other ∈ add items item ↔ other ∈ items ∨ other = item := by
  unfold add
  split
  · constructor
    · exact Or.inl
    · rintro (member | rfl) <;> assumption
  · simp

theorem mem_addAll {items new : List Item} {other : Item} :
    other ∈ addAll items new ↔ other ∈ items ∨ other ∈ new := by
  unfold addAll
  induction new generalizing items with
  | nil => simp
  | cons item rest inductionHypothesis =>
      simp [List.foldl_cons, inductionHypothesis, mem_add, or_assoc]

theorem mem_distinct {items : List Item} {other : Item} :
    other ∈ distinct items ↔ other ∈ items := by
  simp [distinct, mem_addAll]

theorem nodup_add {items : List Item} {item : Item} (nodup : items.Nodup) :
    (add items item).Nodup := by
  unfold add
  split
  · exact nodup
  · rename_i absent
    rw [List.nodup_append]
    refine ⟨nodup, by simp, ?_⟩
    intro present member other last
    rw [List.mem_singleton] at last
    rintro rfl
    exact absent (last ▸ member)

theorem nodup_addAll {items new : List Item} (nodup : items.Nodup) :
    (addAll items new).Nodup := by
  unfold addAll
  induction new generalizing items with
  | nil => exact nodup
  | cons item rest inductionHypothesis => exact inductionHypothesis (nodup_add nodup)

theorem nodup_distinct (items : List Item) : (distinct items).Nodup :=
  nodup_addAll List.nodup_nil

/-! ## Fewer items, in their order -/

theorem addAll_sublist (items new : List Item) :
    (addAll items new).Sublist (items ++ new) := by
  unfold addAll
  induction new generalizing items with
  | nil => simp
  | cons item rest inductionHypothesis =>
      have step : (add items item ++ rest).Sublist (items ++ item :: rest) := by
        unfold add
        split
        · exact (List.sublist_cons_self item rest).append_left items
        · simp
      exact (inductionHypothesis (add items item)).trans step

theorem distinct_sublist (items : List Item) : (distinct items).Sublist items := by
  simpa [distinct] using addAll_sublist [] items

/-! ## Lists made of parts -/

theorem addAll_append (items front back : List Item) :
    addAll items (front ++ back) = addAll (addAll items front) back := by
  exact List.foldl_append

/-- Items that a list does not have are added behind it as to its end alone. -/
theorem addAll_append_of_fresh {items seen new : List Item}
    (fresh : ∀ item ∈ new, item ∉ items) :
    addAll (items ++ seen) new = items ++ addAll seen new := by
  induction new generalizing seen with
  | nil => rfl
  | cons item rest inductionHypothesis =>
      have absent : item ∉ items := fresh item List.mem_cons_self
      have step : add (items ++ seen) item = items ++ add seen item := by
        by_cases known : item ∈ seen <;> simp [add, absent, known]
      have later : ∀ other ∈ rest, other ∉ items :=
        fun other member => fresh other (List.mem_cons_of_mem item member)
      show addAll (add (items ++ seen) item) rest = items ++ addAll (add seen item) rest
      rw [step, inductionHypothesis later]

/-- Repetitions in two lists without a common item are removed in each. -/
theorem distinct_append_of_disjoint {front back : List Item}
    (disjoint : ∀ item ∈ back, item ∉ front) :
    distinct (front ++ back) = distinct front ++ distinct back := by
  have fresh : ∀ item ∈ back, item ∉ distinct front := by
    intro item member
    rw [mem_distinct]
    exact disjoint item member
  have behind : addAll (distinct front ++ []) back = distinct front ++ distinct back :=
    addAll_append_of_fresh fresh
  rw [List.append_nil] at behind
  rw [distinct, addAll_append]
  exact behind

/-- A list without repetitions stays as it is. -/
theorem addAll_of_nodup {items : List Item} (nodup : items.Nodup) : addAll [] items = items := by
  induction items with
  | nil => rfl
  | cons item rest inductionHypothesis =>
      obtain ⟨absent, others⟩ := List.nodup_cons.mp nodup
      have disjoint : ∀ other ∈ rest, other ∉ [item] := by
        intro other member here
        exact absent (List.mem_singleton.mp here ▸ member)
      have parts : distinct ([item] ++ rest) = [item] ++ addAll [] rest :=
        distinct_append_of_disjoint disjoint
      rw [inductionHypothesis others] at parts
      exact parts

/-- Items that a list has already are not added again. -/
theorem addAll_of_known {items new : List Item} (known : ∀ item ∈ new, item ∈ items) :
    addAll items new = items := by
  induction new with
  | nil => rfl
  | cons item rest inductionHypothesis =>
      have present : add items item = items := if_pos (known item List.mem_cons_self)
      show addAll (add items item) rest = items
      rw [present]
      exact inductionHypothesis fun other member =>
        known other (List.mem_cons_of_mem item member)

/-- A list without repetitions takes up nothing from items that it has. -/
theorem distinct_append_of_known {items new : List Item} (nodup : items.Nodup)
    (known : ∀ item ∈ new, item ∈ items) : distinct (items ++ new) = items := by
  rw [distinct, addAll_append, addAll_of_nodup nodup, addAll_of_known known]

/-! ## Repetitions removed on the way -/

/-- Items may be added to another list first: what that list has or receives
twice is skipped by the first list as well. -/
theorem addAll_addAll (items seen new : List Item) :
    addAll items (addAll seen new) = addAll (addAll items seen) new := by
  induction new generalizing seen with
  | nil => rfl
  | cons item rest inductionHypothesis =>
      have step : addAll items (add seen item) = add (addAll items seen) item := by
        by_cases known : item ∈ seen
        · have present : item ∈ addAll items seen := mem_addAll.mpr (.inr known)
          rw [add, if_pos known, add, if_pos present]
        · rw [add, if_neg known, addAll_append]
          rfl
      show addAll items (addAll (add seen item) rest) = addAll (add (addAll items seen) item) rest
      rw [inductionHypothesis, step]

theorem addAll_distinct (items new : List Item) :
    addAll items (distinct new) = addAll items new :=
  addAll_addAll items [] new

theorem distinct_addAll (items new : List Item) :
    distinct (addAll items new) = addAll (distinct items) new :=
  addAll_addAll [] items new

theorem distinct_distinct (items : List Item) : distinct (distinct items) = distinct items :=
  addAll_distinct [] items

theorem distinct_append (front back : List Item) :
    distinct (front ++ back) = addAll (distinct front) back :=
  addAll_append [] front back

/-- It makes no difference to a list of parts whether repetitions are removed
from the parts first. -/
theorem distinct_append_distinct (front back : List Item) :
    distinct (distinct front ++ distinct back) = distinct (front ++ back) := by
  rw [distinct_append, distinct_append, distinct_distinct, addAll_distinct]

theorem distinct_eq_nil_iff {items : List Item} : distinct items = [] ↔ items = [] := by
  simp [List.eq_nil_iff_forall_not_mem, mem_distinct]

/-- A selection of items is made before or after repetitions are removed. -/
theorem addAll_filter (selected : Item → Bool) (items new : List Item) :
    addAll (items.filter selected) (new.filter selected) =
      (addAll items new).filter selected := by
  induction new generalizing items with
  | nil => rfl
  | cons item rest inductionHypothesis =>
      show _ = (addAll (add items item) rest).filter selected
      rw [← inductionHypothesis]
      by_cases chosen : selected item
      · have step : (add items item).filter selected = add (items.filter selected) item := by
          by_cases known : item ∈ items <;> simp [add, known, chosen]
        rw [step, List.filter_cons_of_pos chosen]
        rfl
      · have step : (add items item).filter selected = items.filter selected := by
          by_cases known : item ∈ items <;> simp [add, known, chosen]
        rw [step, List.filter_cons_of_neg chosen]

theorem distinct_filter (selected : Item → Bool) (items : List Item) :
    distinct (items.filter selected) = (distinct items).filter selected :=
  addAll_filter selected [] items

/-- Two lists less a third one are the same items in the same order, wherever
repetitions are removed. -/
theorem distinct_filter_not_mem (front back excluded : List Item) :
    distinct ((distinct front ++ distinct back).filter (· ∉ distinct excluded)) =
      distinct ((front ++ back).filter (· ∉ excluded)) := by
  simp only [mem_distinct, distinct_filter, distinct_append_distinct]

/-! ## Items of another kind -/

variable {Other : Type} [DecidableEq Other]

theorem addAll_map {f : Item → Other} (injective : ∀ first second, f first = f second →
    first = second) (items new : List Item) :
    addAll (items.map f) (new.map f) = (addAll items new).map f := by
  induction new generalizing items with
  | nil => rfl
  | cons item rest inductionHypothesis =>
      have known : f item ∈ items.map f ↔ item ∈ items := by
        constructor
        · intro member
          obtain ⟨other, listed, same⟩ := List.mem_map.mp member
          exact injective other item same ▸ listed
        · exact List.mem_map_of_mem
      have step : add (items.map f) (f item) = (add items item).map f := by
        by_cases here : item ∈ items <;> simp only [add, known, here] <;> simp
      show addAll (add (items.map f) (f item)) (rest.map f) = _
      rw [step]
      exact inductionHypothesis (add items item)

theorem distinct_map {f : Item → Other} (injective : ∀ first second, f first = f second →
    first = second) (items : List Item) :
    distinct (items.map f) = (distinct items).map f := by
  exact addAll_map injective [] items

end TerminalMarkup.FirstSeen
