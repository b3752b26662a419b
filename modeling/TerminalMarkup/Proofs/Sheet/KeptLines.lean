import TerminalMarkup.Proofs.Text.Lines
import TerminalMarkup.Sheet.Document

/-!
Contract: preprocessing keeps the lines of a source where they are.

Removing comments deletes characters and no line feed
(`keepsLines_stripComments`). Replacing references makes one line of each line
(`resolveLines_eq_ok_iff`); no line feed comes into it, because a variable is
defined within a line and so its value has none
(`forall₂_of_resolveVariables`).
-/

set_option autoImplicit false

namespace TerminalMarkup.Sheet

open Text (KeepsLines)

/-! ## Comments -/

theorem keepsLines_stripFrom (zone : Zone) (source : Text) :
    KeepsLines source (stripFrom zone source) := by
  fun_induction stripFrom zone source with
  | case1 zone => exact .nil
  | case2 rest inductionHypothesis => exact .keep inductionHypothesis
  | case3 rest inductionHypothesis =>
      exact .drop (by decide) (.drop (by decide) inductionHypothesis)
  | case4 first rest notQuote notComment inductionHypothesis => exact .keep inductionHypothesis
  | case5 rest inductionHypothesis => exact .keep inductionHypothesis
  | case6 first rest notQuote inductionHypothesis => exact .keep inductionHypothesis
  | case7 rest inductionHypothesis =>
      exact .drop (by decide) (.drop (by decide) inductionHypothesis)
  | case8 rest inductionHypothesis => exact .keep inductionHypothesis
  | case9 first rest notClosing notFeed inductionHypothesis =>
      exact .drop notFeed inductionHypothesis

theorem keepsLines_stripComments (source : Text) : KeepsLines source (stripComments source) :=
  keepsLines_stripFrom .plain source

/-! ## Values of variables -/

theorem sublist_trimEnd (text : Text) : (Text.trimEnd text).Sublist text := by
  induction text with
  | nil => exact List.Sublist.refl []
  | cons character rest inductionHypothesis =>
      rw [Text.trimEnd]
      split
      · split
        · exact List.nil_sublist _
        · exact (List.nil_sublist rest).cons_cons character
      · next kept _ => exact inductionHypothesis.cons_cons character

theorem sublist_trim (text : Text) : (Text.trim text).Sublist text :=
  (sublist_trimEnd _).trans (List.dropWhile_sublist _)

theorem sublist_dropSemicolon (text : Text) : (dropSemicolon text).Sublist text := by
  unfold dropSemicolon
  split
  · exact List.dropLast_sublist text
  · exact List.Sublist.refl text

theorem sublist_of_splitOnce {separator : Char} {text front back : Text}
    (split : splitOnce separator text = some (front, back)) :
    back.Sublist text := by
  induction text generalizing front back with
  | nil => cases split
  | cons character rest inductionHypothesis =>
      unfold splitOnce at split
      split_ifs at split with separates
      · rw [← (Prod.mk.inj (Option.some.inj split)).2]
        exact List.sublist_cons_self character rest
      · obtain ⟨⟨before, behind⟩, later, same⟩ := Option.map_eq_some_iff.mp split
        rw [← (Prod.mk.inj same).2]
        exact (inductionHypothesis later).cons character

/-- The value that a line defines is made of characters of the line. -/
theorem sublist_of_definitionOf? {line name value : Text}
    (defined : definitionOf? line = some (name, value)) :
    value.Sublist line := by
  unfold definitionOf? at defined
  split at defined
  · next body trimmed =>
    obtain ⟨⟨front, back⟩, split, same⟩ := Option.map_eq_some_iff.mp defined
    obtain ⟨_, rfl⟩ := Prod.mk.inj same
    have inBody : back.Sublist (Text.trim line) := by
      rw [trimmed]
      exact (sublist_of_splitOnce split).cons '$'
    have inBack : (Text.trimEnd (dropSemicolon (Text.trim back))).Sublist back :=
      (sublist_trimEnd _).trans ((sublist_dropSemicolon _).trans (sublist_trim back))
    exact inBack.trans (inBody.trans (sublist_trim line))
  · cases defined

theorem mem_of_get?_foldl_insert {given : List (Text × Text)} {start : Variables}
    {name value : Text}
    (found : (given.foldl (fun known (name, value) => known.insert name value) start).get? name =
      some value) :
    (name, value) ∈ given ∨ start.get? name = some value := by
  induction given generalizing start with
  | nil => exact .inr found
  | cons first others inductionHypothesis =>
      rcases inductionHypothesis found with later | before
      · exact .inl (List.mem_cons_of_mem first later)
      · rw [Table.get?_insert] at before
        split_ifs at before with same
        · left
          rw [same, ← Option.some.inj before]
          exact List.mem_cons_self
        · exact .inr before

/-- The value of a variable is given by a line that defines it. -/
theorem exists_definition_of_get? {source name value : Text}
    (found : (extractVariables source).get? name = some value) :
    ∃ line ∈ Text.lines source, definitionOf? line = some (name, value) := by
  rcases mem_of_get?_foldl_insert found with given | fromEmpty
  · exact List.mem_filterMap.mp given
  · cases fromEmpty

/-- No value of a variable goes over a line end. -/
theorem oneLine_of_get?_extractVariables {source name value : Text}
    (found : (extractVariables source).get? name = some value) :
    '\n' ∉ value := by
  obtain ⟨line, member, defined⟩ := exists_definition_of_get? found
  intro feed
  exact Text.not_mem_of_mem_lines member ((sublist_of_definitionOf? defined).subset feed)

/-! ## Lines with references replaced -/

section Outcomes

variable {Result Other : Type} {outcome : Except SheetError Result}

theorem map_eq_ok_iff {ofResult : Result → Other} {value : Other} :
    outcome.map ofResult = .ok value ↔
      ∃ result, outcome = .ok result ∧ ofResult result = value := by
  cases outcome with
  | error cause => simp [Except.map]
  | ok result => simp [Except.map]

theorem map_eq_error_iff {ofResult : Result → Other} {cause : SheetError} :
    outcome.map ofResult = .error cause ↔ outcome = .error cause := by
  cases outcome with
  | error other => simp [Except.map]
  | ok result => simp [Except.map]

theorem bind_eq_ok_iff {next : Result → Except SheetError Other} {value : Other} :
    outcome >>= next = .ok value ↔ ∃ result, outcome = .ok result ∧ next result = .ok value := by
  cases outcome with
  | error cause => simp [bind, Except.bind]
  | ok result => simp [bind, Except.bind]

theorem bind_eq_error_iff {next : Result → Except SheetError Other} {cause : SheetError} :
    outcome >>= next = .error cause ↔
      outcome = .error cause ∨ ∃ result, outcome = .ok result ∧ next result = .error cause := by
  cases outcome with
  | error other => simp [bind, Except.bind]
  | ok result => simp [bind, Except.bind]

end Outcomes

/-- What preprocessing makes of a line: nothing of a line that defines a variable,
and of another line the line with its references replaced. -/
def ResolvesTo (known : Variables) (line resolved : Text) : Prop :=
  if isDefinitionLine line then resolved = [] else resolveLine known false line = .ok resolved

section Resolution

variable {known : Variables}

theorem oneLine_of_resolveLine {quoted : Bool} {line resolved : Text}
    (values : ∀ name value, known.get? name = some value → '\n' ∉ value)
    (oneLine : '\n' ∉ line) (replaced : resolveLine known quoted line = .ok resolved) :
    '\n' ∉ resolved := by
  fun_induction resolveLine known quoted line generalizing resolved with
  | case1 quoted => rwa [← Except.ok.inj replaced]
  | case2 quoted rest inductionHypothesis =>
      obtain ⟨behind, later, rfl⟩ := map_eq_ok_iff.mp replaced
      rw [List.mem_cons, not_or] at oneLine ⊢
      exact ⟨oneLine.1, inductionHypothesis oneLine.2 later⟩
  | case3 quoted character rest notQuote verbatim inductionHypothesis =>
      obtain ⟨behind, later, rfl⟩ := map_eq_ok_iff.mp replaced
      rw [List.mem_cons, not_or] at oneLine ⊢
      exact ⟨oneLine.1, inductionHypothesis oneLine.2 later⟩
  | case4 quoted character rest notQuote dollar nameless inductionHypothesis =>
      obtain ⟨behind, later, rfl⟩ := map_eq_ok_iff.mp replaced
      rw [List.mem_cons, not_or] at oneLine ⊢
      exact ⟨by decide, inductionHypothesis oneLine.2 later⟩
  | case5 quoted character rest notQuote dollar named unknown => cases replaced
  | case6 quoted character rest notQuote dollar value named found inductionHypothesis =>
      obtain ⟨behind, later, rfl⟩ := map_eq_ok_iff.mp replaced
      rw [List.mem_cons, not_or] at oneLine
      rw [List.mem_append, not_or]
      refine ⟨values _ value found, inductionHypothesis ?_ later⟩
      exact fun feed => oneLine.2 ((List.dropWhile_sublist Text.isWordChar).subset feed)

theorem resolveLines_cons (line : Text) (others : List Text) :
    resolveLines known (line :: others) =
      (if isDefinitionLine line then .ok [] else resolveLine known false line) >>= fun resolved =>
        resolveLines known others >>= fun behind => .ok (resolved ++ '\n' :: behind) := by
  rw [resolveLines]
  split_ifs <;> rfl

theorem resolvesTo_iff {line resolved : Text} :
    (if isDefinitionLine line then .ok [] else resolveLine known false line) = .ok resolved ↔
      ResolvesTo known line resolved := by
  unfold ResolvesTo
  split_ifs
  · rw [Except.ok.injEq, eq_comm]
  · rfl

theorem resolveLines_eq_ok_iff {lines : List Text} {text : Text} :
    resolveLines known lines = .ok text ↔
      ∃ resolved, List.Forall₂ (ResolvesTo known) lines resolved ∧
        text = Text.endLines resolved := by
  induction lines generalizing text with
  | nil => simp [resolveLines, Text.endLines, eq_comm]
  | cons line others inductionHypothesis =>
      simp only [resolveLines_cons, bind_eq_ok_iff, resolvesTo_iff, inductionHypothesis,
        Except.ok.injEq]
      constructor
      · rintro ⟨first, made, _, ⟨behind, related, rfl⟩, rfl⟩
        refine ⟨first :: behind, .cons made related, ?_⟩
        simp [Text.endLines]
      · rintro ⟨resolved, related, rfl⟩
        cases related with
        | @cons _ first _ behind made related =>
          refine ⟨first, made, Text.endLines behind, ⟨behind, related, rfl⟩, ?_⟩
          simp [Text.endLines]

end Resolution

/-- With the variables of the text itself, each line gives one line, at the same
place. -/
theorem forall₂_of_resolveVariables {text processed : Text}
    (replaced : resolveVariables text (extractVariables text) = .ok processed) :
    ∃ resolved, processed = Text.endLines resolved ∧ (∀ line ∈ resolved, '\n' ∉ line) ∧
      List.Forall₂ (ResolvesTo (extractVariables text)) (Text.lines text) resolved := by
  obtain ⟨resolved, related, rfl⟩ := resolveLines_eq_ok_iff.mp replaced
  refine ⟨resolved, rfl, ?_, related⟩
  intro new member
  obtain ⟨⟨place, inRange⟩, rfl⟩ := List.get_of_mem member
  have made := related.get (related.length_eq.symm ▸ inRange) inRange
  unfold ResolvesTo at made
  split_ifs at made
  · rw [made]
    exact List.not_mem_nil
  · exact oneLine_of_resolveLine (fun _ _ => oneLine_of_get?_extractVariables)
      (Text.not_mem_of_mem_lines (List.get_mem _ _)) made

theorem exists_of_forall₂_getElem? {Left Right : Type} {related : Left → Right → Prop}
    {lefts : List Left} {rights : List Right} (pairs : List.Forall₂ related lefts rights)
    {place : Nat} {right : Right} (found : rights[place]? = some right) :
    ∃ left, lefts[place]? = some left ∧ related left right := by
  induction pairs generalizing place with
  | nil => cases found
  | @cons first _ others _ pair behind inductionHypothesis =>
      cases place with
      | zero =>
          rw [← Option.some.inj found]
          exact ⟨first, rfl, pair⟩
      | succ place => exact inductionHypothesis found

/-! ## Failures -/

theorem exists_name_of_resolveLine {known : Variables} {quoted : Bool} {line : Text}
    {cause : SheetError} (failed : resolveLine known quoted line = .error cause) :
    ∃ name, known.get? name = none ∧ cause = .unknownVariable name := by
  fun_induction resolveLine known quoted line with
  | case1 quoted => cases failed
  | case2 quoted rest inductionHypothesis =>
      exact inductionHypothesis (map_eq_error_iff.mp failed)
  | case3 quoted character rest notQuote verbatim inductionHypothesis =>
      exact inductionHypothesis (map_eq_error_iff.mp failed)
  | case4 quoted character rest notQuote dollar nameless inductionHypothesis =>
      exact inductionHypothesis (map_eq_error_iff.mp failed)
  | case5 quoted character rest notQuote dollar named unknown =>
      exact ⟨_, unknown, (Except.error.inj failed).symm⟩
  | case6 quoted character rest notQuote dollar value named found inductionHypothesis =>
      exact inductionHypothesis (map_eq_error_iff.mp failed)

/-- Replacing references fails only at a variable that no line defines. -/
theorem exists_name_of_resolveLines {known : Variables} {lines : List Text}
    {cause : SheetError} (failed : resolveLines known lines = .error cause) :
    ∃ name, known.get? name = none ∧ cause = .unknownVariable name := by
  induction lines with
  | nil => cases failed
  | cons line others inductionHypothesis =>
      rw [resolveLines_cons] at failed
      rcases bind_eq_error_iff.mp failed with first | ⟨resolved, _, later⟩
      · split_ifs at first
        exact exists_name_of_resolveLine first
      · rcases bind_eq_error_iff.mp later with behind | ⟨_, _, done⟩
        · exact inductionHypothesis behind
        · cases done

end TerminalMarkup.Sheet
