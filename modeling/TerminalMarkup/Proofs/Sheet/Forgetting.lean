import TerminalMarkup.Proofs.Sheet.Unreadable

/-!
Contract: readings that differ by what is left out.

`Forgets` relates the reading of something to the reading of what is left of it:
the results are the same, and all that is missing in the notices are the warnings
of what was lost. It goes along with the ways in which readings are put together
(`map`, `andThen`, `flatMap`, `run`), and it says what the log of either reading
holds.
-/

set_option autoImplicit false

namespace TerminalMarkup.Sheet

/-! ## Readings of what is left -/

/-- The warning of a notice, if it is one. -/
def Notice.warning? : Notice → Option Warning
  | .warning cause => some cause
  | .redefined _ => none
  | .finished _ _ => none

/-- What is left of something reads as the whole thing does. The reading of the
whole warns of each lost construct once and says otherwise the same. -/
structure Forgets {Result : Type} (whole left : Reported Result) (lost : List Construct) :
    Prop where
  result : left.result = whole.result
  warnings : whole.notices.filterMap Notice.warning? = lost.map Construct.warning
  others : left.notices = whole.notices.filter fun notice => notice.warning?.isNone

/-- Changing what may be read of something that may be left. -/
theorem Reported.map_elim {Source Result Next : Type} (left? : Option Source) (result : Result)
    (read : Source → Reported Result) (change : Result → Next) :
    (left?.elim ⟨result, []⟩ read).map change =
      left?.elim ⟨change result, []⟩ fun item => (read item).map change := by
  cases left? <;> rfl

namespace Forgets

variable {Result Next : Type} {whole left : Reported Result} {lost : List Construct}

theorem silent (result : Result) :
    Forgets (⟨result, []⟩ : Reported Result) ⟨result, []⟩ [] where
  result := rfl
  warnings := rfl
  others := rfl

/-- A reading without warnings loses nothing. -/
theorem nothing (quiet : ∀ notice ∈ whole.notices, notice.warning? = none) :
    Forgets whole whole [] where
  result := rfl
  warnings := List.filterMap_eq_nil_iff.mpr quiet
  others := by
    rw [List.filter_eq_self.mpr]
    intro notice member
    rw [quiet notice member]
    rfl

/-- A construct that cannot be read is lost, and the reading warns of it. -/
theorem construct {result : Result} {cause : Warning} {lost : Construct}
    (about : lost.warning = cause) :
    Forgets (.warn result cause) ⟨result, []⟩ [lost] where
  result := rfl
  warnings := by
    rw [← about]
    rfl
  others := rfl

theorem map (forgets : Forgets whole left lost) (change : Result → Next) :
    Forgets (whole.map change) (left.map change) lost where
  result := congrArg change forgets.result
  warnings := forgets.warnings
  others := forgets.others

theorem andThen (forgets : Forgets whole left lost) {next nextLeft : Result → Reported Next}
    {lostNext : List Construct}
    (later : ∀ result, Forgets (next result) (nextLeft result) lostNext) :
    Forgets (whole.andThen next) (left.andThen nextLeft) (lost ++ lostNext) where
  result := by
    show (nextLeft left.result).result = _
    rw [forgets.result]
    exact (later whole.result).result
  warnings := by
    show (whole.notices ++ (next whole.result).notices).filterMap _ = _
    rw [List.filterMap_append, List.map_append, forgets.warnings, (later whole.result).warnings]
  others := by
    show left.notices ++ (nextLeft left.result).notices = List.filter _ (whole.notices ++ _)
    rw [forgets.result, forgets.others, (later whole.result).others, List.filter_append]

section Lists

variable {Source : Type} {left? : Source → Option Source} {lostOf : Source → List Construct}

/-- A reading of a list item by item forgets what is lost of each item. -/
theorem flatMap {read : Source → Reported (List Result)}
    (each : ∀ item, Forgets (read item) ((left? item).elim ⟨[], []⟩ read) (lostOf item))
    (items : List Source) :
    Forgets (.flatMap items read) (.flatMap (items.filterMap left?) read)
      (items.flatMap lostOf) := by
  induction items with
  | nil => exact silent []
  | cons item others inductionHypothesis =>
      have joined := (each item).andThen fun first => inductionHypothesis.map (first ++ ·)
      rw [List.flatMap_cons]
      cases kept : left? item with
      | none =>
          rw [List.filterMap_cons_none kept]
          rw [kept] at joined
          exact joined
      | some other =>
          rw [List.filterMap_cons_some kept]
          rw [kept] at joined
          exact joined

/-- A run over a list with a state forgets what is lost of each item. -/
theorem run {State : Type} (read : State → Source → Reported State)
    (run : State → List Source → Reported State) (start : ∀ state, run state [] = ⟨state, []⟩)
    (step : ∀ state item others,
      run state (item :: others) = (read state item).andThen fun next => run next others)
    (each : ∀ state item,
      Forgets (read state item) ((left? item).elim ⟨state, []⟩ (read state)) (lostOf item))
    (state : State) (items : List Source) :
    Forgets (run state items) (run state (items.filterMap left?)) (items.flatMap lostOf) := by
  induction items generalizing state with
  | nil =>
      rw [List.filterMap_nil, start]
      exact silent state
  | cons item others inductionHypothesis =>
      have whole := (each state item).andThen fun next => inductionHypothesis next
      rw [step, List.flatMap_cons]
      cases kept : left? item with
      | none =>
          rw [List.filterMap_cons_none kept]
          rw [kept] at whole
          exact whole
      | some other =>
          rw [List.filterMap_cons_some kept, step]
          rw [kept] at whole
          exact whole

end Lists

end Forgets

/-! ## The log -/

/-- The log records of a reading. -/
def Reported.records {Result : Type} (reported : Reported Result) : List Log.Record :=
  reported.notices.map Notice.record

/-- The log record about a construct that cannot be read. -/
def Construct.record (construct : Construct) : Log.Record :=
  (Notice.warning construct.warning).record

theorem level_record (notice : Notice) :
    notice.record.level = .warn ↔ notice.warning?.isSome := by
  cases notice <;> simp [Notice.record, Notice.warning?]

theorem filter_warn_records (notices : List Notice) :
    (notices.map Notice.record).filter (·.level = .warn) =
      (notices.filterMap Notice.warning?).map fun cause => (Notice.warning cause).record := by
  induction notices with
  | nil => rfl
  | cons notice others inductionHypothesis =>
      cases notice with
      | warning cause => exact congrArg ((Notice.warning cause).record :: ·) inductionHypothesis
      | redefined rule => exact inductionHypothesis
      | finished ruleCount variableCount => exact inductionHypothesis

namespace Forgets

variable {Result : Type} {whole left : Reported Result} {lost : List Construct}

theorem warn_records (forgets : Forgets whole left lost) :
    whole.records.filter (·.level = .warn) = lost.map Construct.record := by
  rw [Reported.records, filter_warn_records, forgets.warnings, List.map_map]
  rfl

theorem other_records (forgets : Forgets whole left lost) :
    left.records = whole.records.filter (·.level ≠ .warn) := by
  rw [Reported.records, Reported.records, forgets.others, List.filter_map]
  congr 1
  apply List.filter_congr
  intro notice _
  simp only [Function.comp_apply, ne_eq, level_record]
  cases notice.warning? <;> rfl

theorem left_warns_not (forgets : Forgets whole left lost) :
    left.notices.filterMap Notice.warning? = [] := by
  rw [forgets.others, List.filterMap_eq_nil_iff]
  intro notice member
  simpa using (List.mem_filter.mp member).2

end Forgets

end TerminalMarkup.Sheet
