import TerminalMarkup.Markup.RuleSet
import Mathlib.Tactic.SplitIfs

/-!
Contract: where the rules of a built set come from.

`RuleSet.build` compiles each ordinary definition under the policy of the set
and the definition of the reset rule under the keep policy. So every rule that
`get?` can return is the compilation of a definition of the list, or of the
built-in reset definition. Which of several definitions of one name counts is
not owned here.
-/

set_option autoImplicit false

namespace TerminalMarkup

namespace Definition

theorem compile_eq_ok_iff (definition : Definition) (name : Text) (policy : Policy)
    (rule : CompiledRule) :
    definition.compile name policy = .ok rule ↔
      definition.isValid ∧ rule = definition.compiled policy := by
  unfold compile validate
  cases definition.isValid with
  | false => simp [bind, Except.bind]
  | true => simp [bind, Except.bind, pure, Except.pure, eq_comm]

end Definition

namespace Draft

variable {policy : Policy} {draft next : Draft} {name : Text} {definition : Definition}

/-- What one definition does to a draft: it becomes the reset definition, or
its compilation is put under its name. -/
theorem define_cases (defined : draft.define policy name definition = .ok next) :
    (name = resetName ∧ next = { draft with resetDefinition := definition }) ∨
      (name ≠ resetName ∧ next =
        { draft with ordinary := draft.ordinary.insert name (definition.compiled policy) }) := by
  unfold define at defined
  split_ifs at defined with unnamed isReset
  · left
    unfold Definition.validate at defined
    split_ifs at defined with valid
    · exact ⟨isReset, (Except.ok.inj defined).symm⟩
    · cases defined
  · right
    cases compiled : definition.compile name policy with
    | error cause =>
        rw [compiled] at defined
        cases defined
    | ok rule =>
        rw [compiled] at defined
        obtain ⟨_, rfl⟩ := (definition.compile_eq_ok_iff name policy rule).mp compiled
        exact ⟨isReset, (Except.ok.inj defined).symm⟩

theorem exists_define_of_defineAll {rest : List (Text × Definition)}
    (defined : draft.defineAll policy ((name, definition) :: rest) = .ok next) :
    ∃ middle, draft.define policy name definition = .ok middle ∧
      middle.defineAll policy rest = .ok next := by
  unfold defineAll at defined
  cases step : draft.define policy name definition with
  | error cause =>
      rw [step] at defined
      cases defined
  | ok middle =>
      rw [step] at defined
      exact ⟨middle, rfl, defined⟩

/-- The rules of a draft are those that it had before and compilations of the
definitions added. -/
theorem get?_defineAll {definitions : List (Text × Definition)} {wanted : Text}
    {rule : CompiledRule} (defined : draft.defineAll policy definitions = .ok next)
    (found : next.ordinary.get? wanted = some rule) :
    draft.ordinary.get? wanted = some rule ∨
      ∃ definition, (wanted, definition) ∈ definitions ∧
        rule = definition.compiled policy := by
  induction definitions generalizing draft with
  | nil =>
      cases defined
      exact .inl found
  | cons entry rest inductionHypothesis =>
      obtain ⟨middle, step, others⟩ := exists_define_of_defineAll defined
      rcases inductionHypothesis others with early | ⟨later, member, same⟩
      · rcases define_cases step with ⟨_, rfl⟩ | ⟨_, rfl⟩
        · exact .inl early
        · rw [Table.get?_insert] at early
          split_ifs at early with here
          · subst here
            exact .inr ⟨entry.2, List.mem_cons_self, (Option.some.inj early).symm⟩
          · exact .inl early
      · exact .inr ⟨later, List.mem_cons_of_mem _ member, same⟩

/-- The reset definition of a draft is the one that it had before or one of
the definitions added. -/
theorem resetDefinition_defineAll {definitions : List (Text × Definition)}
    (defined : draft.defineAll policy definitions = .ok next) :
    next.resetDefinition = draft.resetDefinition ∨
      (resetName, next.resetDefinition) ∈ definitions := by
  induction definitions generalizing draft with
  | nil =>
      cases defined
      exact .inl rfl
  | cons entry rest inductionHypothesis =>
      obtain ⟨middle, step, others⟩ := exists_define_of_defineAll defined
      rcases inductionHypothesis others with early | later
      · rcases define_cases step with ⟨named, rfl⟩ | ⟨_, rfl⟩
        · right
          rw [early, ← named]
          exact List.mem_cons_self
        · exact .inl early
      · exact .inr (List.mem_cons_of_mem _ later)

end Draft

namespace RuleSet

variable {definitions : List (Text × Definition)} {settings : Settings} {rules : RuleSet}

/-- A built set comes from a draft that holds all definitions. -/
theorem exists_draft_of_build (built : build definitions settings = .ok rules) :
    ∃ draft : Draft, ({} : Draft).defineAll settings.policy definitions = .ok draft ∧
      rules.ordinary = draft.ordinary ∧
      rules.resetRule = draft.resetDefinition.compiled .keep ∧
      rules.settings = settings := by
  unfold build at built
  cases admitted : settings.symbols.validate with
  | error cause =>
      rw [admitted] at built
      cases built
  | ok _ =>
      rw [admitted] at built
      cases drafted : ({} : Draft).defineAll settings.policy definitions with
      | error cause =>
          simp only [bind, Except.bind, drafted] at built
          cases built
      | ok draft =>
          simp only [bind, Except.bind, drafted] at built
          cases built
          exact ⟨draft, rfl, rfl, rfl, rfl⟩

/-- The reset rule is compiled from the built-in definition or from one given
under its name. -/
theorem resetRule_build (built : build definitions settings = .ok rules) :
    rules.resetRule = builtinReset.compiled .keep ∨
      ∃ definition, (resetName, definition) ∈ definitions ∧
        rules.resetRule = definition.compiled .keep := by
  obtain ⟨draft, drafted, _, reset, _⟩ := exists_draft_of_build built
  rcases Draft.resetDefinition_defineAll drafted with same | member
  · exact .inl (by rw [reset, same])
  · exact .inr ⟨draft.resetDefinition, member, reset⟩

/-- Every rule of a built set is the reset rule or compiled from a definition
given under its name. -/
theorem get?_build (built : build definitions settings = .ok rules) {name : Text}
    {rule : CompiledRule} (found : rules.get? name = some rule) :
    rule = rules.resetRule ∨
      ∃ definition, (name, definition) ∈ definitions ∧
        rule = definition.compiled settings.policy := by
  obtain ⟨draft, drafted, ordinary, _, _⟩ := exists_draft_of_build built
  unfold get? at found
  split_ifs at found
  · exact .inl (Option.some.inj found).symm
  · rw [ordinary] at found
    rcases Draft.get?_defineAll drafted found with early | given
    · cases early
    · exact .inr given

end RuleSet

end TerminalMarkup
