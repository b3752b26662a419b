import TerminalMarkup.Proofs.Rendering.OpenRules
import TerminalMarkup.Proofs.RuleSet.Construction
import TerminalMarkup.Proofs.Style.Override
import TerminalMarkup.Proofs.Terminal.PartEffect

/-!
Contract: nested rules restore the styling around them.

Under the auto and the reset policy a rule whose author gave no after part
closes by clearing only, and it clears at least what its inside part set. So
between the closing codes and the codes that open the remaining rules again,
every component either has its initial value or the value that the remaining
rules had left it. Opening them again therefore rebuilds their styling exactly.
-/

set_option autoImplicit false

namespace TerminalMarkup

/-- A rule that closes by clearing components, among them every component to
which its inside codes give another value than the initial one. -/
structure CompiledRule.Undoes (rule : CompiledRule) : Prop where
  clears : ∀ (component : Component) (value : component.Value),
    Code.effectAll component rule.after = some value → value = component.initial
  covers : ∀ (component : Component) (value : component.Value),
    Code.effectAll component rule.inside = some value → value ≠ component.initial →
      Code.effectAll component rule.after = some component.initial

/-! ## Closing parts that only reset -/

/-- A part that only resets gives a component no value but the initial one. -/
theorem Part.effect_reset_only {group : Targets} {opened : Part} {component : Component}
    {value : component.Value}
    (gives : ({ reset := group } : Part).effect opened component = some value) :
    value = component.initial := by
  cases component with
  | color layer =>
      simp only [effect] at gives
      split_ifs at gives
      cases layer <;> exact (Option.some.inj gives).symm
  | style style =>
      simp only [effect, List.not_mem_nil, if_false] at gives
      split_ifs at gives
      exact (Option.some.inj gives).symm

/-- Under the auto and the reset policy the closing part only resets if the
author gave no after part. It resets each layer whose colour the inside part
sets, and the style group if the inside part switches an attribute on. -/
theorem Definition.closingPart_of_unauthored {definition : Definition} {policy : Policy}
    (unauthored : definition.explicitAfter = Part.empty)
    (undoing : policy = .auto ∨ policy = .reset) :
    ∃ group : Targets, definition.closingPart policy = { reset := group } ∧
      (∀ layer, (definition.insidePart.color layer).isSome → group.layer layer) ∧
      (definition.insidePart.enable ≠ [] → group.style) := by
  rcases undoing with rfl | rfl
  · refine ⟨definition.insidePart.undoing.reset, ?_, ?_, ?_⟩
    · rw [closingPart, unauthored, Part.autoAfter_empty]
    · intro layer set
      cases layer <;> exact set
    · intro enabled
      simp [Part.undoing, enabled]
  · refine ⟨{ fg := true, bg := true, style := true }, ?_, ?_, ?_⟩
    · simp only [closingPart, unauthored]
      rfl
    · intro layer _
      cases layer <;> rfl
    · intro _
      rfl

theorem Definition.undoes_compiled {definition : Definition} {policy : Policy}
    (unauthored : definition.explicitAfter = Part.empty)
    (undoing : policy = .auto ∨ policy = .reset) :
    (definition.compiled policy).Undoes := by
  obtain ⟨group, closing, layers, styles⟩ := closingPart_of_unauthored unauthored undoing
  constructor
  · intro component value gives
    simp only [compiled, Part.effectAll_codes, closing] at gives
    exact Part.effect_reset_only gives
  · intro component value gives lasting
    simp only [compiled, Part.effectAll_codes, closing] at gives ⊢
    cases component with
    | color layer =>
        simp only [Part.effect] at gives ⊢
        split_ifs at gives
        have set : (definition.insidePart.color layer).isSome := by
          rw [Option.isSome_iff_ne_none, Option.some.inj gives]
          exact lasting
        have acts : ({ reset := group } : Part).ActsOnLayer layer :=
          .inr (.inl (layers layer set))
        cases layer <;> simp [acts, Part.color, Component.initial]
    | style style =>
        have enabled : style ∈ definition.insidePart.enable := by
          by_contra absent
          simp only [Part.effect, absent, if_false] at gives
          split_ifs at gives
          exact lasting (Option.some.inj gives).symm
        have nonempty : definition.insidePart.enable ≠ [] := List.ne_nil_of_mem enabled
        have clears : ({ reset := group } : Part).ClearsStyle definition.insidePart style := by
          refine .inr (.inl ⟨styles nonempty, ?_⟩)
          simpa [Part.styleGroup, nonempty] using enabled
        simp [Part.effect, clears, Component.initial]

/-! ## The built-in reset rule -/

theorem effectAll_after_builtinReset (component : Component) :
    Code.effectAll component (builtinReset.compiled .keep).after = some component.initial := by
  have codes : (builtinReset.compiled .keep).after = [Code.resetAll] := by decide
  rw [codes, Code.effectAll_singleton, Code.effect_resetAll]

theorem undoes_builtinReset : (builtinReset.compiled .keep).Undoes := by
  constructor
  · intro component value gives
    rw [effectAll_after_builtinReset] at gives
    exact (Option.some.inj gives).symm
  · intro component value _ _
    exact effectAll_after_builtinReset component

/-! ## Replaying the open rules -/

/-- Codes lead to the same terminal from two starts if each component at the
second start is as the codes left it or initial. -/
theorem Terminal.run_eq_of_restored {codes : List Code} {terminal : Terminal}
    (restored : ∀ component, terminal.get component = component.initial ∨
      terminal.get component = (initial.run codes).get component) :
    terminal.run codes = initial.run codes := by
  apply Terminal.ext_get
  intro component
  have after := restored component
  rw [Terminal.get_run, Terminal.get_initial] at after
  rw [Terminal.get_run, Terminal.get_run, Terminal.get_initial]
  cases given : Code.effectAll component codes with
  | none => simpa [given] using after
  | some value => rfl

/-- Opening and closing a rule that undoes itself leaves every component as it
was or initial. -/
theorem CompiledRule.Undoes.get_run_run {rule : CompiledRule} (undoes : rule.Undoes)
    (terminal : Terminal) (component : Component) :
    ((terminal.run rule.inside).run rule.after).get component = component.initial ∨
      ((terminal.run rule.inside).run rule.after).get component =
        terminal.get component := by
  rw [Terminal.get_run, Terminal.get_run]
  cases closing : Code.effectAll component rule.after with
  | some value => exact .inl (undoes.clears component value closing)
  | none =>
      cases opening : Code.effectAll component rule.inside with
      | none => exact .inr rfl
      | some value =>
          left
          by_contra lasting
          have covered := undoes.covers component value opening lasting
          rw [closing] at covered
          cases covered

namespace RuleSet

/-- What nesting needs of a rule set: every rule undoes itself, and the reset
mark clears everything. -/
structure Undoing (rules : RuleSet) : Prop where
  rule : ∀ name rule, rules.get? name = some rule → rule.Undoes
  reset : ∀ component,
    Code.effectAll component rules.resetRule.after = some component.initial

/-- The terminal is as the inside codes of the open rules make it, and the open
rules undo themselves. -/
def Restored (stack : OpenRules) (terminal : Terminal) : Prop :=
  (∀ rule ∈ stack, rule.Undoes) ∧
    terminal = Terminal.initial.run stack.insideCodes

/-- Every token keeps the terminal as the open rules make it. -/
theorem Undoing.restored_step {rules : RuleSet} (undoing : rules.Undoing)
    (stack : OpenRules) (terminal : Terminal) (token : Token)
    (restored : Restored stack terminal) :
    Restored (rules.step stack token).1 (terminal.run (rules.stepCodes stack token)) := by
  obtain ⟨undo, rfl⟩ := restored
  rcases rules.step_cases stack token with ⟨next, codes⟩ | ⟨name, rule, found, next, codes⟩ |
    ⟨rule, outer, rfl, next, codes⟩ | ⟨next, codes⟩
  · rw [next, codes]
    exact ⟨undo, rfl⟩
  · rw [next, codes]
    constructor
    · intro other member
      rcases List.mem_cons.mp member with rfl | member
      · exact undoing.rule name other found
      · exact undo other member
    · rw [OpenRules.insideCodes_cons, Terminal.run_append]
  · rw [next, codes]
    constructor
    · intro other member
      exact undo other (List.mem_cons_of_mem rule member)
    · rw [OpenRules.insideCodes_cons, Terminal.run_append, Terminal.run_append]
      apply Terminal.run_eq_of_restored
      intro component
      exact (undo rule List.mem_cons_self).get_run_run _ component
  · rw [next, codes]
    constructor
    · intro other member
      cases member
    · apply Terminal.ext_get
      intro component
      rw [Terminal.get_run, undoing.reset]
      simp

/-- A set built under the auto or the reset policy is undoing if no author gave
an after part and nobody replaced the reset rule. -/
theorem undoing_build {definitions : List (Text × Definition)} {settings : Settings}
    {rules : RuleSet} (built : build definitions settings = .ok rules)
    (undoing : settings.policy = .auto ∨ settings.policy = .reset)
    (ordinary : ∀ entry ∈ definitions, entry.1 ≠ resetName)
    (unauthored : ∀ entry ∈ definitions, entry.2.explicitAfter = Part.empty) :
    rules.Undoing := by
  have resetRule : rules.resetRule = builtinReset.compiled .keep := by
    rcases resetRule_build built with same | ⟨definition, member, _⟩
    · exact same
    · exact absurd rfl (ordinary _ member)
  constructor
  · intro name rule found
    rcases get?_build built found with rfl | ⟨definition, member, rfl⟩
    · rw [resetRule]
      exact undoes_builtinReset
    · exact Definition.undoes_compiled (unauthored _ member) undoing
  · intro component
    rw [resetRule]
    exact effectAll_after_builtinReset component

/-- Nesting restores the outer styling exactly. After every list of tokens the
terminal is as the inside codes of the rules still open make it from the
initial terminal; with no rule open it is the initial terminal. -/
theorem nesting_restores_outer_style {definitions : List (Text × Definition)}
    {settings : Settings} {rules : RuleSet}
    (built : build definitions settings = .ok rules)
    (undoing : settings.policy = .auto ∨ settings.policy = .reset)
    (ordinary : ∀ entry ∈ definitions, entry.1 ≠ resetName)
    (unauthored : ∀ entry ∈ definitions, entry.2.explicitAfter = Part.empty)
    (tokens : List Token) :
    Terminal.initial.run (rules.codesWritten [] tokens) =
        Terminal.initial.run (rules.openAfter [] tokens).insideCodes ∧
      (rules.openAfter [] tokens = [] →
        Terminal.initial.run (rules.codesWritten [] tokens) = Terminal.initial) := by
  have setUndoing := undoing_build built undoing ordinary unauthored
  have start : Restored [] Terminal.initial :=
    ⟨fun rule member => absurd member (by simp), rfl⟩
  have restored := (run_induction setUndoing.restored_step start tokens).2
  refine ⟨restored, ?_⟩
  intro closed
  rw [restored, closed]
  rfl

/-- Two rules that set the same colour and switch the same attribute. -/
def overlappingDefinitions : List (Text × Definition) :=
  [("outer".toList,
      { fields := { fg := some (.base .blue), enable := [.bold, .bold, .italic] } }),
    ("inner".toList,
      { inside := some
          { fg := some (.indexed 208), enable := [.italic], disable := [.bold] }
        after := some {} })]

/-- The closing of an inner rule that overlaps the outer one leaves the styling
of the outer rule alone. -/
theorem nesting_restores_overlapping :
    ∃ rules, build overlappingDefinitions { policy := .reset } = .ok rules ∧
      (rules.openAfter []
        [.opening "outer".toList, .opening "inner".toList, .closing]).length = 1 ∧
      Terminal.initial.run (rules.codesWritten []
          [.opening "outer".toList, .opening "inner".toList, .closing]) =
        Terminal.initial.run (rules.openAfter []
          [.opening "outer".toList, .opening "inner".toList, .closing]).insideCodes := by
  obtain ⟨rules, built⟩ :
      ∃ rules, build overlappingDefinitions { policy := .reset } = .ok rules := ⟨_, rfl⟩
  refine ⟨rules, built, ?_, ?_⟩
  · cases built
    decide
  · exact (nesting_restores_outer_style built (.inr rfl) (by decide) (by decide) _).1

end RuleSet

end TerminalMarkup
