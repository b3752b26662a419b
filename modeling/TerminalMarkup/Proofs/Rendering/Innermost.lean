import TerminalMarkup.Proofs.Rendering.OpenRules
import TerminalMarkup.Proofs.RuleSet.Construction
import TerminalMarkup.Proofs.Terminal.PartEffect

/-!
Contract: the styling of the rules still open wins.

Closing codes may be anything here. After each of them the renderer writes the
inside codes of every rule that is still open, so whatever the open rules give
to a component it has. Of several open rules that touch a component the
innermost writes last.
-/

set_option autoImplicit false

namespace TerminalMarkup

namespace CompiledRule

/-- Whether the inside of a rule touches a component: its part sets or resets
the colour of the layer, or its codes switch the attribute or reset
everything. -/
def Touches (rule : CompiledRule) : Component → Prop
  | .color layer => rule.definition.insidePart.ActsOnLayer layer
  | .style style =>
    Code.ofAttribute style .on ∈ rule.inside ∨ Code.ofAttribute style .off ∈ rule.inside ∨
      Code.resetAll ∈ rule.inside

/-- The value that the inside of a rule gives to a component that it touches:
the colour that its part sets, or the default; and for an attribute, whether
its codes switch it on. -/
def given (rule : CompiledRule) : (component : Component) → component.Value
  | .color layer => rule.definition.insidePart.color layer
  | .style style => decide (Code.ofAttribute style .on ∈ rule.inside)

/-- The inside codes of a rule are those of the inside part of its definition. -/
def InsideCompiled (rule : CompiledRule) : Prop :=
  rule.inside = rule.definition.insidePart.codes rule.definition.insidePart

end CompiledRule

namespace CompiledRule

variable {rule : CompiledRule} {component : Component}

/-- A rule acts on the components that it touches, and on no others. -/
theorem InsideCompiled.effectAll_eq_none_iff (compiled : rule.InsideCompiled) :
    Code.effectAll component rule.inside = none ↔ ¬ rule.Touches component := by
  cases component with
  | color layer =>
      rw [compiled, Part.effectAll_codes]
      simp [Part.effect, Touches]
  | style style =>
      rw [Code.effectAll_eq_none_iff]
      constructor
      · intro silent touches
        rcases touches with on | off | everything
        · exact ((Code.effect_style_eq_none_iff _ style).mp (silent _ on)).2.1 rfl
        · exact ((Code.effect_style_eq_none_iff _ style).mp (silent _ off)).2.2 rfl
        · exact ((Code.effect_style_eq_none_iff _ style).mp (silent _ everything)).1 rfl
      · intro untouched code member
        rw [Code.effect_style_eq_none_iff]
        refine ⟨?_, ?_, ?_⟩
        · rintro rfl
          exact untouched (.inr (.inr member))
        · rintro rfl
          exact untouched (.inl member)
        · rintro rfl
          exact untouched (.inr (.inl member))

/-- What the inside codes of a rule give to a component that it touches. -/
theorem InsideCompiled.effectAll_of_touches (compiled : rule.InsideCompiled)
    (touches : rule.Touches component) :
    Code.effectAll component rule.inside = some (rule.given component) := by
  cases component with
  | color layer =>
      rw [compiled, Part.effectAll_codes]
      exact if_pos touches
  | style style =>
      by_cases on : Code.ofAttribute style .on ∈ rule.inside
      · -- Nothing behind the code that switches the attribute on undoes it.
        have settling : Code.Settling rule.inside := by
          rw [compiled]
          exact Part.settling_codes _ _
        have lasting : true ≠ (Component.style style).initial := by
          simp [Component.initial]
        rw [settling.effectAll_of_mem on (by simp) lasting]
        simp [given, on]
      · cases acts : Code.effectAll (.style style) rule.inside with
        | none => exact absurd touches (compiled.effectAll_eq_none_iff.mp acts)
        | some value =>
            obtain ⟨code, member, gives⟩ := Code.exists_mem_of_effectAll acts
            cases value with
            | false => simp [given, on]
            | true =>
                rw [Code.effect_style_eq_some_true_iff] at gives
                exact absurd (gives ▸ member) on

end CompiledRule

namespace OpenRules

/-- Where some open rule touches a component, there is an innermost one. -/
theorem exists_innermost {stack : OpenRules} {component : Component}
    (touched : ∃ rule ∈ stack, CompiledRule.Touches rule component) :
    ∃ inner rule outer, stack = inner ++ rule :: outer ∧
      (∀ other ∈ inner, ¬ CompiledRule.Touches other component) ∧
      CompiledRule.Touches rule component := by
  induction stack with
  | nil => simp at touched
  | cons first rest inductionHypothesis =>
      by_cases here : first.Touches component
      · exact ⟨[], first, rest, rfl, by simp, here⟩
      · obtain ⟨rule, member, touches⟩ := touched
        have later : ∃ rule ∈ rest, CompiledRule.Touches rule component := by
          rcases List.mem_cons.mp member with rfl | member
          · exact absurd touches here
          · exact ⟨rule, member, touches⟩
        obtain ⟨inner, rule, outer, rfl, untouched, touches⟩ := inductionHypothesis later
        refine ⟨first :: inner, rule, outer, rfl, ?_, touches⟩
        intro other member
        rcases List.mem_cons.mp member with rfl | member
        · exact here
        · exact untouched other member

/-- Rules that leave a component alone add nothing to what the rules around
them give it. -/
theorem effectAll_insideCodes_append {inner outer : OpenRules} {component : Component}
    (silent : ∀ rule ∈ inner, Code.effectAll component rule.inside = none) :
    Code.effectAll component (insideCodes (inner ++ outer)) =
      Code.effectAll component outer.insideCodes := by
  have none : Code.effectAll component inner.insideCodes = none := by
    rw [Code.effectAll_eq_none_iff]
    intro code member
    obtain ⟨rule, stacked, inside⟩ := List.mem_flatMap.mp member
    exact Code.effectAll_eq_none_iff.mp (silent rule (List.mem_reverse.mp stacked)) code inside
  rw [insideCodes_append, Code.effectAll_append, none, Option.none_or]

end OpenRules

namespace RuleSet

/-- Every component on which the open rules act is as they make it. -/
def Styled (stack : OpenRules) (terminal : Terminal) : Prop :=
  ∀ (component : Component) (value : component.Value),
    Code.effectAll component stack.insideCodes = some value →
      terminal.get component = value

/-- Every token keeps the terminal styled by the open rules, whatever codes
rules close with. -/
theorem styled_step (rules : RuleSet) (stack : OpenRules) (terminal : Terminal)
    (token : Token) (styled : Styled stack terminal) :
    Styled (rules.step stack token).1 (terminal.run (rules.stepCodes stack token)) := by
  intro component value gives
  rcases rules.step_cases stack token with ⟨next, codes⟩ | ⟨name, rule, found, next, codes⟩ |
    ⟨rule, outer, rfl, next, codes⟩ | ⟨next, codes⟩
  · rw [next] at gives
    rw [codes]
    exact styled component value gives
  · rw [next, OpenRules.insideCodes_cons, Code.effectAll_append, Option.or_eq_some_iff]
      at gives
    rw [codes, Terminal.get_run]
    rcases gives with inside | ⟨untouched, outside⟩
    · rw [inside]
      rfl
    · rw [untouched]
      exact styled component value outside
  · rw [next] at gives
    rw [codes, Terminal.run_append, Terminal.get_run, gives]
    rfl
  · rw [next] at gives
    cases gives

theorem insideCompiled_of_get? {definitions : List (Text × Definition)}
    {settings : Settings} {rules : RuleSet}
    (built : build definitions settings = .ok rules) {name : Text} {rule : CompiledRule}
    (found : rules.get? name = some rule) :
    rule.InsideCompiled := by
  rcases get?_build built found with rfl | ⟨definition, _, rfl⟩
  · rcases resetRule_build built with same | ⟨definition, _, same⟩ <;> rw [same] <;> rfl
  · rfl

/-- Whatever policy, after parts and reset rule a set has, and whatever the
terminal was: after every list of tokens a component that some open rule
touches has the value given to it by the innermost open rule that touches it,
and that rule gives this value on every terminal. -/
theorem innermost_touching_rule_wins {definitions : List (Text × Definition)}
    {settings : Settings} {rules : RuleSet}
    (built : build definitions settings = .ok rules) (terminal : Terminal)
    (tokens : List Token) (component : Component)
    (touched : ∃ rule ∈ rules.openAfter [] tokens, CompiledRule.Touches rule component) :
    ∃ inner rule outer, rules.openAfter [] tokens = inner ++ rule :: outer ∧
      (∀ other ∈ inner, ¬ CompiledRule.Touches other component) ∧
      CompiledRule.Touches rule component ∧
      (terminal.run (rules.codesWritten [] tokens)).get component = rule.given component ∧
      ∀ before : Terminal,
        (before.run rule.inside).get component = rule.given component := by
  obtain ⟨inner, rule, outer, stack, untouched, touches⟩ := OpenRules.exists_innermost touched
  have compiled : ∀ other ∈ rules.openAfter [] tokens, other.InsideCompiled := by
    intro other member
    rcases mem_openAfter member with early | ⟨name, found⟩
    · cases early
    · exact insideCompiled_of_get? built found
  have inside : Code.effectAll component rule.inside = some (rule.given component) :=
    (compiled rule (by simp [stack])).effectAll_of_touches touches
  have silent : ∀ other ∈ inner, Code.effectAll component other.inside = none := by
    intro other member
    exact (compiled other (by simp [stack, member])).effectAll_eq_none_iff.mpr
      (untouched other member)
  have whole : Code.effectAll component (rules.openAfter [] tokens).insideCodes =
      some (rule.given component) := by
    rw [stack, OpenRules.effectAll_insideCodes_append silent, OpenRules.insideCodes_cons,
      Code.effectAll_append, inside]
    rfl
  have start : Styled [] terminal := by
    intro component value gives
    cases gives
  refine ⟨inner, rule, outer, stack, untouched, touches, ?_, ?_⟩
  · exact run_induction rules.styled_step start tokens component _ whole
  · intro before
    rw [Terminal.get_run, inside]
    rfl

/-- Rules that close with styling of their own, and a reset rule that sets a
colour. -/
def recolouringDefinitions : List (Text × Definition) :=
  [("outer".toList, { fields := { fg := some (.base .blue), enable := [.bold] } }),
    ("inner".toList,
      { fields := { fg := some (.base .red) }
        after := some { fg := some (.base .green), disable := [.bold] } }),
    (resetName, { after := some { fg := some (.rgb 1 2 3) } })]

/-- An inner rule opens and closes while the outer one stays open. -/
def recolouringTokens : List Token :=
  [.reset, .opening "outer".toList, .opening "inner".toList, .closing]

/-- The colour with which an inner rule closes does not show while the outer
rule is open. -/
theorem innermost_wins_over_closing_colour :
    ∃ rules, build recolouringDefinitions { policy := .keep } = .ok rules ∧
      (∃ rule ∈ rules.openAfter [] recolouringTokens,
        CompiledRule.Touches rule (.color .foreground)) ∧
      ∃ inner rule outer,
        rules.openAfter [] recolouringTokens = inner ++ rule :: outer ∧
        (Terminal.initial.run (rules.codesWritten [] recolouringTokens)).get
          (.color .foreground) = rule.given (.color .foreground) := by
  obtain ⟨rules, built⟩ :
      ∃ rules, build recolouringDefinitions { policy := .keep } = .ok rules := ⟨_, rfl⟩
  have touched : ∃ rule ∈ rules.openAfter [] recolouringTokens,
      CompiledRule.Touches rule (.color .foreground) := by
    cases built
    exact ⟨_, List.mem_cons_self, .inl rfl⟩
  obtain ⟨inner, rule, outer, stack, _, _, value, _⟩ :=
    innermost_touching_rule_wins built Terminal.initial recolouringTokens
      (.color .foreground) touched
  exact ⟨rules, built, touched, inner, rule, outer, stack, value⟩

end RuleSet

end TerminalMarkup
