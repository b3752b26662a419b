import TerminalMarkup.Markup.RuleSet
import TerminalMarkup.Proofs.Terminal.Component

/-!
Contract: runs of the renderer over tokens.

`openAfter` is the stack of open rules after some tokens, and `codesWritten`
are the codes written for them. `step_cases` says everything that one token
can do to both. `run_induction` turns a relation between the stack and the
terminal that every token keeps into one that every run keeps.
-/

set_option autoImplicit false

namespace TerminalMarkup

/-- The codes of an emission. Literal text has none. -/
def Emission.codeList : Emission → List Code
  | .text _ => []
  | .codes sequence => sequence

/-- The inside codes of open rules, outermost first. -/
def OpenRules.insideCodes (stack : OpenRules) : List Code :=
  stack.reverse.flatMap CompiledRule.inside

@[simp]
theorem OpenRules.insideCodes_nil : insideCodes [] = [] := rfl

theorem OpenRules.insideCodes_append (inner outer : OpenRules) :
    insideCodes (inner ++ outer) = insideCodes outer ++ insideCodes inner := by
  simp [insideCodes]

theorem OpenRules.insideCodes_cons (rule : CompiledRule) (outer : OpenRules) :
    insideCodes (rule :: outer) = insideCodes outer ++ rule.inside := by
  simp [insideCodes]

namespace RuleSet

/-- The open rules after some tokens, beginning with some open rules. -/
def openAfter (rules : RuleSet) (stack : OpenRules) : List Token → OpenRules
  | [] => stack
  | token :: rest => rules.openAfter (rules.step stack token).1 rest

/-- The codes written for some tokens, beginning with some open rules. -/
def codesWritten (rules : RuleSet) (stack : OpenRules) (tokens : List Token) : List Code :=
  (rules.emissions stack tokens).flatMap Emission.codeList

/-- The codes written for one token. -/
def stepCodes (rules : RuleSet) (stack : OpenRules) (token : Token) : List Code :=
  (rules.step stack token).2.flatMap Emission.codeList

@[simp]
theorem codesWritten_nil (rules : RuleSet) (stack : OpenRules) :
    rules.codesWritten stack [] = [] := rfl

theorem codesWritten_cons (rules : RuleSet) (stack : OpenRules) (token : Token)
    (rest : List Token) :
    rules.codesWritten stack (token :: rest) =
      rules.stepCodes stack token ++
        rules.codesWritten (rules.step stack token).1 rest := by
  simp only [codesWritten, emissions, stepCodes, List.flatMap_append]

theorem openAfter_append (rules : RuleSet) (stack : OpenRules) (front back : List Token) :
    rules.openAfter stack (front ++ back) =
      rules.openAfter (rules.openAfter stack front) back := by
  induction front generalizing stack with
  | nil => rfl
  | cons token rest inductionHypothesis => exact inductionHypothesis (rules.step stack token).1

/-- What is written for some tokens does not depend on the tokens behind
them. -/
theorem emissions_append (rules : RuleSet) (stack : OpenRules) (front back : List Token) :
    rules.emissions stack (front ++ back) =
      rules.emissions stack front ++ rules.emissions (rules.openAfter stack front) back := by
  induction front generalizing stack with
  | nil => rfl
  | cons token rest inductionHypothesis =>
      rw [List.cons_append, emissions, inductionHypothesis, emissions, List.append_assoc]
      rfl

/-- What one token can do: nothing; open a rule of the set; close the
innermost rule and open the others again; or close all and reset. -/
theorem step_cases (rules : RuleSet) (stack : OpenRules) (token : Token) :
    ((rules.step stack token).1 = stack ∧ rules.stepCodes stack token = []) ∨
    (∃ name rule, rules.get? name = some rule ∧
      (rules.step stack token).1 = rule :: stack ∧
      rules.stepCodes stack token = rule.inside) ∨
    (∃ rule outer, stack = rule :: outer ∧
      (rules.step stack token).1 = outer ∧
      rules.stepCodes stack token = rule.after ++ OpenRules.insideCodes outer) ∨
    ((rules.step stack token).1 = [] ∧
      rules.stepCodes stack token = rules.resetRule.after) := by
  cases token with
  | text literal => exact .inl ⟨rfl, rfl⟩
  | opening name =>
      cases found : rules.get? name with
      | none => exact .inl (by simp [stepCodes, step, found])
      | some rule =>
          refine .inr (.inl ⟨name, rule, found, ?_⟩)
          simp [stepCodes, step, found, Emission.codeList]
  | closing =>
      cases stack with
      | nil => exact .inl ⟨rfl, rfl⟩
      | cons rule outer =>
          refine .inr (.inr (.inl ⟨rule, outer, rfl, rfl, ?_⟩))
          simp only [stepCodes, step, OpenRules.insideCodes, List.flatMap_cons,
            List.flatMap_map]
          rfl
  | reset =>
      refine .inr (.inr (.inr ⟨rfl, ?_⟩))
      simp [stepCodes, step, Emission.codeList]

/-- A relation between the open rules and the terminal that every token keeps
holds after every run that it holds before. -/
theorem run_induction {rules : RuleSet} {Holds : OpenRules → Terminal → Prop}
    (kept : ∀ stack terminal token, Holds stack terminal →
      Holds (rules.step stack token).1 (terminal.run (rules.stepCodes stack token)))
    {stack : OpenRules} {terminal : Terminal} (start : Holds stack terminal)
    (tokens : List Token) :
    Holds (rules.openAfter stack tokens)
      (terminal.run (rules.codesWritten stack tokens)) := by
  induction tokens generalizing stack terminal with
  | nil => exact start
  | cons token rest inductionHypothesis =>
      rw [codesWritten_cons, Terminal.run_append]
      exact inductionHypothesis (kept stack terminal token start)

/-- Every rule that a run has open was open before or is in the set. -/
theorem mem_openAfter {rules : RuleSet} {stack : OpenRules} {tokens : List Token}
    {rule : CompiledRule} (member : rule ∈ rules.openAfter stack tokens) :
    rule ∈ stack ∨ ∃ name, rules.get? name = some rule := by
  induction tokens generalizing stack with
  | nil => exact .inl member
  | cons token rest inductionHypothesis =>
      rcases inductionHypothesis member with early | known
      · rcases step_cases rules stack token with ⟨same, _⟩ | ⟨name, opened, found, same, _⟩ |
          ⟨closed, outer, rfl, same, _⟩ | ⟨same, _⟩
        · exact .inl (same ▸ early)
        · rw [same, List.mem_cons] at early
          rcases early with rfl | early
          · exact .inr ⟨name, found⟩
          · exact .inl early
        · exact .inl (List.mem_cons_of_mem closed (same ▸ early))
        · rw [same] at early
          cases early
      · exact .inr known

end RuleSet

end TerminalMarkup
