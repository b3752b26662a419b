import TerminalMarkup.Proofs.Rendering.OpenRules
import TerminalMarkup.Proofs.Scanning.Tokenization
import TerminalMarkup.Proofs.Style.WrittenCodes

/-!
Contract: styled output is plain output with control sequences in it.

Every code of a compiled rule has fields, so that its control sequence has
parameters. A rendering is clean when its codes have fields and its literal
text has no escape characters. Deleting the control sequences of a clean
rendering leaves what is written plainly (`eraseSequences_flatMap_written`),
which is the literal text of the tokens.
-/

set_option autoImplicit false

namespace TerminalMarkup

/-! ## Codes -/

/-- Every code of a rule has fields. -/
def CompiledRule.HasFields (rule : CompiledRule) : Prop :=
  ∀ phase, ∀ code ∈ rule.codes phase, code.fields ≠ []

theorem Definition.hasFields_compiled (definition : Definition) (policy : Policy) :
    (definition.compiled policy).HasFields := by
  intro phase code member
  exact (isRegular_of_mem_compiled member).fields_ne_nil

/-! ## Emissions -/

namespace Emission

/-- An emission whose codes have fields and whose text has no escape
characters. -/
def IsClean : Emission → Prop
  | .text literal => '\x1b' ∉ literal
  | .codes sequence => ∀ code ∈ sequence, code.fields ≠ []

theorem eraseSequences_escapeSequence_append (sequence : List Code) (rest : Text) :
    Text.eraseSequences (escapeSequence sequence ++ rest) = Text.eraseSequences rest := by
  induction sequence with
  | nil => rfl
  | cons code others inductionHypothesis =>
      have step : escapeSequence (code :: others) =
          Text.controlSequence code.text ++ escapeSequence others := rfl
      rw [step, List.append_assoc,
        Text.eraseSequences_controlSequence_append fun _ => Code.isParameter_of_mem_text,
        inductionHypothesis]

theorem IsClean.eraseSequences_append {emission : Emission} (clean : emission.IsClean)
    (rest : Text) :
    Text.eraseSequences (emission.written .styled ++ rest) =
      emission.written .plain ++ Text.eraseSequences rest := by
  cases emission with
  | text literal => exact Text.eraseSequences_append_of_plain clean rest
  | codes sequence => exact eraseSequences_escapeSequence_append sequence rest

theorem IsClean.escapesStartSequences {emission : Emission} (clean : emission.IsClean) :
    (emission.written .styled).EscapesStartSequences := by
  cases emission with
  | text literal => exact .of_plain clean
  | codes sequence =>
      show (escapeSequence sequence).EscapesStartSequences
      induction sequence with
      | nil => exact .of_plain List.not_mem_nil
      | cons code others inductionHypothesis =>
          have nonempty := Code.text_ne_nil (clean code List.mem_cons_self)
          exact .append (.controlSequence nonempty fun _ => Code.isParameter_of_mem_text)
            (inductionHypothesis fun other member => clean other (List.mem_cons_of_mem code member))

end Emission

/-- Deleting the control sequences of a clean rendering leaves what is written
plainly. -/
theorem eraseSequences_flatMap_written {emissions : List Emission}
    (clean : ∀ emission ∈ emissions, emission.IsClean) :
    Text.eraseSequences (emissions.flatMap (Emission.written .styled)) =
      emissions.flatMap (Emission.written .plain) := by
  induction emissions with
  | nil => exact Text.eraseSequences_nil
  | cons emission others inductionHypothesis =>
      obtain ⟨first, behind⟩ := List.forall_mem_cons.mp clean
      rw [List.flatMap_cons, List.flatMap_cons, first.eraseSequences_append,
        inductionHypothesis behind]

theorem escapesStartSequences_flatMap_written {emissions : List Emission}
    (clean : ∀ emission ∈ emissions, emission.IsClean) :
    Text.EscapesStartSequences (emissions.flatMap (Emission.written .styled)) := by
  induction emissions with
  | nil => exact .of_plain List.not_mem_nil
  | cons emission others inductionHypothesis =>
      obtain ⟨first, behind⟩ := List.forall_mem_cons.mp clean
      exact first.escapesStartSequences.append (inductionHypothesis behind)

/-! ## Tokens -/

/-- The literal text of a token. A mark has none. -/
def Token.literal : Token → Text
  | .text literal => literal
  | _ => []

namespace RuleSet

/-- Whether every rule of a set has codes with fields only. -/
def HasFields (rules : RuleSet) : Prop :=
  rules.resetRule.HasFields ∧ ∀ name rule, rules.get? name = some rule → rule.HasFields

theorem hasFields_build {definitions : List (Text × Definition)} {settings : Settings}
    {rules : RuleSet} (built : build definitions settings = .ok rules) :
    rules.HasFields := by
  have reset : rules.resetRule.HasFields := by
    rcases resetRule_build built with same | ⟨definition, _, same⟩
    · rw [same]
      exact Definition.hasFields_compiled _ _
    · rw [same]
      exact Definition.hasFields_compiled _ _
  refine ⟨reset, ?_⟩
  intro name rule found
  rcases get?_build built found with rfl | ⟨definition, _, rfl⟩
  · exact reset
  · exact Definition.hasFields_compiled _ _

/-- Without styling a token writes its literal text. -/
theorem plain_step (rules : RuleSet) (stack : OpenRules) (token : Token) :
    (rules.step stack token).2.flatMap (Emission.written .plain) = token.literal := by
  cases token with
  | text literal => simp [step, Emission.written, Token.literal]
  | opening name =>
      cases found : rules.get? name with
      | none => simp [step, found, Token.literal]
      | some rule => simp [step, found, Emission.written, Token.literal]
  | closing =>
      cases stack with
      | nil => rfl
      | cons rule outer => simp [step, Emission.written, Token.literal]
  | reset => rfl

theorem flatMap_written_plain (rules : RuleSet) (stack : OpenRules) (tokens : List Token) :
    (rules.emissions stack tokens).flatMap (Emission.written .plain) =
      tokens.flatMap Token.literal := by
  induction tokens generalizing stack with
  | nil => rfl
  | cons token rest inductionHypothesis =>
      rw [emissions, List.flatMap_append, plain_step, inductionHypothesis, List.flatMap_cons]

/-- A token without escape characters keeps to rules whose codes have fields,
and what it writes is clean. -/
theorem clean_step {rules : RuleSet} (fields : rules.HasFields) {stack : OpenRules}
    (stacked : ∀ rule ∈ stack, CompiledRule.HasFields rule) {token : Token}
    (plain : '\x1b' ∉ token.literal) :
    (∀ rule ∈ (rules.step stack token).1, CompiledRule.HasFields rule) ∧
      ∀ emission ∈ (rules.step stack token).2, emission.IsClean := by
  cases token with
  | text literal =>
      refine ⟨stacked, ?_⟩
      intro emission member
      rw [List.mem_singleton.mp member]
      exact plain
  | opening name =>
      cases found : rules.get? name with
      | none =>
          simp only [step, found]
          exact ⟨stacked, by simp⟩
      | some rule =>
          simp only [step, found]
          have known := fields.2 name rule found
          refine ⟨List.forall_mem_cons.mpr ⟨known, stacked⟩, ?_⟩
          intro emission member
          rw [List.mem_singleton.mp member]
          exact known .inside
  | closing =>
      cases stack with
      | nil => exact ⟨stacked, by simp [step]⟩
      | cons rule outer =>
          obtain ⟨closed, enclosing⟩ := List.forall_mem_cons.mp stacked
          refine ⟨enclosing, ?_⟩
          intro emission member
          rcases List.mem_cons.mp member with rfl | reopened
          · exact closed .after
          · obtain ⟨other, listed, rfl⟩ := List.mem_map.mp reopened
            exact enclosing other (List.mem_reverse.mp listed) .inside
  | reset =>
      refine ⟨by simp [step], ?_⟩
      intro emission member
      rw [List.mem_singleton.mp member]
      exact fields.1 .after

/-- What is written for tokens without escape characters is clean. -/
theorem clean_emissions {rules : RuleSet} (fields : rules.HasFields) {stack : OpenRules}
    (stacked : ∀ rule ∈ stack, CompiledRule.HasFields rule) {tokens : List Token}
    (plain : ∀ token ∈ tokens, '\x1b' ∉ token.literal) :
    ∀ emission ∈ rules.emissions stack tokens, emission.IsClean := by
  induction tokens generalizing stack with
  | nil => simp [emissions]
  | cons token rest inductionHypothesis =>
      obtain ⟨first, behind⟩ := List.forall_mem_cons.mp plain
      obtain ⟨next, written⟩ := clean_step fields stacked first
      rw [emissions, List.forall_mem_append]
      exact ⟨written, inductionHypothesis next behind⟩

/-- The literal text of the tokens of a text comes from the text. -/
theorem mem_of_mem_scan {rules : RuleSet} {text : Text} {token : Token}
    (member : token ∈ rules.scan text) {character : Char}
    (inside : character ∈ token.literal) :
    character ∈ text := by
  have written : (rules.scan text).flatMap (Token.written rules.settings.symbols) = text := by
    apply (rules.markers.cuts_divide text).flatMap_written
    intro marker known
    exact MarkerSet.written_of_mem_build known
  rw [← written, List.mem_flatMap]
  refine ⟨token, member, ?_⟩
  cases token with
  | text literal => exact inside
  | opening name => cases inside
  | closing => cases inside
  | reset => cases inside

/-- Rendering tokens without escape characters in both ways. -/
theorem render_of_plain {rules : RuleSet} (fields : rules.HasFields) {tokens : List Token}
    (plain : ∀ token ∈ tokens, '\x1b' ∉ token.literal) :
    Text.eraseSequences (rules.render .styled tokens) = rules.render .plain tokens ∧
      (rules.render .styled tokens).EscapesStartSequences := by
  have clean : ∀ emission ∈ rules.emissions [] tokens, emission.IsClean :=
    clean_emissions fields (by simp) plain
  exact ⟨eraseSequences_flatMap_written clean, escapesStartSequences_flatMap_written clean⟩

/-- Styled and plain output differ by control sequences only: to delete these
from what is written for tokens without escape characters gives what is written
plainly, the literal text of the tokens. Every escape character in the styled
output starts a control sequence that has parameters. -/
theorem styled_without_sequences_is_plain {definitions : List (Text × Definition)}
    {settings : Settings} {rules : RuleSet}
    (built : build definitions settings = .ok rules) :
    (∀ tokens, (∀ literal, .text literal ∈ tokens → '\x1b' ∉ literal) →
      Text.eraseSequences (rules.render .styled tokens) = rules.render .plain tokens ∧
      rules.render .plain tokens = tokens.flatMap Token.literal ∧
      (rules.render .styled tokens).EscapesStartSequences) ∧
    ∀ text, '\x1b' ∉ text →
      Text.eraseSequences (rules.apply text) = rules.strip text ∧
      (rules.apply text).EscapesStartSequences := by
  have fields := hasFields_build built
  constructor
  · intro tokens plain
    have plainTokens : ∀ token ∈ tokens, '\x1b' ∉ token.literal := by
      intro token member
      cases token with
      | text literal => exact plain literal member
      | opening name => exact List.not_mem_nil
      | closing => exact List.not_mem_nil
      | reset => exact List.not_mem_nil
    obtain ⟨erased, escapes⟩ := render_of_plain fields plainTokens
    exact ⟨erased, flatMap_written_plain rules [] tokens, escapes⟩
  · intro text plain
    apply render_of_plain fields
    intro token member escape
    exact plain (mem_of_mem_scan member escape)

/-- Rules that write compound codes, in and out of the rule of the reset
symbol. -/
def colourfulDefinitions : List (Text × Definition) :=
  [("note".toList, { fields := { fg := some (.rgb 255 10 0), enable := [.bold] } }),
    (resetName, { after := some { bg := some (.indexed 208) } })]

/-- Literal text that looks like the end of a control sequence stays. -/
theorem brackets_survive_erasure :
    ∃ rules, build colourfulDefinitions {} = .ok rules ∧
      '\x1b' ∉ "\x7b%note[1m%\x7d;5m%@".toList ∧
      Text.eraseSequences (rules.apply "\x7b%note[1m%\x7d;5m%@".toList) =
        rules.strip "\x7b%note[1m%\x7d;5m%@".toList ∧
      rules.strip "\x7b%note[1m%\x7d;5m%@".toList = "[1m;5m".toList := by
  obtain ⟨rules, built⟩ : ∃ rules, build colourfulDefinitions {} = .ok rules := ⟨_, rfl⟩
  have plain : '\x1b' ∉ "\x7b%note[1m%\x7d;5m%@".toList := by decide
  refine ⟨rules, built, plain, ?_, ?_⟩
  · exact ((styled_without_sequences_is_plain built).2 _ plain).1
  · cases built
    decide +kernel

end RuleSet

end TerminalMarkup
