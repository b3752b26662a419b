import TerminalMarkup.Proofs.RuleSet.LastDefinition
import TerminalMarkup.Proofs.Rendering.Stripping
import Mathlib.Data.List.Infix

/-!
Contract: the delimiters that rendered text may still contain.

A delimiter of two characters, none of which a control sequence uses, can stand
in what is written in two ways only: within a stretch of literal text, or across
a place between two stretches. The first does not happen where every opening
symbol has the name of a rule behind it. For the second, two stretches of
literal text have to meet, and between them stood a mark that writes nothing
(`exists_silent_mark`): a closing mark with no rule open, or the mark of a rule
without codes.
-/

set_option autoImplicit false

namespace TerminalMarkup

/-! ## The characters of control sequences -/

/-- The characters of which control sequences consist. -/
def Text.isSequenceCharacter (character : Char) : Bool :=
  character == '\x1b' || character == '[' || character == 'm' || isParameter character

theorem isSequenceCharacter_of_mem_escapeSequence {codes : List Code} {character : Char}
    (member : character ∈ escapeSequence codes) :
    Text.isSequenceCharacter character := by
  obtain ⟨code, _, inside⟩ := List.mem_flatMap.mp member
  simp only [Code.sequence, List.mem_cons, List.mem_append, List.not_mem_nil, or_false] at inside
  rcases inside with rfl | rfl | parameter | rfl
  · rfl
  · rfl
  · simp [Text.isSequenceCharacter, Code.isParameter_of_mem_text parameter]
  · rfl

/-! ## What is written for tokens -/

namespace RuleSet

/-- The styled text of some tokens, beginning with some open rules. -/
def styledFrom (rules : RuleSet) (stack : OpenRules) (tokens : List Token) : Text :=
  (rules.emissions stack tokens).flatMap (Emission.written .styled)

/-- The styled text of one token. -/
def styledToken (rules : RuleSet) (stack : OpenRules) (token : Token) : Text :=
  (rules.step stack token).2.flatMap (Emission.written .styled)

theorem styledFrom_cons (rules : RuleSet) (stack : OpenRules) (token : Token)
    (rest : List Token) :
    rules.styledFrom stack (token :: rest) =
      rules.styledToken stack token ++ rules.styledFrom (rules.step stack token).1 rest := by
  rw [styledFrom, emissions, List.flatMap_append]
  rfl

theorem styledToken_text (rules : RuleSet) (stack : OpenRules) (literal : Text) :
    rules.styledToken stack (.text literal) = literal := by
  simp [styledToken, step, Emission.written]

/-- A mark writes control sequences only. -/
theorem isSequenceCharacter_of_mem_styledToken {rules : RuleSet} {stack : OpenRules}
    {token : Token} (marking : token.isText = false) {character : Char}
    (member : character ∈ rules.styledToken stack token) :
    Text.isSequenceCharacter character := by
  obtain ⟨emission, emitted, inside⟩ := List.mem_flatMap.mp member
  suffices codes : ∃ sequence, emission = .codes sequence by
    obtain ⟨sequence, rfl⟩ := codes
    exact isSequenceCharacter_of_mem_escapeSequence inside
  cases token with
  | text literal => cases marking
  | opening name =>
      cases found : rules.get? name with
      | none => simp [step, found] at emitted
      | some rule =>
          simp only [step, found, List.mem_singleton] at emitted
          exact ⟨_, emitted⟩
  | closing =>
      cases stack with
      | nil => simp [step] at emitted
      | cons rule outer =>
          simp only [step, List.mem_cons, List.mem_map] at emitted
          rcases emitted with rfl | ⟨enclosing, _, rfl⟩
          · exact ⟨_, rfl⟩
          · exact ⟨_, rfl⟩
  | reset =>
      simp only [step, List.mem_singleton] at emitted
      exact ⟨_, emitted⟩

/-- A token for which a character is written that control sequences do not use is
literal text. -/
theorem isText_of_mem_styledToken {rules : RuleSet} {stack : OpenRules} {token : Token}
    {character : Char} (plain : Text.isSequenceCharacter character = false)
    (member : character ∈ rules.styledToken stack token) :
    token.isText = true := by
  cases kind : token.isText with
  | true => rfl
  | false =>
      rw [isSequenceCharacter_of_mem_styledToken kind member] at plain
      cases plain

/-- A mark writes nothing if such a character is the next one that is written. -/
theorem styledToken_eq_nil_of_plain {rules : RuleSet} {stack : OpenRules} {mark : Token}
    (marking : mark.isText = false) {character : Char}
    (plain : Text.isSequenceCharacter character = false) {rest behind : Text}
    (written : rules.styledToken stack mark ++ rest = character :: behind) :
    rules.styledToken stack mark = [] := by
  cases silent : rules.styledToken stack mark with
  | nil => rfl
  | cons head others =>
      rw [silent, List.cons_append] at written
      obtain ⟨rfl, _⟩ := List.cons.inj written
      have textual := isText_of_mem_styledToken plain (silent ▸ List.mem_cons_self)
      rw [marking] at textual
      cases textual

/-! ## Pairs of characters -/

/-- Two neighbours in a text that is made of two parts stand in the first part,
across the cut or in the second part. -/
private theorem pair_cases {left right front back : Text} {first second : Char}
    (whole : left ++ right = front ++ first :: second :: back) :
    (∃ behind, left = front ++ first :: second :: behind) ∨
    (left = front ++ [first] ∧ right = second :: back) ∨
    ∃ between, front = left ++ between ∧ right = between ++ first :: second :: back := by
  rcases List.append_eq_append_iff.mp whole with ⟨between, same, rest⟩ | ⟨overlap, same, rest⟩
  · exact .inr (.inr ⟨between, same, rest⟩)
  · cases overlap with
    | nil => exact .inr (.inr ⟨[], by simpa using same.symm, rest.symm⟩)
    | cons head others =>
        obtain ⟨rfl, next⟩ := List.cons.inj rest
        cases others with
        | nil => exact .inr (.inl ⟨same, next.symm⟩)
        | cons other behind =>
            obtain ⟨rfl, _⟩ := List.cons.inj next
            exact .inl ⟨behind, same⟩

/-- Where no stretch of literal text contains a pair of characters and control
sequences use neither of them, the pair is written only across a mark that
writes nothing: the first character is the last one written before the mark. -/
theorem exists_silent_mark {rules : RuleSet} {first second : Char}
    (firstPlain : Text.isSequenceCharacter first = false)
    (secondPlain : Text.isSequenceCharacter second = false)
    {stack : OpenRules} {tokens : List Token}
    (alternate : tokens.IsChain fun earlier later => ¬ (earlier.isText ∧ later.isText))
    (free : ∀ literal, .text literal ∈ tokens → ¬ [first, second] <:+: literal)
    {front back : Text}
    (written : rules.styledFrom stack tokens = front ++ first :: second :: back) :
    ∃ before mark after, tokens = before ++ mark :: after ∧ mark.isText = false ∧
      rules.styledFrom stack before = front ++ [first] ∧
      rules.styledToken (rules.openAfter stack before) mark = [] := by
  induction tokens generalizing stack front with
  | nil => cases front <;> cases written
  | cons token rest inductionHypothesis =>
      rw [styledFrom_cons] at written
      rcases pair_cases written with ⟨behind, inside⟩ | ⟨here, next⟩ | ⟨between, rfl, later⟩
      · -- The pair is written for this token, which would have to be literal text.
        have textual : token.isText := isText_of_mem_styledToken firstPlain (by rw [inside]; simp)
        cases token with
        | text literal =>
            rw [styledToken_text] at inside
            exact absurd ⟨front, behind, by simpa using inside.symm⟩
              (free literal List.mem_cons_self)
        | opening name => cases textual
        | closing => cases textual
        | reset => cases textual
      · -- The pair begins at the end of this token, so that the next one is a mark.
        have textual : token.isText := isText_of_mem_styledToken firstPlain (by rw [here]; simp)
        cases rest with
        | nil => cases next
        | cons mark after =>
            have marking : mark.isText = false := by
              have apart := (List.isChain_cons_cons.mp alternate).1
              simpa [textual] using apart
            refine ⟨[token], mark, after, rfl, marking, ?_, ?_⟩
            · rw [styledFrom_cons, here]
              exact List.append_nil _
            · show rules.styledToken (rules.step stack token).1 mark = []
              rw [styledFrom_cons] at next
              exact styledToken_eq_nil_of_plain marking secondPlain next
      · obtain ⟨before, mark, after, rfl, marking, reached, silent⟩ :=
          inductionHypothesis alternate.tail
            (fun literal member => free literal (List.mem_cons_of_mem token member)) later
        refine ⟨token :: before, mark, after, rfl, marking, ?_, silent⟩
        rw [styledFrom_cons, reached, List.append_assoc]

/-! ## Delimiters in rendered text -/

/-- Whether the name of a rule stands behind every opening symbol in a text. -/
def NamesOpenings (rules : RuleSet) (text : Text) : Prop :=
  ∀ rest ∈ text.tails, rules.settings.symbols.opening <+: rest →
    ∃ name ∈ rules.names, rules.settings.symbols.opening ++ name <+: rest

instance (rules : RuleSet) (text : Text) : Decidable (rules.NamesOpenings text) := by
  unfold NamesOpenings
  infer_instance

/-- Whether every mark among some tokens writes something. -/
def marksWrite (rules : RuleSet) (stack : OpenRules) : List Token → Bool
  | [] => true
  | token :: rest =>
    (token.isText || rules.styledToken stack token ≠ []) &&
      rules.marksWrite (rules.step stack token).1 rest

theorem styledToken_ne_nil_of_marksWrite {rules : RuleSet} {stack : OpenRules}
    {before after : List Token} {mark : Token}
    (writes : rules.marksWrite stack (before ++ mark :: after)) (marking : mark.isText = false) :
    rules.styledToken (rules.openAfter stack before) mark ≠ [] := by
  induction before generalizing stack with
  | nil =>
      rw [List.nil_append, marksWrite, Bool.and_eq_true] at writes
      simpa [marking, openAfter] using writes.1
  | cons token rest inductionHypothesis =>
      rw [List.cons_append, marksWrite, Bool.and_eq_true] at writes
      exact inductionHypothesis writes.2

theorem render_append_of_silent {rules : RuleSet} {before : List Token} {mark : Token}
    (silent : rules.styledToken (rules.openAfter [] before) mark = []) :
    rules.render .styled (before ++ [mark]) = rules.render .styled before := by
  have last : rules.styledFrom (rules.openAfter [] before) [mark] = [] := by
    rw [styledFrom_cons, silent]
    rfl
  have whole : rules.render .styled (before ++ [mark]) =
      rules.render .styled before ++ rules.styledFrom (rules.openAfter [] before) [mark] := by
    simp only [render, styledFrom, emissions_append, List.flatMap_append]
  rw [whole, last, List.append_nil]

section DefaultSymbols

variable {definitions : List (Text × Definition)} {policy : Policy} {rules : RuleSet}
  {text : Text}

theorem get_default_ne_nil (role : SymbolRole) : ({} : Symbols).get role ≠ [] := by
  cases role <;> decide

/-- Wherever a delimiter stands in a text with named openings, a marker does. -/
theorem markedAt_delimiter (built : build definitions { policy } = .ok rules)
    (named : rules.NamesOpenings text) (role : SymbolRole) :
    MarkedAt rules.markers.markers (({} : Symbols).get role) text := by
  obtain ⟨settings, names⟩ := named_of_build built
  rw [NamesOpenings, settings] at named
  rw [markers, settings]
  cases role with
  | closing => exact .of_mem List.mem_cons_self (get_default_ne_nil .closing) text
  | reset =>
      exact .of_mem (List.mem_cons_of_mem _ List.mem_cons_self) (get_default_ne_nil .reset) text
  | opening =>
      intro place occurs
      obtain ⟨name, known, behind⟩ :=
        named (text.drop place) ((List.mem_tails _ _).mpr (List.drop_suffix place text)) occurs
      refine ⟨⟨({} : Symbols).opening ++ name, .opening name⟩, ?_, by simp, behind⟩
      simp only [MarkerSet.build, List.mem_cons, List.mem_map]
      refine .inr (.inr ⟨name, ?_, rfl⟩)
      rw [SortedNames.mem_ofList, List.mem_filter]
      exact ⟨known, by simpa using names name known⟩

theorem not_infix_literal (built : build definitions { policy } = .ok rules)
    (named : rules.NamesOpenings text) (role : SymbolRole) {literal : Text}
    (member : .text literal ∈ rules.scan text) :
    ¬ ({} : Symbols).get role <:+: literal := by
  obtain ⟨leads, remainder⟩ := rules.markers.not_infix_divide (get_default_ne_nil role) text
    (markedAt_delimiter built named role)
  rcases Division.mem_tokens_iff.mp member with ⟨piece, listed, lead | mark⟩ | last
  · rw [Token.text.inj (Token.mem_ofLiteral_iff.mp lead).2]
    exact leads piece listed
  · have textual := congrArg Token.isText mark
    rw [Mark.isText_token] at textual
    cases textual
  · rw [Token.text.inj (Token.mem_ofLiteral_iff.mp last).2]
    exact remainder

/-- Each default delimiter is a pair of characters that no control sequence
uses. -/
theorem exists_pair_of_delimiter (role : SymbolRole) :
    ∃ first second, ({} : Symbols).get role = [first, second] ∧
      Text.isSequenceCharacter first = false ∧ Text.isSequenceCharacter second = false := by
  cases role with
  | opening => exact ⟨'\x7b', '%', rfl, rfl, rfl⟩
  | closing => exact ⟨'%', '\x7d', rfl, rfl, rfl⟩
  | reset => exact ⟨'%', '@', rfl, rfl, rfl⟩

/-- Under the default symbols, and in a text with the name of a rule behind
every opening symbol, rendering leaves a delimiter only where a mark that writes
nothing stood between its two characters. If every mark writes something, no
delimiter is left. -/
theorem delimiters_remain_only_across_silent_marks
    (built : build definitions { policy } = .ok rules) (named : rules.NamesOpenings text) :
    (∀ role front back, rules.apply text = front ++ rules.settings.symbols.get role ++ back →
      ∃ before mark after, rules.scan text = before ++ mark :: after ∧ mark.isText = false ∧
        rules.render .styled before = front ++ (rules.settings.symbols.get role).take 1 ∧
        rules.render .styled (before ++ [mark]) = rules.render .styled before) ∧
    (rules.marksWrite [] (rules.scan text) →
      ∀ role, ¬ rules.settings.symbols.get role <:+: rules.apply text) := by
  have symbols : rules.settings.symbols = {} := by rw [(named_of_build built).1]
  have across : ∀ role front back,
      rules.apply text = front ++ ({} : Symbols).get role ++ back →
        ∃ before mark after, rules.scan text = before ++ mark :: after ∧ mark.isText = false ∧
          rules.styledFrom [] before = front ++ (({} : Symbols).get role).take 1 ∧
          rules.styledToken (rules.openAfter [] before) mark = [] := by
    intro role front back written
    obtain ⟨first, second, pair, firstPlain, secondPlain⟩ := exists_pair_of_delimiter role
    rw [pair, List.append_assoc] at written
    rw [pair]
    refine exists_silent_mark firstPlain secondPlain (Division.isChain_tokens _) ?_ written
    intro literal member
    rw [← pair]
    exact not_infix_literal built named role member
  rw [symbols]
  refine ⟨?_, ?_⟩
  · intro role front back written
    obtain ⟨before, mark, after, split, marking, reached, silent⟩ :=
      across role front back written
    exact ⟨before, mark, after, split, marking, reached, render_append_of_silent silent⟩
  · intro writes role remains
    obtain ⟨front, back, written⟩ := remains
    obtain ⟨before, mark, after, split, marking, _, silent⟩ :=
      across role front back written.symm
    rw [split] at writes
    exact styledToken_ne_nil_of_marksWrite writes marking silent

/-- Text around marks that would spell delimiters if the marks wrote nothing. -/
theorem split_delimiters_do_not_remain :
    ∃ rules, build colourfulDefinitions {} = .ok rules ∧
      rules.NamesOpenings "%\x7b%note\x7d%%\x7d@%%@\x7d".toList ∧
      rules.marksWrite [] (rules.scan "%\x7b%note\x7d%%\x7d@%%@\x7d".toList) ∧
      ∀ role, ¬ rules.settings.symbols.get role <:+:
        rules.apply "%\x7b%note\x7d%%\x7d@%%@\x7d".toList := by
  obtain ⟨rules, built⟩ : ∃ rules, build colourfulDefinitions {} = .ok rules := ⟨_, rfl⟩
  have named : rules.NamesOpenings "%\x7b%note\x7d%%\x7d@%%@\x7d".toList := by
    cases built
    decide +kernel
  have writes : rules.marksWrite [] (rules.scan "%\x7b%note\x7d%%\x7d@%%@\x7d".toList) := by
    cases built
    decide +kernel
  exact ⟨rules, built, named, writes,
    (delimiters_remain_only_across_silent_marks built named).2 writes⟩

/-- A closing mark with no rule open writes nothing, so that the text on its two
sides can spell a closing symbol anew. -/
theorem closing_symbol_remains_around_stray_mark :
    ∃ rules, build [] {} = .ok rules ∧ (∀ name ∈ rules.names, '\x1b' ∉ name) ∧
      rules.NamesOpenings "%%\x7d\x7d".toList ∧
      rules.settings.symbols.closing <:+: rules.apply "%%\x7d\x7d".toList := by
  refine ⟨_, rfl, ?_, ?_, ?_⟩
  · decide +kernel
  · decide +kernel
  · decide +kernel

end DefaultSymbols

end RuleSet

end TerminalMarkup
