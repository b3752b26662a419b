import TerminalMarkup.Proofs.RuleSet.Construction
import TerminalMarkup.Proofs.Text.ControlSequences

/-!
Contract: what is written for codes, and that it determines them.

The text of a code consists of parameter characters, so that its control
sequence ends in one place only. Its semicolons separate the decimal digits of
its fields. A code is regular if its fields determine it, which leaves out
compounds of one field and of none; the codes of compiled rules are regular. So
sequences of regular codes are written in different ways
(`sequences_determine_codes`).
-/

set_option autoImplicit false

namespace TerminalMarkup

namespace Code

/-! ## The characters of a code -/

theorem isParameter_of_mem_text {code : Code} {character : Char}
    (member : character ∈ code.text) :
    Text.isParameter character := by
  unfold text at member
  generalize code.fields = fields at member
  induction fields with
  | nil => simp at member
  | cons field others inductionHypothesis =>
      cases others with
      | nil => exact Text.isParameter_of_mem_ofNat (by simpa using member)
      | cons next rest =>
          simp only [List.map_cons, List.intercalate_cons_cons, List.mem_append,
            List.mem_singleton] at member inductionHypothesis
          rcases member with (digit | rfl) | behind
          · exact Text.isParameter_of_mem_ofNat digit
          · decide
          · exact inductionHypothesis behind

theorem text_ne_nil {code : Code} (nonempty : code.fields ≠ []) : code.text ≠ [] := by
  obtain ⟨field, others, same⟩ := List.exists_cons_of_ne_nil nonempty
  have digits : Text.ofNat field.toNat ≠ [] := Text.ofNat_ne_nil _
  unfold text
  rw [same]
  cases others with
  | nil => simpa using digits
  | cons next rest => simp [digits]

/-! ## Regular codes -/

/-- A single number, or a compound of at least two fields. A compound of one field
would be written like a single number. -/
def IsRegular : Code → Prop
  | single _ => True
  | compound fields => 2 ≤ fields.length

instance (code : Code) : Decidable code.IsRegular :=
  match code with
  | single _ => .isTrue trivial
  | compound fields => inferInstanceAs (Decidable (2 ≤ fields.length))

namespace IsRegular

variable {code first second : Code}

theorem ofColor (color : Color) (layer : Layer) : (Code.ofColor color layer).IsRegular := by
  cases color <;> simp [Code.ofColor, IsRegular]

theorem fields_ne_nil (regular : code.IsRegular) : code.fields ≠ [] := by
  cases code with
  | single value => exact List.cons_ne_nil value []
  | compound fields =>
      have length : 0 < fields.length := Nat.lt_of_lt_of_le Nat.two_pos regular
      exact List.ne_nil_of_length_pos length

/-- Regular codes of the same fields are the same: one field is a single number
and more fields are a compound. -/
theorem eq_of_fields (firstRegular : first.IsRegular) (secondRegular : second.IsRegular)
    (same : first.fields = second.fields) : first = second := by
  have lengths := congrArg List.length same
  cases first with
  | single value =>
      cases second with
      | single other => rw [List.singleton_inj.mp same]
      | compound others =>
          have length : 2 ≤ others.length := secondRegular
          simp only [fields, List.length_singleton] at lengths
          omega
  | compound front =>
      have length : 2 ≤ front.length := firstRegular
      cases second with
      | single other =>
          simp only [fields, List.length_singleton] at lengths
          omega
      | compound others => exact congrArg compound same

end IsRegular

/-! ## Reading codes back -/

/-- The semicolons of a code separate the digits of its fields. -/
theorem splitOn_text {code : Code} (nonempty : code.fields ≠ []) :
    code.text.splitOn ';' = code.fields.map fun field => Text.ofNat field.toNat := by
  apply List.splitOn_intercalate
  · intro digits member semicolon
    obtain ⟨field, _, rfl⟩ := List.mem_map.mp member
    exact absurd (Text.isDigit_of_mem_ofNat semicolon) (by decide)
  · simpa using nonempty

theorem fields_eq_of_text {code : Code} (nonempty : code.fields ≠ []) :
    (code.text.splitOn ';').map (fun digits => UInt8.ofNat (Text.digitsValue digits)) =
      code.fields := by
  rw [splitOn_text nonempty, List.map_map]
  simp [Function.comp_def]

theorem IsRegular.eq_of_text {first second : Code} (firstRegular : first.IsRegular)
    (secondRegular : second.IsRegular) (same : first.text = second.text) : first = second := by
  apply firstRegular.eq_of_fields secondRegular
  rw [← fields_eq_of_text firstRegular.fields_ne_nil, same,
    fields_eq_of_text secondRegular.fields_ne_nil]

/-- A regular code can be told from what stands behind its control sequence. -/
theorem IsRegular.eq_of_sequence_append {first second : Code} (firstRegular : first.IsRegular)
    (secondRegular : second.IsRegular) {front back : Text}
    (same : first.sequence ++ front = second.sequence ++ back) :
    first = second ∧ front = back := by
  obtain ⟨text, behind⟩ := Text.controlSequence_append_inj (fun _ => isParameter_of_mem_text)
    (fun _ => isParameter_of_mem_text) same
  exact ⟨firstRegular.eq_of_text secondRegular text, behind⟩

end Code

@[simp]
theorem escapeSequence_eq_nil_iff {codes : List Code} : escapeSequence codes = [] ↔ codes = [] := by
  cases codes with
  | nil => simp
  | cons code rest => simp [escapeSequence, Code.sequence]

/-- Lists of regular codes are written in different ways. -/
theorem eq_of_escapeSequence {first second : List Code}
    (firstRegular : ∀ code ∈ first, code.IsRegular)
    (secondRegular : ∀ code ∈ second, code.IsRegular)
    (same : escapeSequence first = escapeSequence second) : first = second := by
  induction first generalizing second with
  | nil => exact (escapeSequence_eq_nil_iff.mp same.symm).symm
  | cons code rest inductionHypothesis =>
      cases second with
      | nil => exact escapeSequence_eq_nil_iff.mp same
      | cons other others =>
          obtain ⟨regular, restRegular⟩ := List.forall_mem_cons.mp firstRegular
          obtain ⟨otherRegular, othersRegular⟩ := List.forall_mem_cons.mp secondRegular
          -- The first sequences end in the same place, so what follows is alike as well.
          obtain ⟨here, behind⟩ := regular.eq_of_sequence_append otherRegular same
          rw [here, inductionHypothesis restRegular othersRegular behind]

/-! ## Compiled rules -/

/-- Every code of a part is regular. -/
theorem Part.isRegular_of_mem_codes {part opened : Part} {code : Code}
    (member : code ∈ part.codes opened) :
    code.IsRegular := by
  have listed : code ∈ part.codeSequence opened := FirstSeen.mem_distinct.mp member
  simp only [codeSequence, List.mem_append, List.mem_ite_nil_right, List.mem_singleton,
    List.mem_map, Option.mem_toList, Option.map_eq_some_iff] at listed
  rcases listed with (((((((⟨_, rfl⟩ | ⟨_, rfl⟩) | ⟨_, rfl⟩) | ⟨_, style, _, rfl⟩) |
    ⟨style, _, rfl⟩) | ⟨style, _, rfl⟩) | ⟨style, _, rfl⟩) | ⟨color, _, rfl⟩) | ⟨color, _, rfl⟩
  -- Every code is a single number but those of colours.
  · trivial
  · trivial
  · trivial
  · trivial
  · trivial
  · trivial
  · trivial
  · exact .ofColor color .foreground
  · exact .ofColor color .background

/-- A rule that comes from a definition, as an ordinary rule under a policy or as
the rule of the reset symbol. -/
inductive CompiledRule.IsCompiled : CompiledRule → Prop where
  | ordinary {definition : Definition} {name : Text} {policy : Policy} {rule : CompiledRule}
      (compiled : definition.compile name policy = .ok rule) : IsCompiled rule
  | reset {definition : Definition} {name : Text} {rule : CompiledRule}
      (compiled : definition.compileReset name = .ok rule) : IsCompiled rule

theorem Definition.isRegular_of_mem_compiled {definition : Definition} {policy : Policy}
    {phase : Phase} {code : Code} (member : code ∈ (definition.compiled policy).codes phase) :
    code.IsRegular := by
  cases phase with
  | inside => exact Part.isRegular_of_mem_codes member
  | after => exact Part.isRegular_of_mem_codes member

namespace CompiledRule

theorem IsCompiled.exists_definition {rule : CompiledRule} (compiled : rule.IsCompiled) :
    ∃ (definition : Definition) (policy : Policy), rule = definition.compiled policy := by
  cases compiled with
  | ordinary compiled =>
      exact ⟨_, _, ((Definition.compile_eq_ok_iff _ _ _ rule).mp compiled).2⟩
  | reset compiled =>
      exact ⟨_, .keep, ((Definition.compile_eq_ok_iff _ _ .keep rule).mp compiled).2⟩

theorem IsCompiled.isRegular {rule : CompiledRule} (compiled : rule.IsCompiled) (phase : Phase) :
    ∀ code ∈ rule.codes phase, code.IsRegular := by
  obtain ⟨definition, policy, rfl⟩ := compiled.exists_definition
  exact fun code => Definition.isRegular_of_mem_compiled

theorem isSilent_iff (rule : CompiledRule) :
    rule.isSilent ↔ ∀ phase, rule.sequence phase = [] := by
  simp only [isSilent, Bool.and_eq_true, List.isEmpty_iff, sequence, escapeSequence_eq_nil_iff]
  constructor
  · rintro ⟨inside, after⟩ phase
    cases phase with
    | inside => exact inside
    | after => exact after
  · intro silent
    exact ⟨silent .inside, silent .after⟩

end CompiledRule

/-- What is written for codes determines them. Two lists of regular codes that
are written alike are equal. The codes of compiled rules are regular, so that two
compiled rules with the same sequence in a phase have the same codes in it, and a
rule has no codes if and only if both of its sequences are empty. -/
theorem sequences_determine_codes :
    (∀ first second : List Code, (∀ code ∈ first, code.IsRegular) →
      (∀ code ∈ second, code.IsRegular) → escapeSequence first = escapeSequence second →
        first = second) ∧
    (∀ rule : CompiledRule, rule.IsCompiled → ∀ phase, ∀ code ∈ rule.codes phase,
      code.IsRegular) ∧
    (∀ first second : CompiledRule, first.IsCompiled → second.IsCompiled → ∀ phase,
      first.sequence phase = second.sequence phase → first.codes phase = second.codes phase) ∧
    ∀ rule : CompiledRule, rule.isSilent ↔ ∀ phase, rule.sequence phase = [] := by
  refine ⟨?_, ?_, ?_, CompiledRule.isSilent_iff⟩
  · intro first second firstRegular secondRegular same
    exact eq_of_escapeSequence firstRegular secondRegular same
  · intro rule compiled
    exact compiled.isRegular
  · intro first second firstCompiled secondCompiled phase same
    exact eq_of_escapeSequence (firstCompiled.isRegular phase) (secondCompiled.isRegular phase) same

/-- A compound of one field is written like a single number. -/
example : escapeSequence [.compound [31]] = escapeSequence [.single 31] := by decide

namespace Definition

/-- A rule that the auto policy closes. -/
def undoneNote : Definition where
  fields := { fg := some (.rgb 255 10 0), enable := [.bold] }

/-- The same rule with a repetition and in an explicit inside part. -/
def listedNote : Definition where
  inside := some { fg := some (.rgb 255 10 0), enable := [.bold, .bold] }

/-- A baseline that undoes both rules entry by entry. -/
def listedBaseline : Part where
  reset := Targets.foreground
  resetAttributes := [.bold]

/-- Two rules that are given differently write the same sequences, and so they have
the same codes. -/
theorem differently_given_notes_agree :
    let undone := undoneNote.compiled .auto
    let listed := listedNote.compiled (.override listedBaseline)
    undone.IsCompiled ∧ listed.IsCompiled ∧ undone.definition ≠ listed.definition ∧
      (∀ phase, undone.sequence phase = listed.sequence phase) ∧
      (∀ phase, undone.codes phase = listed.codes phase) ∧
      (∀ code ∈ undone.after, code.IsRegular) ∧
      (∀ code ∈ [Code.single 39, .single 21], code.IsRegular) ∧
      escapeSequence undone.after = escapeSequence [.single 39, .single 21] ∧
      undone.after = [.single 39, .single 21] := by
  intro undone listed
  obtain ⟨lists, regular, rules, _⟩ := sequences_determine_codes
  have undoneCompiled : undone.IsCompiled := by
    have compiled : undoneNote.compile "note".toList .auto = .ok undone := rfl
    exact .ordinary compiled
  have listedCompiled : listed.IsCompiled := by
    have compiled : listedNote.compile "note".toList (.override listedBaseline) = .ok listed := rfl
    exact .ordinary compiled
  have same : ∀ phase, undone.sequence phase = listed.sequence phase := by
    intro phase
    cases phase <;> decide
  have closing := regular undone undoneCompiled .after
  have expected : ∀ code ∈ [Code.single 39, .single 21], code.IsRegular := by decide
  have written : escapeSequence undone.after = escapeSequence [.single 39, .single 21] := by decide
  exact ⟨undoneCompiled, listedCompiled, by decide, same,
    fun phase => rules undone listed undoneCompiled listedCompiled phase (same phase),
    closing, expected, written, lists _ _ closing expected written⟩

end Definition

end TerminalMarkup
