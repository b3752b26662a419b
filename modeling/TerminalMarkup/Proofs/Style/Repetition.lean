import TerminalMarkup.Proofs.Style.CodeOrder
import TerminalMarkup.Proofs.Style.Override

/-!
Contract: repetitions in the lists of a definition.

Edits never list an attribute twice, but a definition or a policy can be given
with lists that do. `withoutRepetition` keeps the first place of each attribute
in each list. Every stage of compilation goes along with it: undoing an opened
part, merging an authored part over a baseline and choosing the closing part
give the same part as before but for repetitions of its own, and the codes of a
part have none. So repetitions change nothing in a compiled rule but the
definition that it keeps (`compile_alike_without_repetition`).
-/

set_option autoImplicit false

namespace TerminalMarkup

namespace Part

/-- A part whose lists name each attribute once, where they first named it. -/
def withoutRepetition (part : Part) : Part :=
  { part with
    enable := FirstSeen.distinct part.enable
    disable := FirstSeen.distinct part.disable
    resetAttributes := FirstSeen.distinct part.resetAttributes }

theorem isEmpty_withoutRepetition (part : Part) :
    part.withoutRepetition.isEmpty = part.isEmpty := by
  obtain ⟨fg, bg, enable, disable, reset, resetAttributes, keep⟩ := part
  simp [isEmpty, empty, withoutRepetition, FirstSeen.distinct_eq_nil_iff]

/-! ## Codes -/

variable (part opened authored baseline : Part)

theorem styleGroup_withoutRepetition :
    opened.withoutRepetition.styleGroup = FirstSeen.distinct opened.styleGroup := by
  show (if FirstSeen.distinct opened.enable = [] then Attribute.all
    else FirstSeen.distinct opened.enable) = _
  unfold styleGroup
  by_cases bare : opened.enable = []
  · rw [if_pos (FirstSeen.distinct_eq_nil_iff.mpr bare), if_pos bare]
    decide
  · rw [if_neg (mt FirstSeen.distinct_eq_nil_iff.mp bare), if_neg bare]

/-- The attributes that a part switches off are the same ones, in the order in
which they are first named. -/
theorem distinct_goingOff_withoutRepetition :
    FirstSeen.distinct (part.withoutRepetition.goingOff opened.withoutRepetition) =
      FirstSeen.distinct (part.goingOff opened) := by
  have spared : opened.withoutRepetition.styleGroup.filter (· ∉ part.withoutRepetition.enable) =
      FirstSeen.distinct (opened.styleGroup.filter (· ∉ part.enable)) := by
    rw [styleGroup_withoutRepetition]
    simp only [withoutRepetition, FirstSeen.mem_distinct, FirstSeen.distinct_filter]
  -- Without the style group the opened part does not matter.
  by_cases group : part.reset.style
  · have sameGroup : part.withoutRepetition.reset.style := group
    rw [goingOff_of_style sameGroup, goingOff_of_style group, spared]
    simp only [withoutRepetition, FirstSeen.distinct_append, FirstSeen.distinct_distinct,
      FirstSeen.addAll_distinct]
  · have sameGroup : ¬ part.withoutRepetition.reset.style := group
    rw [goingOff_of_no_style sameGroup, goingOff_of_no_style group]
    exact FirstSeen.distinct_append_distinct part.resetAttributes part.disable

/-- A part has the same codes without its repetitions and those of the opened
part. -/
theorem codes_withoutRepetition :
    part.withoutRepetition.codes opened.withoutRepetition = part.codes opened := by
  have on : FirstSeen.distinct part.withoutRepetition.enable = FirstSeen.distinct part.enable :=
    FirstSeen.distinct_distinct part.enable
  rw [codes_eq_blocks, codes_eq_blocks, distinct_goingOff_withoutRepetition, on]
  rfl

/-! ## Closing parts -/

theorem disable_override_withoutRepetition :
    (authored.withoutRepetition.override baseline.withoutRepetition).disable =
      (authored.override baseline).disable := by
  by_cases kept : authored.keep.expand.style
  · have sameKept : authored.withoutRepetition.keep.expand.style := kept
    rw [disable_override_of_kept sameKept, disable_override_of_kept kept]
    exact FirstSeen.distinct_filter_not_mem [] authored.disable authored.enable
  · have sameKept : ¬ authored.withoutRepetition.keep.expand.style := kept
    rw [disable_override_of_not_kept sameKept, disable_override_of_not_kept kept]
    exact FirstSeen.distinct_filter_not_mem baseline.disable authored.disable authored.enable

theorem enable_override_withoutRepetition :
    (authored.withoutRepetition.override baseline.withoutRepetition).enable =
      (authored.override baseline).enable := by
  rw [enable_override, enable_override, disable_override_withoutRepetition]
  congr 1
  exact FirstSeen.distinct_filter_not_mem baseline.enable authored.enable authored.disable

theorem reset_override_withoutRepetition :
    (authored.withoutRepetition.override baseline.withoutRepetition).reset =
      (authored.override baseline).reset := by
  by_cases disables : authored.disable = []
  · simp [override, withoutRepetition, disables, FirstSeen.distinct_eq_nil_iff]
  · simp [override, withoutRepetition, disables, FirstSeen.distinct_eq_nil_iff]

theorem resetAttributes_override_withoutRepetition :
    (authored.withoutRepetition.override baseline.withoutRepetition).resetAttributes =
      FirstSeen.distinct (authored.override baseline).resetAttributes := by
  rw [resetAttributes_override, resetAttributes_override, FirstSeen.distinct_addAll]
  exact FirstSeen.addAll_distinct _ _

/-- Repetitions can be removed before or after an authored part is merged over a
baseline. Only the attributes that the baseline resets can have any that are
left to the merged part. -/
theorem override_withoutRepetition :
    authored.withoutRepetition.override baseline.withoutRepetition =
      (authored.override baseline).withoutRepetition := by
  -- The merged part switches no attribute twice, whatever the two parts list.
  have enable : FirstSeen.distinct (authored.override baseline).enable =
      (authored.override baseline).enable :=
    FirstSeen.addAll_of_nodup (nodup_enable_override authored baseline)
  have disable : FirstSeen.distinct (authored.override baseline).disable =
      (authored.override baseline).disable :=
    FirstSeen.addAll_of_nodup (nodup_disable_override authored baseline)
  have merged : (authored.override baseline).withoutRepetition =
      { authored.override baseline with
        resetAttributes := FirstSeen.distinct (authored.override baseline).resetAttributes } := by
    rw [withoutRepetition, enable, disable]
  rw [merged, Part.mk.injEq]
  exact ⟨rfl, rfl, enable_override_withoutRepetition authored baseline,
    disable_override_withoutRepetition authored baseline,
    reset_override_withoutRepetition authored baseline,
    resetAttributes_override_withoutRepetition authored baseline, rfl⟩

/-- What a baseline resets twice is twice in the merged part, and once in its
codes. -/
example :
    let baseline : Part := { resetAttributes := [.bold, .italic, .bold], disable := [.dim, .dim] }
    let merged := Part.empty.override baseline
    merged.resetAttributes = [.bold, .italic, .bold] ∧ merged.disable = [.dim] ∧
      merged.codes Part.empty = [.single 21, .single 23, .single 22] := by
  decide

theorem undoing_withoutRepetition :
    opened.withoutRepetition.undoing = opened.undoing.withoutRepetition := by
  simp [undoing, withoutRepetition, FirstSeen.distinct_eq_nil_iff]

end Part

/-! ## Definitions -/

/-- A policy whose baseline, if it has one, names each attribute once in each
list. -/
def Policy.withoutRepetition : Policy → Policy
  | .override baseline => .override baseline.withoutRepetition
  | policy => policy

/-- Two results of a compilation agree if both are refused for the same cause, or
if both are rules with the same codes and the same sequences. -/
inductive CompileAlike : Except RuleError CompiledRule → Except RuleError CompiledRule → Prop where
  | refused (cause : RuleError) : CompileAlike (.error cause) (.error cause)
  | compiled {first second : CompiledRule}
      (codes : ∀ phase, first.codes phase = second.codes phase)
      (sequences : ∀ phase, first.sequence phase = second.sequence phase) :
      CompileAlike (.ok first) (.ok second)

namespace Definition

/-- A definition whose parts name each attribute once in each list. -/
def withoutRepetition (definition : Definition) : Definition where
  fields := definition.fields.withoutRepetition
  inside := definition.inside.map Part.withoutRepetition
  after := definition.after.map Part.withoutRepetition

variable (definition : Definition) (policy : Policy)

theorem isValid_withoutRepetition :
    definition.withoutRepetition.isValid = definition.isValid := by
  simp [isValid, withoutRepetition, Part.isEmpty_withoutRepetition]

theorem insidePart_withoutRepetition :
    definition.withoutRepetition.insidePart = definition.insidePart.withoutRepetition := by
  exact Option.getD_map Part.withoutRepetition definition.fields definition.inside

theorem explicitAfter_withoutRepetition :
    definition.withoutRepetition.explicitAfter = definition.explicitAfter.withoutRepetition := by
  exact Option.getD_map Part.withoutRepetition Part.empty definition.after

theorem closingPart_withoutRepetition :
    definition.withoutRepetition.closingPart policy.withoutRepetition =
      (definition.closingPart policy).withoutRepetition := by
  cases policy with
  | auto =>
      show definition.withoutRepetition.insidePart.autoAfter _ = _
      rw [insidePart_withoutRepetition, explicitAfter_withoutRepetition, Part.autoAfter,
        Part.undoing_withoutRepetition, Part.override_withoutRepetition]
      rfl
  | reset =>
      have everything : ({ reset := Targets.everything } : Part).withoutRepetition =
          { reset := Targets.everything } := rfl
      show definition.withoutRepetition.explicitAfter.override { reset := Targets.everything } = _
      rw [explicitAfter_withoutRepetition, ← everything, Part.override_withoutRepetition]
      rfl
  | keep => exact definition.explicitAfter_withoutRepetition
  | override baseline =>
      show definition.withoutRepetition.explicitAfter.override baseline.withoutRepetition = _
      rw [explicitAfter_withoutRepetition, Part.override_withoutRepetition]
      rfl

/-- A rule keeps its definition as it was given. Nothing else in it depends on
repetitions. -/
theorem compiled_withoutRepetition :
    definition.withoutRepetition.compiled policy.withoutRepetition =
      { definition.compiled policy with definition := definition.withoutRepetition } := by
  rw [compiled, closingPart_withoutRepetition, insidePart_withoutRepetition,
    Part.codes_withoutRepetition, Part.codes_withoutRepetition]
  rfl

theorem compile_alike_of_policy (name : Text) :
    CompileAlike (definition.compile name policy)
      (definition.withoutRepetition.compile name policy.withoutRepetition) := by
  have sameRule := compiled_withoutRepetition definition policy
  have codes : ∀ phase, (definition.compiled policy).codes phase =
      (definition.withoutRepetition.compiled policy.withoutRepetition).codes phase := by
    intro phase
    rw [sameRule]
    cases phase <;> rfl
  unfold compile validate
  rw [isValid_withoutRepetition]
  cases definition.isValid with
  | false => exact .refused _
  | true => exact .compiled codes fun phase => congrArg escapeSequence (codes phase)

/-- Repetitions in the lists of a definition and of the baseline of a policy change
nothing in what is compiled, for an ordinary rule and for the rule of the reset
symbol: without them the compilation is refused for the same cause, or it gives
the same codes and the same sequences. -/
theorem compile_alike_without_repetition (name : Text) :
    CompileAlike (definition.compile name policy)
        (definition.withoutRepetition.compile name policy.withoutRepetition) ∧
      CompileAlike (definition.compileReset name)
        (definition.withoutRepetition.compileReset name) := by
  exact ⟨definition.compile_alike_of_policy policy name,
    definition.compile_alike_of_policy .keep name⟩

end Definition

end TerminalMarkup
