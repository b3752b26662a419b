import TerminalMarkup.Proofs.RuleSet.Construction
import TerminalMarkup.Proofs.Style.Override

/-!
Contract: when the closing part that an author gives wins over the baseline.

Under every policy but keep the authored part is merged over a baseline, and
what the author gives should win. A colour and a switch that the author gives
do (`authored_after_holds`). A reset wins only on the condition that the
baseline does not set the same component: the merge leaves the colour or the
switch of the baseline beside the reset, resets are written first, and so the
baseline outlasts the reset (`baseline_outlasts_authored_reset`). An attribute
that the author switches off, in contrast, is taken out of those that the
baseline switches on.
-/

set_option autoImplicit false

namespace TerminalMarkup

namespace Definition

/-- The part over which a policy merges the authored part, if it merges at
all. -/
def baseline? (definition : Definition) : Policy → Option Part
  | .auto => some definition.insidePart.undoing
  | .reset => some { reset := Targets.everything }
  | .keep => none
  | .override baseline => some baseline

theorem closingPart_of_baseline {definition : Definition} {policy : Policy}
    {baseline : Part} (based : definition.baseline? policy = some baseline) :
    definition.closingPart policy = definition.explicitAfter.override baseline := by
  cases policy with
  | auto => rw [← Option.some.inj based]; rfl
  | reset => rw [← Option.some.inj based]; rfl
  | keep => cases based
  | override given => rw [← Option.some.inj based]; rfl

end Definition

/-! ## The terminal behind the merged part -/

namespace Part

variable {authored baseline : Part} {layer : Layer} {style : Attribute}

/-- A colour that the author gives is the one that is left. -/
theorem color_run_override_of_authored {color : Color}
    (given : authored.color layer = some color) (opened : Part) (terminal : Terminal) :
    (terminal.run ((authored.override baseline).codes opened)).color layer = some color := by
  have merged : (authored.override baseline).color layer = some color := by
    rw [color_override, given]
    rfl
  have acts : (authored.override baseline).ActsOnLayer layer := .inl (by rw [merged]; rfl)
  rw [color_run_codes, if_pos acts, merged]

/-- A layer that the author resets and does not keep has its default colour,
unless one of the two parts sets its colour. -/
theorem color_run_override_of_reset
    (unset : authored.color layer = none) (bare : baseline.color layer = none)
    (resets : authored.reset.expand.layer layer = true)
    (kept : authored.keep.expand.layer layer = false)
    (opened : Part) (terminal : Terminal) :
    (terminal.run ((authored.override baseline).codes opened)).color layer = none := by
  have merged : (authored.override baseline).color layer = none := by
    rw [color_override, unset, bare]
    rfl
  have reset : (authored.override baseline).reset.layer layer = true := by
    rw [reset_layer_override, resets, kept]
    simp
  have acts : (authored.override baseline).ActsOnLayer layer := .inr (.inl reset)
  rw [color_run_codes, if_pos acts, merged]

theorem isOn_run_override_of_enabled (enabled : style ∈ authored.enable)
    (disabled : style ∉ authored.disable) (opened : Part) (terminal : Terminal) :
    (terminal.run ((authored.override baseline).codes opened)).isOn style = true := by
  have merged : style ∈ (authored.override baseline).enable :=
    mem_enable_override_of_authored enabled disabled
  rw [isOn_run_codes, if_pos merged]

theorem isOn_run_override_of_disabled (disabled : style ∈ authored.disable)
    (enabled : style ∉ authored.enable) (opened : Part) (terminal : Terminal) :
    (terminal.run ((authored.override baseline).codes opened)).isOn style = false := by
  have off : style ∈ (authored.override baseline).disable :=
    mem_disable_override.mpr ⟨enabled, .inl disabled⟩
  have clears : (authored.override baseline).ClearsStyle opened style :=
    .inr (.inr (.inr off))
  rw [isOn_run_codes, if_neg (not_mem_enable_override_of_authored disabled), if_pos clears]

/-- An attribute that the author resets is off, unless one of the two parts
switches it on. -/
theorem isOn_run_override_of_reset (resets : style ∈ authored.resetAttributes)
    (enabled : style ∉ authored.enable) (bare : style ∉ baseline.enable)
    (opened : Part) (terminal : Terminal) :
    (terminal.run ((authored.override baseline).codes opened)).isOn style = false := by
  have absent : style ∉ (authored.override baseline).enable := by
    intro on
    rcases (mem_enable_override.mp on).1 with inherited | given
    · exact bare inherited
    · exact enabled given
  have clears : (authored.override baseline).ClearsStyle opened style :=
    .inr (.inr (.inl (mem_resetAttributes_override.mpr (.inr resets))))
  rw [isOn_run_codes, if_neg absent, if_pos clears]

end Part

/-! ## Authored entries and the baseline -/

namespace Definition

/-- The condition under which an authored part wins over the baseline. A valid
rule closes with the colours and switches that its author gives, whatever the
terminal shows before. A reset that the author gives holds if the baseline of
the policy does not set the same layer or switch the same attribute on. -/
theorem authored_after_holds {definition : Definition} {authored baseline : Part}
    {policy : Policy} (valid : definition.isValid)
    (given : definition.after = some authored)
    (based : definition.baseline? policy = some baseline) (name : Text) :
    ∃ rule, definition.compile name policy = .ok rule ∧ ∀ terminal : Terminal,
      (∀ layer color, authored.color layer = some color →
        (terminal.run rule.after).color layer = some color) ∧
      (∀ layer, authored.color layer = none → authored.reset.expand.layer layer →
        ¬ authored.keep.expand.layer layer → baseline.color layer = none →
          (terminal.run rule.after).color layer = none) ∧
      (∀ style ∈ authored.enable, style ∉ authored.disable →
        (terminal.run rule.after).isOn style = true) ∧
      (∀ style ∈ authored.disable, style ∉ authored.enable →
        (terminal.run rule.after).isOn style = false) ∧
      (∀ style ∈ authored.resetAttributes, style ∉ authored.enable →
        style ∉ baseline.enable → (terminal.run rule.after).isOn style = false) := by
  have compiled := (definition.compile_eq_ok_iff name policy _).mpr ⟨valid, rfl⟩
  have explicit : definition.explicitAfter = authored := by
    rw [explicitAfter, given]
    rfl
  have closing : (definition.compiled policy).after =
      (authored.override baseline).codes definition.insidePart := by
    rw [Definition.compiled, closingPart_of_baseline based, explicit]
  refine ⟨definition.compiled policy, compiled, ?_⟩
  intro terminal
  rw [closing]
  refine ⟨?_, ?_, ?_, ?_, ?_⟩
  · intro layer color set
    exact Part.color_run_override_of_authored set _ terminal
  · intro layer unset resets kept bare
    exact Part.color_run_override_of_reset unset bare resets (by simpa using kept) _ terminal
  · intro style enabled disabled
    exact Part.isOn_run_override_of_enabled enabled disabled _ terminal
  · intro style disabled enabled
    exact Part.isOn_run_override_of_disabled disabled enabled _ terminal
  · intro style resets enabled bare
    exact Part.isOn_run_override_of_reset resets enabled bare _ terminal

/-- A rule whose author gives every kind of entry in its closing part. -/
def authoredRule : Definition where
  fields := { fg := some (.base .green), enable := [.bold, .italic] }
  after := some
    { fg := some (.base .blue)
      enable := [.underline]
      disable := [.bold]
      reset := Targets.background
      resetAttributes := [.dim] }

/-- A baseline that goes against most of these entries. -/
def opposedBaseline : Part where
  fg := some (.base .red)
  enable := [.bold, .hidden]
  disable := [.underline]
  keep := Targets.everything

theorem authored_after_holds_over_opposed :
    authoredRule.isValid ∧ authoredRule.baseline? (.override opposedBaseline) =
        some opposedBaseline ∧
      ∃ rule, authoredRule.compile "r".toList (.override opposedBaseline) = .ok rule ∧
        ∀ terminal : Terminal,
          (terminal.run rule.after).color .foreground = some (.base .blue) ∧
          (terminal.run rule.after).color .background = none ∧
          (terminal.run rule.after).isOn .underline = true ∧
          (terminal.run rule.after).isOn .bold = false ∧
          (terminal.run rule.after).isOn .dim = false := by
  have valid : authoredRule.isValid := rfl
  have based : authoredRule.baseline? (.override opposedBaseline) = some opposedBaseline := rfl
  obtain ⟨rule, compiled, holds⟩ := authored_after_holds valid rfl based "r".toList
  refine ⟨valid, based, rule, compiled, ?_⟩
  intro terminal
  obtain ⟨colors, layers, enabled, disabled, reset⟩ := holds terminal
  exact ⟨colors .foreground _ rfl, layers .background rfl rfl (by decide) rfl,
    enabled .underline (by decide) (by decide), disabled .bold (by decide) (by decide),
    reset .dim (by decide) (by decide) (by decide)⟩

/-- Without that condition an authored reset is lost. Where the baseline sets
what the author resets, the layer gets the colour of the baseline, and the
attribute is switched off and on again. -/
theorem baseline_outlasts_authored_reset :
    let authored : Part := { reset := Targets.foreground, resetAttributes := [.bold] }
    let baseline : Part := { fg := some (.base .red), enable := [.bold] }
    let definition : Definition := { after := some authored }
    definition.isValid ∧ authored.fg = none ∧ authored.reset.expand.fg ∧
      ¬ authored.keep.expand.fg ∧ .bold ∈ authored.resetAttributes ∧
      .bold ∉ authored.enable ∧
      ∃ rule, definition.compile "r".toList (.override baseline) = .ok rule ∧
        (Terminal.initial.run rule.after).color .foreground = some (.base .red) ∧
        (Terminal.initial.run rule.after).isOn .bold = true := by
  refine ⟨rfl, rfl, rfl, by decide, by decide, by decide, _, rfl, ?_, ?_⟩
  · decide
  · decide

end Definition

end TerminalMarkup
