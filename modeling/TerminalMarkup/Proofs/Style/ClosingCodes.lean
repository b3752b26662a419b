import TerminalMarkup.Proofs.Style.AuthoredAfter
import TerminalMarkup.Proofs.Style.CodeOrder

/-!
Contract: which codes a rule closes with.

No code of a part is of two kinds, so a code of one kind is written exactly if
the part asks for it (`mem_codes`). With the fields of the merged part
(`Proofs.Style.Override`) this gives the closing codes of a rule: what a kept
target shuts out under every policy that merges, and under the auto policy each
code that is written. The order of the codes is owned by
`Proofs.Style.CodeOrder`.
-/

set_option autoImplicit false

namespace TerminalMarkup

/-! ## The codes of each kind -/

theorem Code.RankedWithin.not_mem {low high : Nat} {codes : List Code} {code : Code}
    (ranked : Code.RankedWithin low high codes)
    (outside : code.rank < low ∨ high < code.rank) : code ∉ codes := by
  intro member
  have := ranked code member
  omega

theorem Code.defaultColor_injective {first second : Layer}
    (same : Code.defaultColor first = Code.defaultColor second) : first = second := by
  cases first <;> cases second <;> first | rfl | cases same

theorem Targets.layer_expand (targets : Targets) (layer : Layer) :
    targets.expand.layer layer = (targets.layer layer || targets.all) := by
  cases layer <;> rfl

namespace Part

variable {part opened : Part} {style : Attribute}

theorem mem_codes {code : Code} :
    code ∈ part.codes opened ↔
      code ∈ part.resets ∨ code ∈ (part.goingOff opened).map (Code.ofAttribute · .off) ∨
        code ∈ part.enable.map (Code.ofAttribute · .on) ∨ code ∈ part.colors := by
  rw [codes, FirstSeen.mem_distinct, codeSequence_eq_blocks]
  simp only [List.mem_append]

theorem mem_goingOff :
    style ∈ part.goingOff opened ↔
      (part.reset.style ∧ style ∈ opened.styleGroup ∧ style ∉ part.enable) ∨
        style ∈ part.resetAttributes ∨ style ∈ part.disable := by
  by_cases group : part.reset.style <;> simp [goingOff, group]

/-- A code that resets is written if the part has it among its resets. -/
theorem mem_codes_of_rank_le_one {code : Code} (low : code.rank ≤ 1) :
    code ∈ part.codes opened ↔ code ∈ part.resets := by
  have behind := (part.rankedWithin_off_on_colors (part.goingOff opened) part.enable).not_mem
    (.inl (Nat.lt_succ_of_le low))
  simp only [List.mem_append] at behind
  simp only [mem_codes, behind, or_false]

theorem mem_resets {code : Code} :
    code ∈ part.resets ↔
      (part.reset.all ∧ code = Code.resetAll) ∨
        ∃ layer, part.reset.layer layer ∧ code = Code.defaultColor layer := by
  simp only [resets, List.mem_append, List.mem_ite_nil_right, List.mem_singleton, or_assoc]
  constructor
  · rintro (all | fg | bg)
    · exact .inl all
    · exact .inr ⟨.foreground, fg⟩
    · exact .inr ⟨.background, bg⟩
  · rintro (all | ⟨layer, reset⟩)
    · exact .inl all
    · cases layer with
      | foreground => exact .inr (.inl reset)
      | background => exact .inr (.inr reset)

theorem resetAll_mem_codes : Code.resetAll ∈ part.codes opened ↔ part.reset.all := by
  rw [mem_codes_of_rank_le_one (by decide), mem_resets]
  constructor
  · rintro (⟨all, _⟩ | ⟨layer, _, same⟩)
    · exact all
    · cases layer <;> cases same
  · intro all
    exact .inl ⟨all, rfl⟩

theorem defaultColor_mem_codes {layer : Layer} :
    Code.defaultColor layer ∈ part.codes opened ↔ part.reset.layer layer := by
  rw [mem_codes_of_rank_le_one (by simp), mem_resets]
  constructor
  · rintro (⟨_, same⟩ | ⟨other, reset, same⟩)
    · cases layer <;> cases same
    · rw [Code.defaultColor_injective same]
      exact reset
  · intro reset
    exact .inr ⟨layer, reset, rfl⟩

theorem ofAttribute_mem_map {switch : Switch} {styles : List Attribute} :
    Code.ofAttribute style switch ∈ styles.map (Code.ofAttribute · switch) ↔
      style ∈ styles := by
  have injective : Function.Injective (Code.ofAttribute · switch) :=
    fun first second => Code.ofAttribute_injective switch first second
  exact List.mem_map_of_injective injective

theorem off_mem_codes :
    Code.ofAttribute style .off ∈ part.codes opened ↔ style ∈ part.goingOff opened := by
  have rank : (Code.ofAttribute style .off).rank = 2 := Code.rank_ofAttribute style .off
  have resets : Code.ofAttribute style .off ∉ part.resets :=
    part.rankedWithin_resets.not_mem (.inr (by omega))
  have behind : Code.ofAttribute style .off ∉
      part.enable.map (Code.ofAttribute · .on) ++ part.colors :=
    (part.rankedWithin_on_colors part.enable).not_mem (.inl (by omega))
  rw [List.mem_append, not_or] at behind
  simp only [mem_codes, resets, behind, ofAttribute_mem_map, false_or, or_false]

theorem on_mem_codes :
    Code.ofAttribute style .on ∈ part.codes opened ↔ style ∈ part.enable := by
  have rank : (Code.ofAttribute style .on).rank = 3 := Code.rank_ofAttribute style .on
  have resets : Code.ofAttribute style .on ∉ part.resets :=
    part.rankedWithin_resets.not_mem (.inr (by omega))
  have off : Code.ofAttribute style .on ∉
      (part.goingOff opened).map (Code.ofAttribute · .off) :=
    (rankedWithin_switched (part.goingOff opened) .off).not_mem (.inr (by rw [rank]; decide))
  have colors : Code.ofAttribute style .on ∉ part.colors :=
    part.rankedWithin_colors.not_mem (.inl (by omega))
  simp only [mem_codes, resets, off, colors, ofAttribute_mem_map, false_or, or_false]

end Part

/-! ## Kept targets -/

namespace Definition

variable {definition : Definition} {policy : Policy}

/-- Every policy but keep has a baseline, and only a baseline that is given
resets attributes one by one. -/
theorem exists_baseline (definition : Definition) (merges : policy ≠ .keep) :
    ∃ baseline, definition.baseline? policy = some baseline ∧
      ∀ style ∈ baseline.resetAttributes, policy = .override baseline := by
  cases policy with
  | auto => exact ⟨_, rfl, fun style member => absurd member List.not_mem_nil⟩
  | reset => exact ⟨_, rfl, fun style member => absurd member List.not_mem_nil⟩
  | keep => exact absurd rfl merges
  | override given => exact ⟨given, rfl, fun _ _ => rfl⟩

/-- A target that the author keeps is not reset by a rule that closes, whatever
the baseline of the policy resets. If the author keeps the attributes, then a
rule switches off only those that the author names to go off or to be reset, and
those that a given baseline names to be reset one by one. -/
theorem keep_shields_from_baseline (valid : definition.isValid) (merges : policy ≠ .keep)
    (name : Text) :
    ∃ rule, definition.compile name policy = .ok rule ∧
      (∀ layer, definition.explicitAfter.keep.expand.layer layer →
        Code.defaultColor layer ∉ rule.after) ∧
      (definition.explicitAfter.keep.expand.style → ∀ style,
        Code.ofAttribute style .off ∈ rule.after →
          style ∈ definition.explicitAfter.disable ∨
            style ∈ definition.explicitAfter.resetAttributes ∨
            ∃ baseline, policy = .override baseline ∧ style ∈ baseline.resetAttributes) := by
  obtain ⟨baseline, based, given⟩ := exists_baseline definition merges
  have closing : (definition.compiled policy).after =
      (definition.explicitAfter.override baseline).codes definition.insidePart := by
    rw [Definition.compiled, closingPart_of_baseline based]
  refine ⟨definition.compiled policy, (definition.compile_eq_ok_iff name policy _).mpr
    ⟨valid, rfl⟩, ?_, ?_⟩
  · intro layer kept
    rw [closing, Part.defaultColor_mem_codes, Part.reset_layer_override, kept]
    simp
  · intro kept style off
    rw [closing, Part.off_mem_codes, Part.mem_goingOff, Part.reset_style_override, kept,
      Part.mem_resetAttributes_override, Part.mem_disable_override, kept] at off
    rcases off with group | (inherited | reset) | ⟨_, disabled | inherited⟩
    · simp at group
    · exact .inr (.inr ⟨baseline, given style inherited, inherited⟩)
    · exact .inr (.inl reset)
    · exact .inl disabled
    · simp at inherited

/-- A rule that keeps everything when it closes, with two attributes named one
by one. -/
def shieldedRule : Definition where
  fields := { fg := some (.base .red), bg := some (.indexed 7), enable := [.bold, .dim] }
  after := some
    { keep := Targets.everything, disable := [.italic], resetAttributes := [.hidden] }

/-- A baseline that resets in all three ways. -/
def clearingBaseline : Part where
  disable := [.dim, .underline]
  reset := Targets.everything
  resetAttributes := [.inverse]

theorem keep_shields_from_clearing :
    shieldedRule.isValid ∧ Policy.override clearingBaseline ≠ .keep ∧
      ∃ rule, shieldedRule.compile "r".toList (.override clearingBaseline) = .ok rule ∧
        Code.defaultColor .foreground ∉ rule.after ∧
        Code.defaultColor .background ∉ rule.after ∧
        ∀ style ∈ [Attribute.bold, .dim, .underline, .strikethrough],
          Code.ofAttribute style .off ∉ rule.after := by
  have valid : shieldedRule.isValid := rfl
  have merges : Policy.override clearingBaseline ≠ .keep := by decide
  obtain ⟨rule, compiled, layers, styles⟩ :=
    keep_shields_from_baseline valid merges "r".toList
  refine ⟨valid, merges, rule, compiled, layers .foreground rfl, layers .background rfl, ?_⟩
  have unnamed : ∀ style ∈ [Attribute.bold, .dim, .underline, .strikethrough],
      style ∉ shieldedRule.explicitAfter.disable ∧
        style ∉ shieldedRule.explicitAfter.resetAttributes ∧
        style ∉ clearingBaseline.resetAttributes := by
    decide
  intro style shielded off
  obtain ⟨notDisabled, notReset, notGiven⟩ := unnamed style shielded
  rcases styles rfl style off with disabled | reset | ⟨baseline, given, reset⟩
  · exact notDisabled disabled
  · exact notReset reset
  · cases given
    exact notGiven reset

/-- A keep of the attributes does not cover attributes that a given baseline
resets one by one: the rule switches off one that its author does not name. -/
theorem keep_leaves_attributes_reset_by_name :
    let definition : Definition := { after := some { keep := Targets.styles } }
    let baseline : Part := { resetAttributes := [.bold] }
    definition.isValid ∧ definition.explicitAfter.keep.expand.style ∧
      .bold ∉ definition.explicitAfter.disable ∧
      .bold ∉ definition.explicitAfter.resetAttributes ∧
      ∃ rule, definition.compile "r".toList (.override baseline) = .ok rule ∧
        Code.ofAttribute .bold .off ∈ rule.after := by
  refine ⟨rfl, rfl, by decide, by decide, _, rfl, ?_⟩
  decide

end Definition

/-! ## Closing under the auto policy -/

namespace Part

variable {opened authored : Part} {style : Attribute}

theorem layer_expand_undoing (opened : Part) (layer : Layer) :
    opened.undoing.reset.expand.layer layer = (opened.color layer).isSome := by
  cases layer <;> simp [undoing, Targets.expand, Targets.layer, color]

theorem style_expand_undoing (opened : Part) :
    opened.undoing.reset.expand.style = decide (opened.enable ≠ []) := by
  simp [undoing, Targets.expand]

theorem resetAll_not_mem_autoAfter :
    Code.resetAll ∉ (opened.autoAfter authored).codes opened := by
  rw [resetAll_mem_codes, autoAfter, reset_all_override]
  exact Bool.false_ne_true

/-- The colour of a layer is reset if the opened part set it or the author
resets it, unless the author keeps it. -/
theorem defaultColor_mem_autoAfter {layer : Layer} :
    Code.defaultColor layer ∈ (opened.autoAfter authored).codes opened ↔
      ((opened.color layer).isSome ∨ authored.reset.layer layer ∨ authored.reset.all) ∧
        ¬ (authored.keep.layer layer ∨ authored.keep.all) := by
  rw [defaultColor_mem_codes, autoAfter, reset_layer_override, layer_expand_undoing,
    Targets.layer_expand, Targets.layer_expand]
  simp only [Bool.and_eq_true, Bool.or_eq_true, Bool.not_eq_true', Bool.or_eq_false_iff, not_or,
    Bool.not_eq_true]

theorem mem_enable_autoAfter :
    style ∈ (opened.autoAfter authored).enable ↔
      style ∈ authored.enable ∧ style ∉ authored.disable := by
  constructor
  · intro on
    obtain ⟨inherited | enabled, disabled, _⟩ := mem_enable_override.mp on
    · cases inherited
    · exact ⟨enabled, disabled⟩
  · rintro ⟨enabled, disabled⟩
    exact mem_enable_override_of_authored enabled disabled

/-- An attribute goes off if the author resets it or only switches it off, or if
it is in the style group: the author switches nothing off, the group is reset
and not kept, and the author does not switch the attribute on. -/
theorem off_mem_autoAfter :
    Code.ofAttribute style .off ∈ (opened.autoAfter authored).codes opened ↔
      style ∈ authored.resetAttributes ∨
        (style ∈ authored.disable ∧ style ∉ authored.enable) ∨
        (authored.disable = [] ∧ ¬ (authored.keep.style ∨ authored.keep.all) ∧
          (opened.enable ≠ [] ∨ authored.reset.style ∨ authored.reset.all) ∧
          (opened.enable = [] ∨ style ∈ opened.enable) ∧ style ∉ authored.enable) := by
  have reset : style ∈ (opened.autoAfter authored).resetAttributes ↔
      style ∈ authored.resetAttributes := by
    rw [autoAfter, mem_resetAttributes_override]
    simp [undoing]
  have disabled : style ∈ (opened.autoAfter authored).disable ↔
      style ∈ authored.disable ∧ style ∉ authored.enable := by
    rw [autoAfter, mem_disable_override]
    simp [undoing, and_comm]
  have group : (opened.autoAfter authored).reset.style ↔
      authored.disable = [] ∧ ¬ (authored.keep.style ∨ authored.keep.all) ∧
        (opened.enable ≠ [] ∨ authored.reset.style ∨ authored.reset.all) := by
    rw [autoAfter, reset_style_override, style_expand_undoing]
    simp [Targets.expand, and_comm, and_assoc]
  rw [off_mem_codes, mem_goingOff, reset, disabled, group, mem_styleGroup, mem_enable_autoAfter]
  by_cases spares : authored.disable = []
  · simp only [spares, List.not_mem_nil, not_false_eq_true, and_true, true_and, false_and,
      or_false, false_or]
    rw [and_assoc]
    exact or_comm
  · simp only [spares, false_and, false_or, or_false]

/-- What undoes an opened part by itself: the resets of the layers whose colour
it set, and the attributes that it switched on, each once. -/
theorem codes_autoAfter_empty (opened : Part) :
    (opened.autoAfter empty).codes opened =
      (if opened.fg.isSome then [Code.defaultColor .foreground] else []) ++
        (if opened.bg.isSome then [Code.defaultColor .background] else []) ++
          (FirstSeen.distinct opened.enable).map (Code.ofAttribute · .off) := by
  have resets : ({ reset := opened.undoing.reset } : Part).resets =
      (if opened.fg.isSome then [Code.defaultColor .foreground] else []) ++
        (if opened.bg.isSome then [Code.defaultColor .background] else []) := by
    simp [Part.resets, undoing]
  have goingOff : ({ reset := opened.undoing.reset } : Part).goingOff opened =
      opened.enable := by
    by_cases enabled : opened.enable = []
    · simp [Part.goingOff, undoing, enabled]
    · simp [Part.goingOff, undoing, styleGroup, enabled]
  have colors : ({ reset := opened.undoing.reset } : Part).colors = [] := rfl
  rw [autoAfter_empty, codes_eq_blocks, resets, goingOff, colors]
  simp [FirstSeen.distinct, FirstSeen.addAll]

end Part

namespace Definition

variable {definition : Definition}

/-- Under the auto policy a rule undoes what its inside part changed, as far as
its author does not say otherwise. It never resets everything. The colour of a
layer is reset if the inside part sets it or the author resets it, and the
author does not keep it. An attribute comes on if the author only switches it
on. It goes off if the author resets it or only switches it off, or, where the
author switches nothing off, with the style group: the inside part switched an
attribute on or the author resets the group, the author does not keep it, and
the attribute is one of those that the inside part switched on, or any if there
are none, and is not switched on by the author. If the author gives nothing, the
codes are those of the layers that the inside part coloured and of the
attributes that it switched on, in their order. -/
theorem auto_closing_codes (valid : definition.isValid) (name : Text) :
    let opened := definition.insidePart
    let authored := definition.explicitAfter
    ∃ rule, definition.compile name .auto = .ok rule ∧
      Code.resetAll ∉ rule.after ∧
      (∀ layer, Code.defaultColor layer ∈ rule.after ↔
        ((opened.color layer).isSome ∨ authored.reset.layer layer ∨ authored.reset.all) ∧
          ¬ (authored.keep.layer layer ∨ authored.keep.all)) ∧
      (∀ style, Code.ofAttribute style .on ∈ rule.after ↔
        style ∈ authored.enable ∧ style ∉ authored.disable) ∧
      (∀ style, Code.ofAttribute style .off ∈ rule.after ↔
        style ∈ authored.resetAttributes ∨
          (style ∈ authored.disable ∧ style ∉ authored.enable) ∨
          (authored.disable = [] ∧ ¬ (authored.keep.style ∨ authored.keep.all) ∧
            (opened.enable ≠ [] ∨ authored.reset.style ∨ authored.reset.all) ∧
            (opened.enable = [] ∨ style ∈ opened.enable) ∧ style ∉ authored.enable)) ∧
      (authored = Part.empty → rule.after =
        (if opened.fg.isSome then [Code.defaultColor .foreground] else []) ++
          (if opened.bg.isSome then [Code.defaultColor .background] else []) ++
            (FirstSeen.distinct opened.enable).map (Code.ofAttribute · .off)) := by
  intro opened authored
  have closing : (definition.compiled .auto).after =
      (opened.autoAfter authored).codes opened := rfl
  refine ⟨definition.compiled .auto, (definition.compile_eq_ok_iff name .auto _).mpr
    ⟨valid, rfl⟩, ?_, ?_, ?_, ?_, ?_⟩
  · rw [closing]
    exact Part.resetAll_not_mem_autoAfter
  · intro layer
    rw [closing]
    exact Part.defaultColor_mem_autoAfter
  · intro style
    rw [closing, Part.on_mem_codes]
    exact Part.mem_enable_autoAfter
  · intro style
    rw [closing]
    exact Part.off_mem_autoAfter
  · intro nothing
    rw [closing, nothing]
    exact Part.codes_autoAfter_empty opened

/-- An inside part that sets both colours and lists an attribute twice, and an
author who takes back some of what closing undoes. -/
def reclosingRule : Definition where
  inside := some
    { fg := some (.base .red)
      bg := some (.rgb 1 2 3)
      enable := [.bold, .italic, .bold]
      disable := [.hidden]
      reset := Targets.everything }
  after := some { enable := [.italic], keep := Targets.background, resetAttributes := [.dim] }

theorem auto_closing_codes_reclosing :
    reclosingRule.isValid ∧
      ∃ rule, reclosingRule.compile "r".toList .auto = .ok rule ∧
        Code.resetAll ∉ rule.after ∧
        Code.defaultColor .foreground ∈ rule.after ∧
        Code.defaultColor .background ∉ rule.after ∧
        Code.ofAttribute .italic .on ∈ rule.after ∧
        (∀ style, Code.ofAttribute style .off ∈ rule.after ↔ style = .bold ∨ style = .dim) := by
  have valid : reclosingRule.isValid := rfl
  obtain ⟨rule, compiled, everything, layers, on, off, _⟩ :=
    auto_closing_codes valid "r".toList
  refine ⟨valid, rule, compiled, everything, (layers .foreground).mpr (by decide), ?_,
    (on .italic).mpr (by decide), ?_⟩
  · rw [layers .background]
    decide
  · intro style
    rw [off style]
    cases style <;> decide

end Definition

end TerminalMarkup
