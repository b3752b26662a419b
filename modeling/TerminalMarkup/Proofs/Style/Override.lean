import TerminalMarkup.Proofs.Terminal.PartEffect

/-!
Contract: what an authored part merged over a baseline contains.

One lemma for each field of the merged part says what it holds in terms of the
two parts, and the last statement puts them together. Callers use these
lemmas and do not open `Part.override`. What the codes of the merged part do to
a terminal is not owned here.
-/

set_option autoImplicit false

namespace TerminalMarkup.Part

variable {authored baseline : Part} {style : Attribute}

theorem color_override (authored baseline : Part) (layer : Layer) :
    (authored.override baseline).color layer =
      (authored.color layer).or (baseline.color layer) := by
  cases layer <;> rfl

/-- A layer is reset if either part resets it and the author does not keep
it. -/
theorem reset_layer_override (authored baseline : Part) (layer : Layer) :
    (authored.override baseline).reset.layer layer =
      ((baseline.reset.expand.layer layer || authored.reset.expand.layer layer) &&
        !authored.keep.expand.layer layer) := by
  by_cases disables : authored.disable = [] <;> cases layer <;>
    simp [override, disables, Targets.layer, Targets.union, Targets.without, Targets.styles]

theorem disable_override_of_kept (kept : authored.keep.expand.style) (baseline : Part) :
    (authored.override baseline).disable =
      FirstSeen.distinct (authored.disable.filter (· ∉ authored.enable)) := by
  simp only [override, kept, if_true, List.nil_append]

theorem disable_override_of_not_kept (kept : ¬ authored.keep.expand.style) (baseline : Part) :
    (authored.override baseline).disable =
      FirstSeen.distinct
        ((baseline.disable ++ authored.disable).filter (· ∉ authored.enable)) := by
  rw [override, if_neg kept]

theorem enable_override (authored baseline : Part) :
    (authored.override baseline).enable =
      (FirstSeen.distinct
        ((baseline.enable ++ authored.enable).filter (· ∉ authored.disable))).filter
          (· ∉ (authored.override baseline).disable) := by
  rfl

theorem resetAttributes_override (authored baseline : Part) :
    (authored.override baseline).resetAttributes =
      FirstSeen.addAll baseline.resetAttributes authored.resetAttributes := by
  rfl

/-- An attribute goes off if the author does not switch it on, and either the
author switches it off or the baseline does and the author does not keep the
attributes. -/
theorem mem_disable_override :
    style ∈ (authored.override baseline).disable ↔
      style ∉ authored.enable ∧
        (style ∈ authored.disable ∨
          (style ∈ baseline.disable ∧ authored.keep.expand.style = false)) := by
  simp only [override, FirstSeen.mem_distinct, List.mem_filter, List.mem_append,
    decide_eq_true_eq]
  cases authored.keep.expand.style
  · simp [and_comm, or_comm]
  · simp [and_comm]

/-- An attribute comes on if either part switches it on, and neither the author
nor the merged part switches it off. -/
theorem mem_enable_override :
    style ∈ (authored.override baseline).enable ↔
      (style ∈ baseline.enable ∨ style ∈ authored.enable) ∧
        style ∉ authored.disable ∧ style ∉ (authored.override baseline).disable := by
  rw [enable_override]
  simp only [FirstSeen.mem_distinct, List.mem_filter, List.mem_append, decide_eq_true_eq,
    and_assoc]

theorem mem_resetAttributes_override :
    style ∈ (authored.override baseline).resetAttributes ↔
      style ∈ baseline.resetAttributes ∨ style ∈ authored.resetAttributes := by
  exact FirstSeen.mem_addAll

/-- An attribute that the author only switches on comes on. -/
theorem mem_enable_override_of_authored (enabled : style ∈ authored.enable)
    (disabled : style ∉ authored.disable) :
    style ∈ (authored.override baseline).enable := by
  have kept : style ∉ (authored.override baseline).disable := by
    intro off
    exact (mem_disable_override.mp off).1 enabled
  exact mem_enable_override.mpr ⟨.inr enabled, disabled, kept⟩

/-- An attribute that the author switches off does not come on. -/
theorem not_mem_enable_override_of_authored (disabled : style ∈ authored.disable) :
    style ∉ (authored.override baseline).enable := by
  intro on
  exact (mem_enable_override.mp on).2.1 disabled

/-! ## The merged part as a whole -/

theorem nodup_disable_override (authored baseline : Part) :
    (authored.override baseline).disable.Nodup := by
  exact FirstSeen.nodup_distinct _

theorem nodup_enable_override (authored baseline : Part) :
    (authored.override baseline).enable.Nodup := by
  exact (FirstSeen.nodup_distinct _).filter _

/-- The style group is reset like a layer, as long as the author switches no
attribute off: then each attribute is handled by itself. -/
theorem reset_style_override (authored baseline : Part) :
    (authored.override baseline).reset.style =
      ((baseline.reset.expand.style || authored.reset.expand.style) &&
        !authored.keep.expand.style && decide (authored.disable = [])) := by
  by_cases disables : authored.disable = [] <;>
    simp [override, disables, Targets.union, Targets.without, Targets.styles]

/-- The member for everything is replaced by those for which it stands. -/
theorem reset_all_override (authored baseline : Part) :
    (authored.override baseline).reset.all = false := by
  by_cases disables : authored.disable = [] <;>
    simp [override, disables, Targets.union, Targets.without, Targets.styles, Targets.expand]

/-- What a merged part holds, field by field, whatever the two parts list and
however often. No attribute is listed twice or both switched on and switched
off. An attribute goes off if the author does not switch it on, and either the
author switches it off, or the baseline does and the author does not keep the
attributes. It comes on if either part switches it on, unless the author or
the merged part switches it off. A target is reset if either part resets it and
the author does not keep it; the style group only if the author switches
nothing off. Attributes to reset are united, nothing is kept any more, and the
colour of the author comes before that of the baseline. -/
theorem override_field_laws (authored baseline : Part) :
    let merged := authored.override baseline
    merged.enable.Nodup ∧ merged.disable.Nodup ∧ merged.enable.Disjoint merged.disable ∧
    (∀ style, style ∈ merged.disable ↔
      style ∉ authored.enable ∧
        (style ∈ authored.disable ∨
          (style ∈ baseline.disable ∧ ¬ authored.keep.expand.style))) ∧
    (∀ style, style ∈ merged.enable ↔
      (style ∈ baseline.enable ∨ style ∈ authored.enable) ∧
        style ∉ authored.disable ∧ style ∉ merged.disable) ∧
    (∀ layer, merged.reset.layer layer ↔
      (baseline.reset.expand.layer layer ∨ authored.reset.expand.layer layer) ∧
        ¬ authored.keep.expand.layer layer) ∧
    (merged.reset.style ↔
      (baseline.reset.expand.style ∨ authored.reset.expand.style) ∧
        ¬ authored.keep.expand.style ∧ authored.disable = []) ∧
    ¬ merged.reset.all ∧
    (∀ style, style ∈ merged.resetAttributes ↔
      style ∈ baseline.resetAttributes ∨ style ∈ authored.resetAttributes) ∧
    merged.keep = Targets.none ∧
    ∀ layer, merged.color layer = (authored.color layer).or (baseline.color layer) := by
  intro merged
  refine ⟨nodup_enable_override _ _, nodup_disable_override _ _, ?_, ?_, ?_, ?_, ?_, ?_, ?_,
    rfl, ?_⟩
  · intro style on off
    exact (mem_enable_override.mp on).2.2 off
  · intro style
    rw [Bool.not_eq_true]
    exact mem_disable_override
  · intro style
    exact mem_enable_override
  · intro layer
    simp [merged, reset_layer_override]
  · simp [merged, reset_style_override, and_assoc]
  · simp [merged, reset_all_override]
  · intro style
    exact mem_resetAttributes_override
  · intro layer
    exact color_override authored baseline layer

/-- A part with nothing in it leaves the resets that undo the opened part as they
are. -/
theorem autoAfter_empty (opened : Part) :
    opened.autoAfter empty = { reset := opened.undoing.reset } := by
  simp [autoAfter, override, empty, undoing, FirstSeen.distinct, FirstSeen.addAll,
    Targets.expand, Targets.union, Targets.without, Targets.none]

/-! ## Merging again -/

/-- Nothing in the resets of a merged part stands for other resets. -/
theorem expand_reset_override (authored baseline : Part) :
    (authored.override baseline).reset.expand = (authored.override baseline).reset := by
  have concrete := reset_all_override authored baseline
  generalize (authored.override baseline).reset = merged at concrete ⊢
  cases merged
  simp_all [Targets.expand]

theorem reset_override_again (authored baseline : Part) :
    (authored.override (authored.override baseline)).reset =
      (authored.override baseline).reset := by
  have layers : ∀ layer, (authored.override (authored.override baseline)).reset.layer layer =
      (authored.override baseline).reset.layer layer := by
    intro layer
    rw [reset_layer_override, expand_reset_override, reset_layer_override]
    cases authored.keep.expand.layer layer <;> simp
  have style : (authored.override (authored.override baseline)).reset.style =
      (authored.override baseline).reset.style := by
    rw [reset_style_override, expand_reset_override, reset_style_override]
    cases authored.keep.expand.style <;> by_cases disables : authored.disable = [] <;>
      simp [disables]
  rw [Targets.mk.injEq]
  exact ⟨by rw [reset_all_override, reset_all_override], layers .foreground,
    layers .background, style⟩

/-- What the author switches on is out of the list from the first merge on, and
what the author switches off is in it, unless it is switched on as well. -/
theorem disable_override_again (authored baseline : Part) :
    (authored.override (authored.override baseline)).disable =
      (authored.override baseline).disable := by
  have spared : (authored.override baseline).disable.filter (· ∉ authored.enable) =
      (authored.override baseline).disable := by
    rw [List.filter_eq_self]
    intro style off
    exact decide_eq_true (mem_disable_override.mp off).1
  have known : ∀ style ∈ authored.disable.filter (· ∉ authored.enable),
      style ∈ (authored.override baseline).disable := by
    intro style member
    obtain ⟨disabled, enabled⟩ := List.mem_filter.mp member
    exact mem_disable_override.mpr ⟨of_decide_eq_true enabled, .inl disabled⟩
  by_cases kept : authored.keep.expand.style
  · rw [disable_override_of_kept kept, disable_override_of_kept kept]
  · rw [disable_override_of_not_kept kept (authored.override baseline), List.filter_append, spared]
    exact FirstSeen.distinct_append_of_known (nodup_disable_override authored baseline) known

theorem enable_override_again (authored baseline : Part) :
    (authored.override (authored.override baseline)).enable =
      (authored.override baseline).enable := by
  have spared : (authored.override baseline).enable.filter (· ∉ authored.disable) =
      (authored.override baseline).enable := by
    rw [List.filter_eq_self]
    intro style on
    exact decide_eq_true (mem_enable_override.mp on).2.1
  have known : ∀ style ∈ authored.enable.filter (· ∉ authored.disable),
      style ∈ (authored.override baseline).enable := by
    intro style member
    obtain ⟨enabled, disabled⟩ := List.mem_filter.mp member
    exact mem_enable_override_of_authored enabled (of_decide_eq_true disabled)
  rw [enable_override authored (authored.override baseline), List.filter_append, spared,
    disable_override_again,
    FirstSeen.distinct_append_of_known (nodup_enable_override authored baseline) known,
    List.filter_eq_self]
  intro style on
  exact decide_eq_true (mem_enable_override.mp on).2.2

/-- Merging an authored part over a baseline a second time changes nothing, down
to the order of each list: what the author gives is in the merged part, and what
the author takes away is out of it. -/
theorem override_idempotent (authored baseline : Part) :
    authored.override (authored.override baseline) = authored.override baseline := by
  have resetAttributes : FirstSeen.addAll (authored.override baseline).resetAttributes
      authored.resetAttributes = (authored.override baseline).resetAttributes :=
    FirstSeen.addAll_of_known fun style member =>
      mem_resetAttributes_override.mpr (.inr member)
  have colors := color_override authored (authored.override baseline)
  have absorbed : ∀ layer, (authored.color layer).or ((authored.override baseline).color layer) =
      (authored.override baseline).color layer := by
    intro layer
    rw [color_override, ← Option.or_assoc, Option.or_self]
  rw [Part.mk.injEq]
  exact ⟨(colors .foreground).trans (absorbed .foreground),
    (colors .background).trans (absorbed .background), enable_override_again authored baseline,
    disable_override_again authored baseline, reset_override_again authored baseline,
    resetAttributes, rfl⟩

end TerminalMarkup.Part
