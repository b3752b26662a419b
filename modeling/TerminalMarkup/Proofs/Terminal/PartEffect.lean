import TerminalMarkup.Proofs.Terminal.Component
import TerminalMarkup.Style.Rule

/-!
Contract: what the codes of a part do to a terminal.

The codes of a part first clear components and then set some of them. So the
list settles, and removing its repetitions changes nothing. `effectAll_codes`
is the meaning of a part: a component that the part sets has the value set, a
component that it only clears has its initial value, and any other component
is left alone.
-/

set_option autoImplicit false

namespace TerminalMarkup

/-- Whether a set of targets names a layer by itself. -/
def Targets.layer (targets : Targets) : Layer → Bool
  | .foreground => targets.fg
  | .background => targets.bg

namespace Part

/-- The colour that a part sets on a layer. -/
def color (part : Part) : Layer → Option Color
  | .foreground => part.fg
  | .background => part.bg

/-- Whether a part acts on the colour of a layer: it sets the colour, or
resets the layer or everything. -/
def ActsOnLayer (part : Part) (layer : Layer) : Prop :=
  (part.color layer).isSome ∨ part.reset.layer layer ∨ part.reset.all

/-- Whether a part clears an attribute, under the part with which the rule
opened. -/
def ClearsStyle (part opened : Part) (style : Attribute) : Prop :=
  part.reset.all ∨ (part.reset.style ∧ style ∈ opened.styleGroup) ∨
    style ∈ part.resetAttributes ∨ style ∈ part.disable

instance (part : Part) (layer : Layer) : Decidable (part.ActsOnLayer layer) := by
  unfold ActsOnLayer
  infer_instance

instance (part opened : Part) (style : Attribute) :
    Decidable (part.ClearsStyle opened style) := by
  unfold ClearsStyle
  infer_instance

/-- The value that a part gives to a component, or nothing if the part leaves
the component alone. -/
def effect (part opened : Part) : (component : Component) → Option component.Value
  | .color layer => if part.ActsOnLayer layer then some (part.color layer) else none
  | .style style =>
    if style ∈ part.enable then some true
    else if part.ClearsStyle opened style then some false
    else none

/-! ## Clearing and setting -/

/-- The codes of a part that only clear: the resets and what goes off. -/
def clearing (part opened : Part) : List Code :=
  (if part.reset.all then [Code.resetAll] else []) ++
  (if part.reset.fg then [Code.defaultColor .foreground] else []) ++
  (if part.reset.bg then [Code.defaultColor .background] else []) ++
  (if part.reset.style then
    (opened.styleGroup.filter (· ∉ part.enable)).map (Code.ofAttribute · .off)
  else []) ++
  part.resetAttributes.map (Code.ofAttribute · .off) ++
  part.disable.map (Code.ofAttribute · .off)

/-- The codes of a part that set: what comes on and the colours. -/
def setting (part : Part) : List Code :=
  part.enable.map (Code.ofAttribute · .on) ++
  (part.fg.map (Code.ofColor · .foreground)).toList ++
  (part.bg.map (Code.ofColor · .background)).toList

theorem codeSequence_eq (part opened : Part) :
    part.codeSequence opened = part.clearing opened ++ part.setting := by
  simp only [codeSequence, clearing, setting, List.append_assoc]

private theorem initial_of_mem_clearing {part opened : Part} {code : Code}
    (member : code ∈ part.clearing opened) {component : Component}
    {value : component.Value} (gives : code.effect component = some value) :
    value = component.initial := by
  have shape : code = Code.resetAll ∨ (∃ layer, code = Code.defaultColor layer) ∨
      ∃ style, code = Code.ofAttribute style .off := by
    simp only [clearing, List.mem_append, List.mem_ite_nil_right, List.mem_singleton,
      List.mem_map] at member
    rcases member with ((((⟨_, rfl⟩ | ⟨_, rfl⟩) | ⟨_, rfl⟩) | ⟨_, style, _, rfl⟩) |
      ⟨style, _, rfl⟩) | ⟨style, _, rfl⟩
    · exact .inl rfl
    · exact .inr (.inl ⟨_, rfl⟩)
    · exact .inr (.inl ⟨_, rfl⟩)
    · exact .inr (.inr ⟨style, rfl⟩)
    · exact .inr (.inr ⟨style, rfl⟩)
    · exact .inr (.inr ⟨style, rfl⟩)
  rcases shape with rfl | ⟨layer, rfl⟩ | ⟨style, rfl⟩
  · rw [Code.effect_resetAll] at gives
    exact (Option.some.inj gives).symm
  · cases component with
    | color other =>
        rw [Code.effect_defaultColor_color] at gives
        split_ifs at gives
        exact (Option.some.inj gives).symm
    | style style => simp at gives
  · cases component with
    | color layer => simp at gives
    | style other =>
        rw [Code.effect_ofAttribute_style] at gives
        split_ifs at gives
        exact (Option.some.inj gives).symm

/-- The one value that setting codes of a part can give to a component. -/
private def aim (part : Part) : (component : Component) → component.Value
  | .color layer => part.color layer
  | .style _ => true

private theorem aim_of_mem_setting {part : Part} {code : Code}
    (member : code ∈ part.setting) {component : Component}
    {value : component.Value} (gives : code.effect component = some value) :
    value = part.aim component := by
  have shape : (∃ style, code = Code.ofAttribute style .on) ∨
      ∃ layer color, part.color layer = some color ∧ code = Code.ofColor color layer := by
    simp only [setting, List.mem_append, List.mem_map, Option.mem_toList,
      Option.map_eq_some_iff] at member
    rcases member with (⟨style, _, rfl⟩ | ⟨color, set, rfl⟩) | ⟨color, set, rfl⟩
    · exact .inl ⟨style, rfl⟩
    · exact .inr ⟨.foreground, color, set, rfl⟩
    · exact .inr ⟨.background, color, set, rfl⟩
  rcases shape with ⟨style, rfl⟩ | ⟨layer, color, set, rfl⟩
  · cases component with
    | color layer => simp at gives
    | style other =>
        rw [Code.effect_ofAttribute_style] at gives
        split_ifs at gives
        exact (Option.some.inj gives).symm
  · cases component with
    | color other =>
        rw [Code.effect_ofColor_color] at gives
        split_ifs at gives with same
        rw [← Option.some.inj gives, same]
        exact set.symm
    | style style => simp at gives

/-- Codes that clear come before codes that set, and codes that set agree. -/
theorem settling_codeSequence (part opened : Part) :
    Code.Settling (part.codeSequence opened) := by
  rw [codeSequence_eq, Code.Settling, List.pairwise_append]
  refine ⟨?_, ?_, ?_⟩
  · apply List.pairwise_of_forall_mem_list
    intro earlier member later _ component value next gives _
    exact .inl (initial_of_mem_clearing member gives)
  · apply List.pairwise_of_forall_mem_list
    intro earlier earlierMember later laterMember component value next gives laterGives
    right
    rw [aim_of_mem_setting earlierMember gives, aim_of_mem_setting laterMember laterGives]
  · intro earlier member later _ component value next gives _
    exact .inl (initial_of_mem_clearing member gives)

theorem settling_codes (part opened : Part) : Code.Settling (part.codes opened) :=
  (settling_codeSequence part opened).sublist (FirstSeen.distinct_sublist _)

/-! ## The effect on each component -/

theorem effectAll_map_ofAttribute_color (styles : List Attribute) (switch : Switch)
    (layer : Layer) :
    Code.effectAll (.color layer) (styles.map (Code.ofAttribute · switch)) = none := by
  rw [Code.effectAll_eq_none_iff]
  intro code member
  obtain ⟨style, _, rfl⟩ := List.mem_map.mp member
  exact Code.effect_ofAttribute_color style switch layer

theorem effectAll_map_ofAttribute_style (styles : List Attribute) (switch : Switch)
    (style : Attribute) :
    Code.effectAll (.style style) (styles.map (Code.ofAttribute · switch)) =
      if style ∈ styles then some (decide (switch = .on)) else none := by
  induction styles with
  | nil => rfl
  | cons first rest inductionHypothesis =>
      rw [List.map_cons, Code.effectAll_cons, inductionHypothesis,
        Code.effect_ofAttribute_style]
      by_cases here : style = first
      · subst here
        by_cases later : style ∈ rest <;> simp [later]
      · simp [here]

private theorem effectAll_ite (condition : Bool) (code : Code) (component : Component) :
    Code.effectAll component (if condition then [code] else []) =
      if condition then code.effect component else none := by
  cases condition <;> rfl

theorem effectAll_clearing_color (part opened : Part) (layer : Layer) :
    Code.effectAll (.color layer) (part.clearing opened) =
      if part.reset.layer layer ∨ part.reset.all then some none else none := by
  have group : Code.effectAll (.color layer)
      (if part.reset.style then
        (opened.styleGroup.filter (· ∉ part.enable)).map (Code.ofAttribute · .off)
      else []) = none := by
    split
    · exact effectAll_map_ofAttribute_color _ _ layer
    · rfl
  simp only [clearing, Code.effectAll_append, group, effectAll_map_ofAttribute_color,
    effectAll_ite, Option.none_or, Code.effect_resetAll, Code.effect_defaultColor_color]
  cases layer <;> by_cases everything : part.reset.all <;> by_cases fg : part.reset.fg <;>
    by_cases bg : part.reset.bg <;>
    simp [Targets.layer, Component.initial, everything, fg, bg]

theorem effectAll_clearing_style (part opened : Part) {style : Attribute}
    (spared : style ∉ part.enable) :
    Code.effectAll (.style style) (part.clearing opened) =
      if part.ClearsStyle opened style then some false else none := by
  have group : Code.effectAll (.style style)
      (if part.reset.style then
        (opened.styleGroup.filter (· ∉ part.enable)).map (Code.ofAttribute · .off)
      else []) =
      if part.reset.style ∧ style ∈ opened.styleGroup then some false else none := by
    split
    · rw [effectAll_map_ofAttribute_style]
      simp [*]
    · simp [*]
  simp only [clearing, Code.effectAll_append, group, effectAll_map_ofAttribute_style,
    effectAll_ite, Code.effect_resetAll, Code.effect_defaultColor_style, ClearsStyle]
  by_cases everything : part.reset.all <;>
    by_cases grouped : part.reset.style ∧ style ∈ opened.styleGroup <;>
    by_cases named : style ∈ part.resetAttributes <;>
    by_cases disabled : style ∈ part.disable <;>
    simp [everything, grouped, named, disabled, Component.initial]

theorem effectAll_setting_color (part : Part) (layer : Layer) :
    Code.effectAll (.color layer) part.setting = (part.color layer).map some := by
  simp only [setting, Code.effectAll_append, effectAll_map_ofAttribute_color]
  cases layer <;> cases fg : part.fg <;> cases bg : part.bg <;> simp [color, fg, bg]

theorem effectAll_setting_style (part : Part) (style : Attribute) :
    Code.effectAll (.style style) part.setting =
      if style ∈ part.enable then some true else none := by
  have fg : Code.effectAll (.style style)
      (part.fg.map (Code.ofColor · .foreground)).toList = none := by
    cases part.fg <;> simp
  have bg : Code.effectAll (.style style)
      (part.bg.map (Code.ofColor · .background)).toList = none := by
    cases part.bg <;> simp
  simp [setting, fg, bg, effectAll_map_ofAttribute_style]

/-- The codes of a part give each component the value that the part gives it,
and act on no other. -/
theorem effectAll_codes (part opened : Part) (component : Component) :
    Code.effectAll component (part.codes opened) = part.effect opened component := by
  rw [codes, (settling_codeSequence part opened).effectAll_distinct, codeSequence_eq,
    Code.effectAll_append]
  cases component with
  | color layer =>
      rw [effectAll_setting_color, effectAll_clearing_color]
      cases set : part.color layer <;> simp [effect, ActsOnLayer, set]
  | style style =>
      rw [effectAll_setting_style]
      by_cases enabled : style ∈ part.enable
      · simp [effect, enabled]
      · simp [effect, enabled, effectAll_clearing_style part opened enabled]

/-! ## The terminal behind the codes -/

theorem color_run_codes (part opened : Part) (terminal : Terminal) (layer : Layer) :
    (terminal.run (part.codes opened)).color layer =
      if part.ActsOnLayer layer then part.color layer else terminal.color layer := by
  have value := terminal.get_run (part.codes opened) (.color layer)
  rw [effectAll_codes] at value
  simp only [effect, Terminal.get] at value
  rw [value]
  split <;> rfl

theorem isOn_run_codes (part opened : Part) (terminal : Terminal) (style : Attribute) :
    (terminal.run (part.codes opened)).isOn style =
      if style ∈ part.enable then true
      else if part.ClearsStyle opened style then false
      else terminal.isOn style := by
  have value := terminal.get_run (part.codes opened) (.style style)
  rw [effectAll_codes] at value
  simp only [effect, Terminal.get] at value
  rw [value]
  split_ifs <;> rfl

end Part

end TerminalMarkup
