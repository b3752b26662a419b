import TerminalMarkup.FirstSeen
import TerminalMarkup.Sgr.Code
import Mathlib.Data.List.Basic

/-!
Contract: terminals seen component by component.

A component is one layer's colour or one attribute. A code either leaves a
component alone or gives it a value, whatever the value was before, so the
effect of a list of codes on a component is that of the last code that acts on
it. `get_run` is the one place where a run over codes is turned into effects.

The last section covers repetitions. Removing them changes no effect as long
as codes that give a component its initial value come before those that give
it another one.
-/

set_option autoImplicit false

namespace TerminalMarkup

/-- What a terminal keeps independently: the colour of a layer, or whether an
attribute is on. -/
inductive Component where
  | color (layer : Layer)
  | style (style : Attribute)
deriving DecidableEq, Repr

namespace Component

/-- The values of a component. A layer without a colour has its default. -/
@[reducible]
def Value : Component → Type
  | .color _ => Option Color
  | .style _ => Bool

/-- The value of a component at the initial terminal. -/
def initial : (component : Component) → component.Value
  | .color _ => (none : Option Color)
  | .style _ => false

end Component

namespace Terminal

/-- The value of a component at a terminal. -/
def get (terminal : Terminal) : (component : Component) → component.Value
  | .color layer => terminal.color layer
  | .style style => terminal.isOn style

@[simp]
theorem get_initial (component : Component) :
    initial.get component = component.initial := by
  cases component <;> rfl

theorem ext_get {first second : Terminal}
    (same : ∀ component, first.get component = second.get component) :
    first = second := by
  apply Terminal.ext
  · funext layer
    exact same (.color layer)
  · funext style
    exact same (.style style)

end Terminal

/-! ## The effect of one code -/

namespace Code

/-- The value that a code gives to a component, or nothing if the code leaves
the component alone. -/
def effect (code : Code) : (component : Component) → Option component.Value
  | .color layer =>
    if code = resetAll ∨ code = defaultColor layer then some (none : Option Color)
    else (code.colorOn? layer).map (some : Color → Option Color)
  | .style style =>
    if code = resetAll then some false
    else if code = ofAttribute style .on then some true
    else if code = ofAttribute style .off then some false
    else none

@[simp]
theorem effect_resetAll (component : Component) :
    resetAll.effect component = some component.initial := by
  cases component <;> simp [effect, Component.initial]

@[simp]
theorem effect_defaultColor_color (layer other : Layer) :
    (defaultColor layer).effect (.color other) =
      if other = layer then some (none : Option Color) else none := by
  cases layer <;> cases other <;> rfl

@[simp]
theorem effect_defaultColor_style (layer : Layer) (style : Attribute) :
    (defaultColor layer).effect (.style style) = none := by
  cases layer <;> cases style <;> rfl

@[simp]
theorem effect_ofColor_color (color : Color) (layer other : Layer) :
    (ofColor color layer).effect (.color other) =
      if other = layer then some (some color : Option Color) else none := by
  cases color with
  | base color => cases color <;> cases layer <;> cases other <;> rfl
  | indexed index => cases layer <;> cases other <;> rfl
  | rgb red green blue => cases layer <;> cases other <;> rfl

@[simp]
theorem effect_ofColor_style (color : Color) (layer : Layer) (style : Attribute) :
    (ofColor color layer).effect (.style style) = none := by
  cases color with
  | base color => cases color <;> cases layer <;> cases style <;> rfl
  | indexed index => cases layer <;> cases style <;> rfl
  | rgb red green blue => cases layer <;> cases style <;> rfl

@[simp]
theorem effect_ofAttribute_color (style : Attribute) (switch : Switch)
    (layer : Layer) :
    (ofAttribute style switch).effect (.color layer) = none := by
  cases style <;> cases switch <;> cases layer <;> rfl

@[simp]
theorem effect_ofAttribute_style (style other : Attribute) (switch : Switch) :
    (ofAttribute style switch).effect (.style other) =
      if other = style then some (decide (switch = .on)) else none := by
  cases style <;> cases switch <;> cases other <;> rfl

/-- The codes that act on an attribute are the reset of everything and the two
codes of that attribute. -/
theorem effect_style_eq_none_iff (code : Code) (style : Attribute) :
    code.effect (.style style) = none ↔
      code ≠ resetAll ∧ code ≠ ofAttribute style .on ∧
        code ≠ ofAttribute style .off := by
  simp only [effect]
  split_ifs <;> simp_all

theorem effect_style_eq_some_true_iff (code : Code) (style : Attribute) :
    code.effect (.style style) = some true ↔ code = ofAttribute style .on := by
  constructor
  · intro gives
    simp only [effect] at gives
    split_ifs at gives with _ on
    · cases gives
    · exact on
    · cases gives
  · rintro rfl
    simp

end Code

theorem Terminal.get_receive (terminal : Terminal) (code : Code) (component : Component) :
    (terminal.receive code).get component =
      (code.effect component).getD (terminal.get component) := by
  by_cases everything : code = Code.resetAll
  · subst everything
    simp
  cases component with
  | color layer =>
      simp only [Terminal.get, Terminal.receive, Code.effect, everything, if_false, false_or]
      split_ifs
      · rfl
      · cases code.colorOn? layer <;> rfl
  | style style =>
      simp only [Terminal.get, Terminal.receive, Code.effect, everything, if_false]
      split_ifs <;> rfl

/-! ## The effect of a list of codes -/

namespace Code

/-- The value that a list of codes gives to a component: that of the last code
that acts on it. -/
def effectAll (component : Component) : List Code → Option component.Value
  | [] => none
  | code :: rest => (effectAll component rest).or (code.effect component)

variable {component : Component}

@[simp]
theorem effectAll_nil : effectAll component [] = none := rfl

theorem effectAll_cons (code : Code) (rest : List Code) :
    effectAll component (code :: rest) =
      (effectAll component rest).or (code.effect component) := rfl

@[simp]
theorem effectAll_append (front back : List Code) :
    effectAll component (front ++ back) =
      (effectAll component back).or (effectAll component front) := by
  induction front with
  | nil => simp
  | cons code rest inductionHypothesis =>
      rw [List.cons_append, effectAll_cons, inductionHypothesis, effectAll_cons,
        Option.or_assoc]

@[simp]
theorem effectAll_singleton (code : Code) :
    effectAll component [code] = code.effect component := rfl

theorem effectAll_eq_none_iff {codes : List Code} :
    effectAll component codes = none ↔ ∀ code ∈ codes, code.effect component = none := by
  induction codes with
  | nil => simp
  | cons code rest inductionHypothesis =>
      rw [effectAll_cons, Option.or_eq_none_iff, inductionHypothesis, List.forall_mem_cons]
      exact and_comm

/-- A list of codes gives a component no value that none of its codes gives. -/
theorem exists_mem_of_effectAll {codes : List Code} {value : component.Value}
    (given : effectAll component codes = some value) :
    ∃ code ∈ codes, code.effect component = some value := by
  induction codes with
  | nil => simp at given
  | cons code rest inductionHypothesis =>
      rw [effectAll_cons, Option.or_eq_some_iff] at given
      rcases given with later | ⟨_, here⟩
      · obtain ⟨other, member, gives⟩ := inductionHypothesis later
        exact ⟨other, List.mem_cons_of_mem code member, gives⟩
      · exact ⟨code, List.mem_cons_self, here⟩

end Code

theorem Terminal.get_run (terminal : Terminal) (codes : List Code) (component : Component) :
    (terminal.run codes).get component =
      (Code.effectAll component codes).getD (terminal.get component) := by
  induction codes generalizing terminal with
  | nil => rfl
  | cons code rest inductionHypothesis =>
      rw [Terminal.run_cons, inductionHypothesis, Terminal.get_receive, Code.effectAll_cons]
      cases Code.effectAll component rest <;> rfl

/-! ## Repetitions -/

namespace Code

/-- An earlier code does not stand against a later one: where both act on a
component, they give it the same value or the earlier one only clears it. -/
def YieldsTo (earlier later : Code) : Prop :=
  ∀ (component : Component) (value next : component.Value),
    earlier.effect component = some value → later.effect component = some next →
      value = component.initial ∨ value = next

/-- A list in which every code yields to those behind it. -/
def Settling (codes : List Code) : Prop :=
  codes.Pairwise YieldsTo

variable {component : Component}

/-- In a settling list a value other than the initial one is final as soon as
some code gives it. -/
theorem Settling.effectAll_of_mem {codes : List Code} (settling : Settling codes)
    {code : Code} {value : component.Value} (member : code ∈ codes)
    (gives : code.effect component = some value) (lasting : value ≠ component.initial) :
    effectAll component codes = some value := by
  induction codes with
  | nil => simp at member
  | cons first rest inductionHypothesis =>
      obtain ⟨yields, restSettling⟩ := List.pairwise_cons.mp settling
      rw [effectAll_cons]
      rcases List.mem_cons.mp member with rfl | later
      · cases final : effectAll component rest with
        | none => simpa using gives
        | some next =>
            obtain ⟨other, otherMember, otherGives⟩ := exists_mem_of_effectAll final
            rcases yields other otherMember component value next gives otherGives with
              cleared | same
            · exact absurd cleared lasting
            · simp [same]
      · simp [inductionHypothesis restSettling later]

/-- The effect of a settling list depends on its codes alone, not on their
order or number. -/
theorem Settling.effectAll_congr {first second : List Code}
    (firstSettling : Settling first) (secondSettling : Settling second)
    (same : ∀ code, code ∈ first ↔ code ∈ second) :
    effectAll component first = effectAll component second := by
  cases given : effectAll component first with
  | none =>
      symm
      rw [effectAll_eq_none_iff] at given ⊢
      intro code member
      exact given code ((same code).mpr member)
  | some value =>
      obtain ⟨code, member, gives⟩ := exists_mem_of_effectAll given
      by_cases lasting : value = component.initial
      · -- Both lists act, and a lasting value of the second would show in the first.
        cases other : effectAll component second with
        | none =>
            have silent := effectAll_eq_none_iff.mp other code ((same code).mp member)
            rw [silent] at gives
            cases gives
        | some next =>
            by_cases nextInitial : next = component.initial
            · rw [lasting, nextInitial]
            · obtain ⟨later, laterMember, laterGives⟩ := exists_mem_of_effectAll other
              have shown := firstSettling.effectAll_of_mem ((same later).mpr laterMember)
                laterGives nextInitial
              rw [← given, shown]
      · exact (secondSettling.effectAll_of_mem ((same code).mp member) gives lasting).symm

end Code

/-- Removing repetitions from a settling list changes no effect. -/
theorem Code.Settling.effectAll_distinct {codes : List Code} (settling : Settling codes)
    (component : Component) :
    effectAll component (FirstSeen.distinct codes) = effectAll component codes := by
  have distinctSettling : Settling (FirstSeen.distinct codes) :=
    settling.sublist (FirstSeen.distinct_sublist codes)
  exact distinctSettling.effectAll_congr settling fun _ => FirstSeen.mem_distinct

end TerminalMarkup
