import TerminalMarkup.Proofs.Terminal.PartEffect
import Mathlib.Tactic.Tauto

/-!
Contract: the order of the codes of a part, and what they do in that order.

`Code.rank` is the place of a code among the kinds of codes of a part. Codes of
one kind stand together, and no code is of two kinds, so that repetitions are
removed within each kind (`codes_eq_blocks`). What the codes do to a terminal is
owned by `Proofs.Terminal.PartEffect`.
-/

set_option autoImplicit false

namespace TerminalMarkup

/-! ## Kinds of codes -/

namespace Code

/-- The place of a code in the order of a part: resets of everything, of layers,
attributes off, attributes on, foreground and background. -/
def rank : Code → Nat
  | .single value =>
    if value = 0 then 0
    else if value = 39 ∨ value = 49 then 1
    else if value < 20 then 3
    else if value < 30 then 2
    else if value < 40 then 4
    else 5
  | .compound fields => if fields.head? = some 38 then 4 else 5

@[simp]
theorem rank_resetAll : rank resetAll = 0 := rfl

@[simp]
theorem rank_defaultColor (layer : Layer) : rank (defaultColor layer) = 1 := by
  cases layer <;> rfl

/-- The rank of the codes that switch an attribute. -/
def switchRank : Switch → Nat
  | .off => 2
  | .on => 3

theorem rank_ofAttribute (style : Attribute) (switch : Switch) :
    rank (ofAttribute style switch) = switchRank switch := by
  cases switch <;> cases style <;> rfl

/-- The rank of the codes that set the colour of a layer. -/
def layerRank : Layer → Nat
  | .foreground => 4
  | .background => 5

theorem rank_ofColor (color : Color) (layer : Layer) :
    rank (ofColor color layer) = layerRank layer := by
  cases color with
  | base color => cases layer <;> cases color <;> rfl
  | indexed index => cases layer <;> rfl
  | rgb red green blue => cases layer <;> rfl

theorem rank_eq_zero_iff (code : Code) : code.rank = 0 ↔ code = resetAll := by
  cases code with
  | single value =>
      simp only [rank, resetAll, single.injEq]
      split_ifs <;> simp_all
  | compound fields =>
      simp only [rank, resetAll, reduceCtorEq, iff_false]
      split_ifs <;> simp

theorem ofAttribute_injective (switch : Switch) (first second : Attribute)
    (same : ofAttribute first switch = ofAttribute second switch) : first = second := by
  cases switch <;> cases first <;> cases second <;> first | rfl | cases same

/-- Whether the ranks of some codes lie between two bounds. -/
def RankedWithin (low high : Nat) (codes : List Code) : Prop :=
  ∀ code ∈ codes, low ≤ code.rank ∧ code.rank ≤ high

namespace RankedWithin

variable {low middle high : Nat} {front back : List Code}

theorem append (first : RankedWithin low middle front)
    (second : RankedWithin (middle + 1) high back)
    (ordered : low ≤ middle ∧ middle ≤ high) :
    RankedWithin low high (front ++ back) := by
  intro code member
  rcases List.mem_append.mp member with early | late
  · have := first code early
    omega
  · have := second code late
    omega

theorem apart (first : RankedWithin low middle front)
    (second : RankedWithin (middle + 1) high back) :
    ∀ code ∈ back, code ∉ front := by
  intro code late early
  have := first code early
  have := second code late
  omega

/-- Codes of one rank are in the order of their ranks. -/
theorem pairwise {codes : List Code} (level : RankedWithin low low codes) :
    codes.Pairwise fun earlier later => earlier.rank ≤ later.rank := by
  apply List.pairwise_of_forall_mem_list
  intro earlier earlierMember later laterMember
  have := level earlier earlierMember
  have := level later laterMember
  omega

theorem pairwise_append (first : RankedWithin low middle front)
    (second : RankedWithin (middle + 1) high back)
    (frontOrdered : front.Pairwise fun earlier later => earlier.rank ≤ later.rank)
    (backOrdered : back.Pairwise fun earlier later => earlier.rank ≤ later.rank) :
    (front ++ back).Pairwise fun earlier later => earlier.rank ≤ later.rank := by
  rw [List.pairwise_append]
  refine ⟨frontOrdered, backOrdered, ?_⟩
  intro earlier early later late
  have := first earlier early
  have := second later late
  omega

end RankedWithin

end Code

namespace Part

/-- The codes with which a part resets everything and the layers. -/
def resets (part : Part) : List Code :=
  (if part.reset.all then [Code.resetAll] else []) ++
  (if part.reset.fg then [Code.defaultColor .foreground] else []) ++
  (if part.reset.bg then [Code.defaultColor .background] else [])

/-- The attributes that a part switches off, in the order of its codes: the
style group without those that the part switches on, those to be reset, and
those listed to go off. -/
def goingOff (part opened : Part) : List Attribute :=
  (if part.reset.style then opened.styleGroup.filter (· ∉ part.enable) else []) ++
    part.resetAttributes ++ part.disable

/-- The codes of the colours that a part sets. -/
def colors (part : Part) : List Code :=
  ((part.color .foreground).map (Code.ofColor · .foreground)).toList ++
    ((part.color .background).map (Code.ofColor · .background)).toList

theorem codeSequence_eq_blocks (part opened : Part) :
    part.codeSequence opened =
      part.resets ++ ((part.goingOff opened).map (Code.ofAttribute · .off) ++
        (part.enable.map (Code.ofAttribute · .on) ++ part.colors)) := by
  by_cases group : part.reset.style <;>
    simp [codeSequence, resets, goingOff, colors, color, group]

theorem mem_styleGroup {opened : Part} {style : Attribute} :
    style ∈ opened.styleGroup ↔ opened.enable = [] ∨ style ∈ opened.enable := by
  unfold styleGroup
  split
  · next empty => simp [empty, Attribute.mem_all]
  · next enabled => simp [enabled]

theorem goingOff_of_style {part : Part} (group : part.reset.style) (opened : Part) :
    part.goingOff opened =
      opened.styleGroup.filter (· ∉ part.enable) ++ part.resetAttributes ++ part.disable := by
  rw [goingOff, if_pos group]

theorem goingOff_of_no_style {part : Part} (group : ¬ part.reset.style) (opened : Part) :
    part.goingOff opened = part.resetAttributes ++ part.disable := by
  rw [goingOff, if_neg group, List.nil_append]

theorem rankedWithin_resets (part : Part) : Code.RankedWithin 0 1 part.resets := by
  intro code member
  simp only [resets, List.mem_append, List.mem_ite_nil_right, List.mem_singleton] at member
  rcases member with (⟨_, rfl⟩ | ⟨_, rfl⟩) | ⟨_, rfl⟩
  · simp
  · simp
  · simp

theorem rankedWithin_switched (styles : List Attribute) (switch : Switch) :
    Code.RankedWithin (Code.switchRank switch) (Code.switchRank switch)
      (styles.map (Code.ofAttribute · switch)) := by
  intro code member
  obtain ⟨style, _, rfl⟩ := List.mem_map.mp member
  simp [Code.rank_ofAttribute]

theorem rankedWithin_color (part : Part) (layer : Layer) :
    Code.RankedWithin (Code.layerRank layer) (Code.layerRank layer)
      ((part.color layer).map (Code.ofColor · layer)).toList := by
  intro code member
  rw [Option.mem_toList, Option.map_eq_some_iff] at member
  obtain ⟨color, _, rfl⟩ := member
  simp [Code.rank_ofColor]

theorem rankedWithin_colors (part : Part) : Code.RankedWithin 4 5 part.colors := by
  exact (part.rankedWithin_color .foreground).append (part.rankedWithin_color .background)
    (by decide)

theorem rankedWithin_on_colors (part : Part) (styles : List Attribute) :
    Code.RankedWithin 3 5 (styles.map (Code.ofAttribute · .on) ++ part.colors) := by
  exact (rankedWithin_switched styles .on).append part.rankedWithin_colors (by decide)

theorem rankedWithin_off_on_colors (part : Part) (styles others : List Attribute) :
    Code.RankedWithin 2 5 (styles.map (Code.ofAttribute · .off) ++
      (others.map (Code.ofAttribute · .on) ++ part.colors)) := by
  exact (rankedWithin_switched styles .off).append (part.rankedWithin_on_colors others)
    (by decide)

theorem distinct_resets (part : Part) : FirstSeen.distinct part.resets = part.resets := by
  unfold resets
  cases part.reset.all <;> cases part.reset.fg <;> cases part.reset.bg <;> rfl

theorem distinct_colors (part : Part) : FirstSeen.distinct part.colors = part.colors := by
  have apart := (part.rankedWithin_color .foreground).apart (part.rankedWithin_color .background)
  rw [colors, FirstSeen.distinct_append_of_disjoint apart]
  cases part.color .foreground <;> cases part.color .background <;> rfl

/-- The codes of a part come kind by kind, and only attributes can be listed
twice. -/
theorem codes_eq_blocks (part opened : Part) :
    part.codes opened =
      part.resets ++
        ((FirstSeen.distinct (part.goingOff opened)).map (Code.ofAttribute · .off) ++
          ((FirstSeen.distinct part.enable).map (Code.ofAttribute · .on) ++ part.colors)) := by
  have offApart := part.rankedWithin_resets.apart
    (part.rankedWithin_off_on_colors (part.goingOff opened) part.enable)
  have onApart := (rankedWithin_switched (part.goingOff opened) .off).apart
    (part.rankedWithin_on_colors part.enable)
  have colorsApart := (rankedWithin_switched part.enable .on).apart part.rankedWithin_colors
  rw [codes, codeSequence_eq_blocks, FirstSeen.distinct_append_of_disjoint offApart,
    FirstSeen.distinct_append_of_disjoint onApart,
    FirstSeen.distinct_append_of_disjoint colorsApart,
    FirstSeen.distinct_map (Code.ofAttribute_injective .off),
    FirstSeen.distinct_map (Code.ofAttribute_injective .on), distinct_resets, distinct_colors]

/-! ## The order of the codes -/

theorem pairwise_rank_resets (part : Part) :
    part.resets.Pairwise fun earlier later => earlier.rank ≤ later.rank := by
  unfold resets
  cases part.reset.all <;> cases part.reset.fg <;> cases part.reset.bg <;> simp

theorem pairwise_rank_codes (part opened : Part) :
    (part.codes opened).Pairwise fun earlier later => earlier.rank ≤ later.rank := by
  have foreground := part.rankedWithin_color .foreground
  have background := part.rankedWithin_color .background
  have on := rankedWithin_switched (FirstSeen.distinct part.enable) .on
  have off := rankedWithin_switched (FirstSeen.distinct (part.goingOff opened)) .off
  have colors := foreground.pairwise_append background foreground.pairwise background.pairwise
  have onColors := on.pairwise_append part.rankedWithin_colors on.pairwise colors
  have offOnColors :=
    off.pairwise_append (part.rankedWithin_on_colors _) off.pairwise onColors
  rw [codes_eq_blocks]
  exact part.rankedWithin_resets.pairwise_append (part.rankedWithin_off_on_colors _ _)
    part.pairwise_rank_resets offOnColors

/-- The code that resets everything does not stand behind another code. -/
theorem head?_codes_of_resetAll {part opened : Part}
    (member : Code.resetAll ∈ part.codes opened) :
    (part.codes opened).head? = some Code.resetAll := by
  have ordered := part.pairwise_rank_codes opened
  cases same : part.codes opened with
  | nil =>
      rw [same] at member
      cases member
  | cons first rest =>
      rw [same] at member ordered
      rw [List.head?_cons]
      rcases List.mem_cons.mp member with here | behind
      · rw [here]
      · have le := (List.pairwise_cons.mp ordered).1 Code.resetAll behind
        rw [Code.rank_resetAll, Nat.le_zero, Code.rank_eq_zero_iff] at le
        rw [le]

/-- No attribute comes on before another one goes off. -/
theorem pairwise_on_off_codes (part opened : Part) :
    (part.codes opened).Pairwise fun earlier later => ∀ on off,
      earlier = Code.ofAttribute on .on → later ≠ Code.ofAttribute off .off := by
  apply (part.pairwise_rank_codes opened).imp
  intro earlier later ordered on off isOn isOff
  rw [isOn, isOff, Code.rank_ofAttribute, Code.rank_ofAttribute] at ordered
  exact absurd ordered (by decide)

/-- The colours come last, the foreground before the background, and no other
code of a part is that of a colour. -/
theorem exists_codes_eq_append_colors (part opened : Part) :
    ∃ front, part.codes opened = front ++ part.colors ∧
      ∀ code ∈ front, ∀ color layer, code ≠ Code.ofColor color layer := by
  let off := (FirstSeen.distinct (part.goingOff opened)).map (Code.ofAttribute · .off)
  let on := (FirstSeen.distinct part.enable).map (Code.ofAttribute · .on)
  have offOn : Code.RankedWithin 2 3 (off ++ on) :=
    (rankedWithin_switched _ .off).append (rankedWithin_switched _ .on) (by decide)
  have uncoloured : Code.RankedWithin 0 3 (part.resets ++ (off ++ on)) :=
    part.rankedWithin_resets.append offOn (by omega)
  refine ⟨part.resets ++ (off ++ on), ?_, ?_⟩
  · simp only [codes_eq_blocks, off, on, List.append_assoc]
  · intro code member color layer same
    have low := (uncoloured code member).2
    rw [same, Code.rank_ofColor] at low
    cases layer <;> exact absurd low (by decide)

/-! ## The meaning of a part -/

/-- The codes of a part bring every terminal to what the part says, however
often its lists name an attribute. The colour of a layer is the one set, else
the default if the layer or everything is reset, else what it was. An attribute
is on if it is listed to come on. Otherwise it is off if it is listed to go off
or to be reset, if everything is reset, or if the style group is reset and the
attribute belongs to it: the attributes that the opened part switched on, or all
if there are none. Otherwise it is what it was. No code stands twice, the code
that resets everything comes first, attributes go off before others come on, and
at most one colour for each layer follows last. -/
theorem codes_preserve_meaning (part opened : Part) (terminal : Terminal) :
    (∀ layer, (terminal.run (part.codes opened)).color layer =
      match part.color layer with
      | some color => some color
      | none => if part.reset.layer layer ∨ part.reset.all then none else terminal.color layer) ∧
    (∀ style, (terminal.run (part.codes opened)).isOn style =
      if style ∈ part.enable then true
      else if style ∈ part.disable ∨ style ∈ part.resetAttributes ∨ part.reset.all ∨
          (part.reset.style ∧ (opened.enable = [] ∨ style ∈ opened.enable)) then false
      else terminal.isOn style) ∧
    (part.codes opened).Nodup ∧
    (Code.resetAll ∈ part.codes opened →
      (part.codes opened).head? = some Code.resetAll) ∧
    ((part.codes opened).Pairwise fun earlier later => ∀ on off,
      earlier = Code.ofAttribute on .on → later ≠ Code.ofAttribute off .off) ∧
    ∃ front, part.codes opened = front ++
        ((part.fg.map (Code.ofColor · .foreground)).toList ++
          (part.bg.map (Code.ofColor · .background)).toList) ∧
      ∀ code ∈ front, ∀ color layer, code ≠ Code.ofColor color layer := by
  refine ⟨?_, ?_, FirstSeen.nodup_distinct _, head?_codes_of_resetAll,
    part.pairwise_on_off_codes opened, part.exists_codes_eq_append_colors opened⟩
  · intro layer
    rw [color_run_codes]
    cases set : part.color layer with
    | none => simp [ActsOnLayer, set]
    | some color => simp [ActsOnLayer, set]
  · intro style
    rw [isOn_run_codes]
    have cleared : part.ClearsStyle opened style ↔
        style ∈ part.disable ∨ style ∈ part.resetAttributes ∨ part.reset.all ∨
          (part.reset.style ∧ (opened.enable = [] ∨ style ∈ opened.enable)) := by
      rw [ClearsStyle, mem_styleGroup]
      tauto
    simp only [cleared]

/-- Repeated and opposed entries. -/
example :
    let opened : Part := { enable := [.italic, .bold] }
    let part : Part :=
      { reset := Targets.foreground.union Targets.styles
        disable := [.italic, .dim]
        enable := [.bold, .dim, .bold]
        fg := some (.base .red) }
    part.codes opened =
      [.single 39, .single 23, .single 22, .single 1, .single 2, .single 31] := by
  decide

end Part

end TerminalMarkup
