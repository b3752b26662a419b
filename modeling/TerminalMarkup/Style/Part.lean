import TerminalMarkup.FirstSeen
import TerminalMarkup.Sgr.Code

/-!
Contract: parts, the records of what to change on a terminal.

A part says which colours to set, which attributes to switch and what to
reset. It is built by edits, one entry at a time; an edit never lists an
attribute twice. `Part.codes` owns the order in which a part is written to the
terminal: resets come first, then attributes that go off, then attributes that
come on, then the colours.

`Part.override` merges an authored part over a baseline. A kept target leaves
the resets, an attribute that the author switches one way is not switched the
other way by the baseline, and an authored colour replaces that of the
baseline. The resets of both are united.
-/

set_option autoImplicit false

namespace TerminalMarkup

/-- What one half of a rule changes. `keep` names the targets that must not be
reset even where a baseline resets them. -/
structure Part where
  fg : Option Color := none
  bg : Option Color := none
  enable : List Attribute := []
  disable : List Attribute := []
  reset : Targets := Targets.none
  resetAttributes : List Attribute := []
  keep : Targets := Targets.none
deriving DecidableEq, Repr

inductive Edit where
  | fg (color : Color)
  | bg (color : Color)
  | enable (style : Attribute)
  | disable (style : Attribute)
  | reset (operand : Operand)
  | keep (targets : Targets)
deriving DecidableEq, Repr

namespace Part

def empty : Part := {}

def isEmpty (part : Part) : Bool :=
  part = empty

/-- A part with one more entry. A colour replaces the one before it, an
attribute joins its list unless it is there, and targets are united. -/
def edit (part : Part) : Edit → Part
  | .fg color => { part with fg := some color }
  | .bg color => { part with bg := some color }
  | .enable style => { part with enable := FirstSeen.add part.enable style }
  | .disable style => { part with disable := FirstSeen.add part.disable style }
  | .reset (.targets targets) => { part with reset := part.reset.union targets }
  | .reset (.style style) =>
    { part with resetAttributes := FirstSeen.add part.resetAttributes style }
  | .keep targets => { part with keep := part.keep.union targets }

def editAll (part : Part) (edits : List Edit) : Part :=
  edits.foldl edit part

/-- The attributes that a reset of the style group switches off: those that
the opened part switched on, or every attribute if it switched on none. -/
def styleGroup (opened : Part) : List Attribute :=
  if opened.enable = [] then Attribute.all else opened.enable

/-- The codes of a part before repetitions are removed. The style group is
that of the part with which the rule opened, and it spares the attributes
that this part switches on. -/
def codeSequence (part opened : Part) : List Code :=
  (if part.reset.all then [Code.resetAll] else []) ++
  (if part.reset.fg then [Code.defaultColor .foreground] else []) ++
  (if part.reset.bg then [Code.defaultColor .background] else []) ++
  (if part.reset.style then
    (opened.styleGroup.filter (· ∉ part.enable)).map (Code.ofAttribute · .off)
  else []) ++
  part.resetAttributes.map (Code.ofAttribute · .off) ++
  part.disable.map (Code.ofAttribute · .off) ++
  part.enable.map (Code.ofAttribute · .on) ++
  (part.fg.map (Code.ofColor · .foreground)).toList ++
  (part.bg.map (Code.ofColor · .background)).toList

/-- The codes of a part, each at its first place only. -/
def codes (part opened : Part) : List Code :=
  FirstSeen.distinct (part.codeSequence opened)

/-! ## Authored parts over a baseline -/

/-- An authored part merged over a baseline. No attribute is both switched on
and switched off, and nothing is kept any more. -/
def override (authored baseline : Part) : Part :=
  let kept := authored.keep.expand
  let united := (baseline.reset.expand.union authored.reset.expand).without kept
  let inherited := if kept.style then [] else baseline.disable
  let disable := FirstSeen.distinct
    ((inherited ++ authored.disable).filter (· ∉ authored.enable))
  let enable := FirstSeen.distinct
    ((baseline.enable ++ authored.enable).filter (· ∉ authored.disable))
  { fg := authored.fg.or baseline.fg
    bg := authored.bg.or baseline.bg
    enable := enable.filter (· ∉ disable)
    disable
    reset := if authored.disable = [] then united else united.without Targets.styles
    resetAttributes := FirstSeen.addAll baseline.resetAttributes authored.resetAttributes
    keep := Targets.none }

/-- The resets that undo an opened part: the style group if it switched an
attribute on, and each layer whose colour it set. -/
def undoing (opened : Part) : Part where
  reset :=
    { fg := opened.fg.isSome
      bg := opened.bg.isSome
      style := opened.enable ≠ [] }

/-- The part that undoes an opened part, with an authored part merged over
it. What the opened part switched off stays off. -/
def autoAfter (opened authored : Part) : Part :=
  authored.override opened.undoing

end Part

end TerminalMarkup
