import TerminalMarkup.Text.Character

/-!
Contract: the values that words of a definition name: terminal colours, text
attributes and reset targets.

A colour is one of the eight base colours, an entry of the 256-colour palette
or a red, green and blue triple, and it goes on one of two layers. An attribute
is either on or off. A set of targets keeps `all` as a member of its own, so
that a reset of everything can still be written as one code; `expand` replaces
it by the three members for which it stands.

Words are read without regard to case and to surrounding white space. Each
constructor of `ValueError` is one cause for which a word is refused and keeps
the text at fault as it was given. The codes that select a value are owned by
`Sgr.Code`.
-/

set_option autoImplicit false

namespace TerminalMarkup

/-! ## Refused words -/

/-- The causes for which a word or a list of components is refused. -/
inductive ValueError where
  | unknownColor (word : Text)
  | unknownAttribute (word : Text)
  | unknownReset (word : Text)
  | componentCount (count : Nat)
  | paletteIndex (word : Text)
  | unknownPolicy (word : Text)
deriving DecidableEq, Repr

def ValueError.message : ValueError → Text
  | .unknownColor word => "unknown color: ".toList ++ word
  | .unknownAttribute word => "unknown style attribute: ".toList ++ word
  | .unknownReset word => "unknown reset target: ".toList ++ word
  | .componentCount count =>
    "color sequences take 1 or 3 components, got ".toList ++ Text.ofNat count
  | .paletteIndex word => "invalid color component: ".toList ++ word
  | .unknownPolicy word => "unknown after policy: ".toList ++ word

/-! ## Colours and layers -/

inductive BaseColor where
  | black
  | red
  | green
  | yellow
  | blue
  | magenta
  | cyan
  | white
deriving DecidableEq, Repr

namespace BaseColor

def all : List BaseColor :=
  [black, red, green, yellow, blue, magenta, cyan, white]

/-- The place of a base colour in the palette. -/
def value : BaseColor → UInt8
  | black => 0
  | red => 1
  | green => 2
  | yellow => 3
  | blue => 4
  | magenta => 5
  | cyan => 6
  | white => 7

def name : BaseColor → Text
  | black => "black".toList
  | red => "red".toList
  | green => "green".toList
  | yellow => "yellow".toList
  | blue => "blue".toList
  | magenta => "magenta".toList
  | cyan => "cyan".toList
  | white => "white".toList

def ofWord (word : Text) : Except ValueError BaseColor :=
  match all.find? fun color => color.name = Text.lower (Text.trim word) with
  | some color => .ok color
  | none => .error (.unknownColor word)

end BaseColor

/-- The two layers of a character cell that have a colour. -/
inductive Layer where
  | foreground
  | background
deriving DecidableEq, Repr

/-- The code of the first base colour on a layer. -/
def Layer.offset : Layer → UInt8
  | .foreground => 30
  | .background => 40

/-- A colour as a rule definition gives it. -/
inductive Color where
  | base (color : BaseColor)
  | indexed (index : UInt8)
  | rgb (red green blue : UInt8)
deriving DecidableEq, Repr

namespace Color

/-- One component selects a palette entry and three select a triple. -/
def ofComponents : List UInt8 → Except ValueError Color
  | [index] => .ok (.indexed index)
  | [red, green, blue] => .ok (.rgb red green blue)
  | components => .error (.componentCount components.length)

/-- The colour that a word names: a palette index in decimal digits, or the
name of a base colour. -/
def ofWord (word : Text) : Except ValueError Color :=
  let trimmed := Text.trim word
  if trimmed ≠ [] ∧ trimmed.all Text.isDigit then
    match Text.byte? trimmed with
    | some index => .ok (.indexed index)
    | none => .error (.paletteIndex trimmed)
  else
    match BaseColor.ofWord trimmed with
    | .ok color => .ok (.base color)
    | .error cause => .error cause

end Color

/-! ## Attributes -/

/-- The attributes of text that can be switched on and off. -/
inductive Attribute where
  | bold
  | dim
  | italic
  | underline
  | inverse
  | hidden
  | strikethrough
deriving DecidableEq, Repr

namespace Attribute

def all : List Attribute :=
  [bold, dim, italic, underline, inverse, hidden, strikethrough]

/-- The code that switches an attribute on. -/
def value : Attribute → UInt8
  | bold => 1
  | dim => 2
  | italic => 3
  | underline => 4
  | inverse => 7
  | hidden => 8
  | strikethrough => 9

def name : Attribute → Text
  | bold => "bold".toList
  | dim => "dim".toList
  | italic => "italic".toList
  | underline => "underline".toList
  | inverse => "inverse".toList
  | hidden => "hidden".toList
  | strikethrough => "strikethrough".toList

/-- The words for an attribute: its name, and a second word for two of them. -/
def words (style : Attribute) : List Text :=
  match style with
  | bold => [style.name, "intense".toList]
  | dim => [style.name, "dark".toList]
  | _ => [style.name]

def ofWord (word : Text) : Except ValueError Attribute :=
  match all.find? fun style => Text.lower (Text.trim word) ∈ style.words with
  | some style => .ok style
  | none => .error (.unknownAttribute word)

theorem mem_all (style : Attribute) : style ∈ all := by
  cases style <;> decide

end Attribute

/-- Whether an attribute is switched on or off. -/
inductive Switch where
  | on
  | off
deriving DecidableEq, Repr

/-- What a switch adds to the value of an attribute. -/
def Switch.offset : Switch → UInt8
  | .on => 0
  | .off => 20

/-! ## Reset targets -/

/-- A set of reset targets. -/
structure Targets where
  all : Bool := false
  fg : Bool := false
  bg : Bool := false
  style : Bool := false
deriving DecidableEq, Repr

namespace Targets

def none : Targets := {}

/-- The set whose one member stands for everything. -/
def everything : Targets := { all := true }

def foreground : Targets := { fg := true }

def background : Targets := { bg := true }

/-- The attributes alone, as one group. -/
def styles : Targets := { style := true }

def union (left right : Targets) : Targets where
  all := left.all || right.all
  fg := left.fg || right.fg
  bg := left.bg || right.bg
  style := left.style || right.style

/-- The members of the first set that the second one lacks. -/
def without (left right : Targets) : Targets where
  all := left.all && !right.all
  fg := left.fg && !right.fg
  bg := left.bg && !right.bg
  style := left.style && !right.style

def isEmpty (targets : Targets) : Bool :=
  targets = none

/-- Replaces the member for everything by the three that it stands for. -/
def expand (targets : Targets) : Targets where
  all := false
  fg := targets.fg || targets.all
  bg := targets.bg || targets.all
  style := targets.style || targets.all

def ofWord (word : Text) : Except ValueError Targets :=
  let lowered := Text.lower (Text.trim word)
  if lowered = "all".toList then .ok everything
  else if lowered = "fg".toList then .ok foreground
  else if lowered = "bg".toList then .ok background
  else if lowered = "style".toList then .ok styles
  else .error (.unknownReset word)

end Targets

/-- An entry of a reset list: targets, or an attribute to switch off. -/
inductive Operand where
  | targets (group : Targets)
  | style (single : Attribute)
deriving DecidableEq, Repr

/-- The reset operand that a word names. The words of targets come before the
words of attributes. -/
def Operand.ofWord (word : Text) : Except ValueError Operand :=
  match Targets.ofWord word with
  | .ok group => .ok (.targets group)
  | .error _ =>
    match Attribute.ofWord word with
    | .ok single => .ok (.style single)
    | .error _ => .error (.unknownReset word)

end TerminalMarkup
