import TerminalMarkup.Sgr.Value

/-!
Contract: the codes of terminal control sequences and what they do to a
terminal.

A code is one parameter of the sequence that sets graphic rendition. A colour
outside the eight base colours takes one code of several fields. Each code is
written in a control sequence of its own.

A terminal has a colour or the default on each layer, and each attribute is
on or off. `Terminal.receive` is the meaning of one code: it resets
everything, or changes one layer or one attribute, or does nothing.
-/

set_option autoImplicit false

namespace TerminalMarkup

/-- One code: a single number, or the fields of a compound. -/
inductive Code where
  | single (value : UInt8)
  | compound (fields : List UInt8)
deriving DecidableEq, Repr

namespace Code

/-- The numbers of which a code consists. -/
def fields : Code → List UInt8
  | single value => [value]
  | compound fields => fields

/-- A code in decimal digits, with semicolons between its fields. -/
def text (code : Code) : Text :=
  List.intercalate [';'] (code.fields.map fun field => Text.ofNat field.toNat)

/-- The control sequence that gives one code to the terminal. -/
def sequence (code : Code) : Text :=
  '\x1b' :: '[' :: (code.text ++ ['m'])

def resetAll : Code := single 0

def defaultColor : Layer → Code
  | .foreground => single 39
  | .background => single 49

/-- What is added to the offset of a layer for a colour of several fields. -/
def extendedOffset : UInt8 := 8

/-- The field that announces a palette index. -/
def indexedMode : UInt8 := 5

/-- The field that announces a red, green and blue triple. -/
def rgbMode : UInt8 := 2

def ofColor (color : Color) (layer : Layer) : Code :=
  match color with
  | .base base => single (layer.offset + base.value)
  | .indexed index => compound [layer.offset + extendedOffset, indexedMode, index]
  | .rgb red green blue =>
    compound [layer.offset + extendedOffset, rgbMode, red, green, blue]

def ofAttribute (style : Attribute) (switch : Switch) : Code :=
  single (switch.offset + style.value)

/-- The code of one reset entry. Only the three targets that stand alone have
one, and an attribute is switched off. -/
def ofOperand? : Operand → Option Code
  | .style style => some (ofAttribute style .off)
  | .targets group =>
    if group = Targets.everything then some resetAll
    else if group = Targets.foreground then some (defaultColor .foreground)
    else if group = Targets.background then some (defaultColor .background)
    else none

end Code

/-- The control sequences of a list of codes, in order. -/
def escapeSequence (codes : List Code) : Text :=
  codes.flatMap Code.sequence

@[simp]
theorem escapeSequence_nil : escapeSequence [] = [] := rfl

@[simp]
theorem escapeSequence_append (front back : List Code) :
    escapeSequence (front ++ back) = escapeSequence front ++ escapeSequence back := by
  simp [escapeSequence]

/-! ## Terminals -/

/-- The colour that a code sets on a layer. -/
def Code.colorOn? (layer : Layer) : Code → Option Color
  | .single value =>
    (BaseColor.all.find? fun base => layer.offset + base.value = value).map Color.base
  | .compound [selector, mode, index] =>
    if selector = layer.offset + extendedOffset ∧ mode = indexedMode then
      some (.indexed index)
    else none
  | .compound [selector, mode, red, green, blue] =>
    if selector = layer.offset + extendedOffset ∧ mode = rgbMode then
      some (.rgb red green blue)
    else none
  | .compound _ => none

/-- The styling in force at a terminal. A layer without a colour has its
default. -/
@[ext]
structure Terminal where
  color : Layer → Option Color
  isOn : Attribute → Bool

namespace Terminal

/-- The terminal with default colours and every attribute off. -/
def initial : Terminal where
  color := fun _ => none
  isOn := fun _ => false

def receive (terminal : Terminal) (code : Code) : Terminal :=
  if code = Code.resetAll then initial
  else {
    color := fun layer =>
      if code = Code.defaultColor layer then none
      else (code.colorOn? layer).or (terminal.color layer)
    isOn := fun style =>
      if code = Code.ofAttribute style .on then true
      else if code = Code.ofAttribute style .off then false
      else terminal.isOn style }

def run (terminal : Terminal) (codes : List Code) : Terminal :=
  codes.foldl receive terminal

@[simp]
theorem run_nil (terminal : Terminal) : terminal.run [] = terminal := rfl

@[simp]
theorem run_cons (terminal : Terminal) (code : Code) (rest : List Code) :
    terminal.run (code :: rest) = (terminal.receive code).run rest := rfl

@[simp]
theorem run_append (terminal : Terminal) (front back : List Code) :
    terminal.run (front ++ back) = (terminal.run front).run back := by
  simp [run]

@[simp]
theorem receive_resetAll (terminal : Terminal) :
    terminal.receive Code.resetAll = initial := by
  simp [receive]

end Terminal

end TerminalMarkup
