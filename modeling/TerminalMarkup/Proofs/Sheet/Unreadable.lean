import TerminalMarkup.Sheet.Document

/-!
Contract: the constructs of a sheet that cannot be read.

A construct is something that is read or left out on its own, from an at-rule
down to a word of a keyword list. `Construct.isReadable` says which constructs
are readable, without regard to what reading them does. What stands inside an
unreadable construct is left out with it and is not counted (`orNested`), so
`unreadable` lists each cause once, in the order of the sheet.
-/

set_option autoImplicit false

namespace TerminalMarkup.Sheet

/-! ## Values -/

namespace Property

/-- Whether a property takes a keyword list; the others take a colour. -/
def isList : Property → Bool
  | fg | bg => false
  | enable | disable | reset | keep => true

/-- Whether a word names a value of the type of a property. -/
def names (property : Property) (word : Text) : Bool :=
  match property with
  | fg | bg => (Color.ofWord word).isOk
  | enable | disable => (Attribute.ofWord word).isOk
  | reset => (Operand.ofWord word).isOk
  | keep => (Targets.ofWord word).isOk

/-- Whether a bare text is a colour or a keyword list, as the property takes it.
The words of the list may be unreadable. -/
def admits (property : Property) (text : Text) : Bool :=
  if property.isList then (Reader.whole? Reader.words text).isSome
  else (Reader.whole? Reader.color text).isSome

/-- Why a word names no value of a property. -/
def refusal (property : Property) (word : Text) : ValueError :=
  match property with
  | fg | bg => .unknownColor word
  | enable | disable => .unknownAttribute word
  | reset | keep => .unknownReset word

end Property

/-- The property and the words of a declaration with a keyword list. -/
def Declaration.list? (declaration : Declaration) : Option (Property × List Text) :=
  match declaration.value, Property.ofName? declaration.property with
  | .bare text, some property =>
    if property.isList then (Reader.whole? Reader.words text).map (property, ·) else none
  | _, _ => none

/-! ## Constructs -/

/-- A construct of a sheet. The context is the name of the rule, or of the
at-rule, in which it stands. -/
inductive Construct where
  | atRule (name : Text)
  | policy (value : Value)
  | symbols (body : AtBody)
  | symbol (declaration : Declaration)
  | block (rule name : Text)
  | declaration (context : Text) (declaration : Declaration)
  | word (context : Text) (property : Property) (word : Text)
deriving DecidableEq, Repr

namespace Construct

def isReadable : Construct → Bool
  | .atRule name => name = "after".toList || name = "symbols".toList
  | .policy (.bare text) => (Policy.ofWord text).isOk
  | .policy (.quoted _) => false
  | .symbols (.block _) => true
  | .symbols (.value _) => false
  | .symbol given =>
    given.property = "open".toList || given.property = "close".toList ||
      given.property = "reset".toList
  | .block _ name => name = "inside".toList || name = "after".toList
  | .declaration _ ⟨_, .quoted _⟩ => false
  | .declaration _ ⟨property, .bare text⟩ => (Property.ofName? property).any (·.admits text)
  | .word _ property text => property.names text

/-- What is said of a construct that cannot be read. -/
def warning : Construct → Warning
  | .atRule name => .unknownAtRule name
  | .policy (.bare text) => .unknownPolicy (.unknownPolicy (Text.trim text))
  | .policy (.quoted contents) => .quotedPolicy contents
  | .symbols _ => .symbolsWithoutBlock
  | .symbol given => .unknownSymbol given.property
  | .block rule name => .unknownBlock rule name
  | .declaration context ⟨property, .quoted contents⟩ => .quotedValue context contents property
  | .declaration context ⟨property, .bare text⟩ =>
    match Property.ofName? property with
    | none => .unknownProperty context property
    | some known =>
      if known.isList then .malformedList context text property
      else .invalidColor context text property
  | .word context property text =>
    .unreadableWord context text property.name (property.refusal text)

/-- A construct that cannot be read, or else what cannot be read inside it. -/
def orNested (construct : Construct) (nested : List Construct) : List Construct :=
  if construct.isReadable then nested else [construct]

end Construct

/-! ## What cannot be read -/

def Declaration.unreadable (context : Text) (declaration : Declaration) : List Construct :=
  (Construct.declaration context declaration).orNested <|
    declaration.list?.elim [] fun (property, words) =>
      words.flatMap fun word => (Construct.word context property word).orNested []

def BodyEntry.unreadable (rule : Text) : BodyEntry → List Construct
  | .declaration given => given.unreadable rule
  | .block name declarations =>
    (Construct.block rule name).orNested (declarations.flatMap (·.unreadable rule))

/-- What cannot be read in what the at-rule for the policy gives. -/
def AtBody.unreadablePolicy : AtBody → List Construct
  | .value given => (Construct.policy given).orNested []
  | .block declarations => declarations.flatMap (·.unreadable policyContext)

/-- What cannot be read in what the at-rule for the symbols gives. -/
def AtBody.unreadableSymbols (body : AtBody) : List Construct :=
  (Construct.symbols body).orNested <|
    match body with
    | .value _ => []
    | .block declarations =>
      declarations.flatMap fun declaration => (Construct.symbol declaration).orNested []

def Item.unreadable : Item → List Construct
  | .rule name body => body.flatMap (·.unreadable name)
  | .atRule name body =>
    (Construct.atRule name).orNested <|
      if name = "after".toList then body.unreadablePolicy else body.unreadableSymbols

/-- The constructs of a sheet that cannot be read, in order. -/
def unreadable (items : List Item) : List Construct :=
  items.flatMap Item.unreadable

end TerminalMarkup.Sheet
