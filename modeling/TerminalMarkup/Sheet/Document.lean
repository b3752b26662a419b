import TerminalMarkup.Markup.RuleSet
import TerminalMarkup.Sheet.Grammar
import TerminalMarkup.Sheet.Notice

/-!
Contract: what a rule sheet says.

A declaration makes edits to a part. One that cannot be read makes no edit and
gives one warning. In a keyword list each word stands for itself: an unreadable
word gives a warning and the others make their edits.

A sheet gives rule definitions and the settings of a rule set. A rule that is
defined again keeps its place and takes its last definition. Its blocks of
one name are read as one block. An item that cannot be read changes nothing.
-/

set_option autoImplicit false

namespace TerminalMarkup

/-! ## Edits of declarations -/

namespace Sheet

inductive Property where
  | fg
  | bg
  | enable
  | disable
  | reset
  | keep
deriving DecidableEq, Repr

namespace Property

def all : List Property := [fg, bg, enable, disable, reset, keep]

def name : Property → Text
  | fg => "fg".toList
  | bg => "bg".toList
  | enable => "enable".toList
  | disable => "disable".toList
  | reset => "reset".toList
  | keep => "keep".toList

def ofName? (name : Text) : Option Property :=
  all.find? fun property => property.name = name

end Property

/-- The edit of a colour property. -/
def readColor (context property text : Text) (edit : Color → Edit) : Reported (List Edit) :=
  match Reader.whole? Reader.color text with
  | some color => ⟨[edit color], []⟩
  | none => .warn [] (.invalidColor context text property)

/-- The edit of one word of a keyword list. -/
def readWord {Result : Type} (context property : Text)
    (ofWord : Text → Except ValueError Result) (edit : Result → Edit) (word : Text) :
    Reported (List Edit) :=
  match ofWord word with
  | .ok value => ⟨[edit value], []⟩
  | .error cause => .warn [] (.unreadableWord context word property cause)

def readWords {Result : Type} (context property text : Text)
    (ofWord : Text → Except ValueError Result) (edit : Result → Edit) :
    Reported (List Edit) :=
  match Reader.whole? Reader.words text with
  | some words => .flatMap words (readWord context property ofWord edit)
  | none => .warn [] (.malformedList context text property)

/-- The edits of a property with a bare value. -/
def readProperty (context text : Text) (property : Property) : Reported (List Edit) :=
  match property with
  | .fg => readColor context property.name text .fg
  | .bg => readColor context property.name text .bg
  | .enable => readWords context property.name text Attribute.ofWord .enable
  | .disable => readWords context property.name text Attribute.ofWord .disable
  | .reset => readWords context property.name text Operand.ofWord .reset
  | .keep => readWords context property.name text Targets.ofWord .keep

def readDeclaration (context : Text) (declaration : Declaration) : Reported (List Edit) :=
  match declaration.value with
  | .quoted contents => .warn [] (.quotedValue context contents declaration.property)
  | .bare text =>
    match Property.ofName? declaration.property with
    | some property => readProperty context text property
    | none => .warn [] (.unknownProperty context declaration.property)

def readDeclarations (context : Text) (declarations : List Declaration) :
    Reported (List Edit) :=
  .flatMap declarations (readDeclaration context)

end Sheet

/-! ## Sheets -/

/-- The definitions and the settings that a sheet gives. -/
structure Sheet where
  rules : Table Definition := Table.empty
  settings : Settings := {}
deriving DecidableEq, Repr

namespace Sheet

def get? (sheet : Sheet) (name : Text) : Option Definition :=
  sheet.rules.get? name

/-- Adds the edits of a block to a part, which is present from then on. -/
def editBlock (part : Option Part) (edits : List Edit) : Option Part :=
  some ((part.getD Part.empty).editAll edits)

/-- The definition of a rule after one more entry of its body. -/
def readEntry (rule : Text) (definition : Definition) : BodyEntry → Reported Definition
  | .declaration declaration =>
    (readDeclaration rule declaration).map fun edits =>
      { definition with fields := definition.fields.editAll edits }
  | .block name declarations =>
    if name = "inside".toList then
      (readDeclarations rule declarations).map fun edits =>
        { definition with inside := editBlock definition.inside edits }
    else if name = "after".toList then
      (readDeclarations rule declarations).map fun edits =>
        { definition with after := editBlock definition.after edits }
    else
      .warn definition (.unknownBlock rule name)

/-- The definition of a rule after some entries of its body. -/
def readBody (rule : Text) (definition : Definition) : List BodyEntry → Reported Definition
  | [] => ⟨definition, []⟩
  | entry :: rest =>
    (readEntry rule definition entry).andThen fun next => readBody rule next rest

def define (sheet : Sheet) (name : Text) (definition : Definition) : Reported Sheet :=
  { result := { sheet with rules := sheet.rules.insert name definition }
    notices := if sheet.rules.contains name then [.redefined name] else [] }

/-- The policy that an at-rule gives, if it can be read. -/
def readPolicy : AtBody → Reported (Option Policy)
  | .value (.bare text) =>
    match Policy.ofWord text with
    | .ok policy => ⟨some policy, []⟩
    | .error cause => .warn none (.unknownPolicy cause)
  | .value (.quoted contents) => .warn none (.quotedPolicy contents)
  | .block declarations =>
    (readDeclarations policyContext declarations).map fun edits =>
      some (.override (Part.empty.editAll edits))

def Value.text : Value → Text
  | .bare text => text
  | .quoted contents => contents

/-- The symbols after one declaration of the symbols block. -/
def readSymbol (symbols : Symbols) (declaration : Declaration) : Reported Symbols :=
  match SymbolRole.ofName? declaration.property with
  | some role => ⟨symbols.set role declaration.value.text, []⟩
  | none => .warn symbols (.unknownSymbol declaration.property)

/-- The symbols after some declarations of the symbols block. -/
def readSymbols (symbols : Symbols) : List Declaration → Reported Symbols
  | [] => ⟨symbols, []⟩
  | declaration :: rest =>
    (readSymbol symbols declaration).andThen fun next => readSymbols next rest

def withPolicy (sheet : Sheet) (policy : Policy) : Sheet :=
  { sheet with settings := { sheet.settings with policy } }

def withSymbols (sheet : Sheet) (symbols : Symbols) : Sheet :=
  { sheet with settings := { sheet.settings with symbols } }

def readAtRule (sheet : Sheet) (name : Text) (body : AtBody) : Reported Sheet :=
  if name = "after".toList then
    (readPolicy body).map fun policy => policy.elim sheet sheet.withPolicy
  else if name = "symbols".toList then
    match body with
    | .block declarations =>
      (readSymbols sheet.settings.symbols declarations).map sheet.withSymbols
    | .value _ => .warn sheet .symbolsWithoutBlock
  else
    .warn sheet (.unknownAtRule name)

def readItem (sheet : Sheet) : Item → Reported Sheet
  | .rule name body => (readBody name {} body).andThen fun definition => sheet.define name definition
  | .atRule name body => sheet.readAtRule name body

def readItems (sheet : Sheet) : List Item → Reported Sheet
  | [] => ⟨sheet, []⟩
  | item :: rest => (sheet.readItem item).andThen fun next => next.readItems rest

def ofItems (items : List Item) : Reported Sheet :=
  ({} : Sheet).readItems items

/-- A source ready for the grammar: comments are removed first, then the
definitions are collected and references are replaced. -/
def preprocess (source : Text) : Except SheetError Text :=
  resolveVariables (stripComments source) (extractVariables (stripComments source))

/-- Reads a sheet. The last notice tells how many rules it has and how many
variables it defines. -/
def parse (source : Text) : Except SheetError (Reported Sheet) := do
  let resolved ← preprocess source
  let reading := ofItems (← items resolved)
  let variableCount := (extractVariables (stripComments source)).size
  return {
    result := reading.result
    notices := reading.notices ++ [.finished reading.result.rules.size variableCount] }

def ruleSet (sheet : Sheet) : Except SheetError RuleSet :=
  (RuleSet.build sheet.rules.entries sheet.settings).mapError .rule

/-- Reads a sheet from what its file holds, if there is a file. -/
def parseFile : Option (List UInt8) → Except SheetError (Reported Sheet)
  | none => .error (.file .notFound)
  | some bytes =>
    match Text.decode? bytes with
    | none => .error (.file .invalidData)
    | some source => parse source

end Sheet

end TerminalMarkup
