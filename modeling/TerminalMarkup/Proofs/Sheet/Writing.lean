import TerminalMarkup.Proofs.Sheet.Spelling

/-!
Contract: how rules and settings are written as a sheet.

A sheet is written as an at-rule for the policy, a block of the three symbols
and a block for each rule. A part is written as one declaration for each
property that it gives, in any order; a part that is present but gives nothing
is an empty block. `Sheet.Written` relates a sheet to all its sources, with
free white space. `Sheet.Writable` says which sheets can be read back from
them; the reading itself is not owned here.
-/

set_option autoImplicit false

namespace TerminalMarkup

/-! ## Names -/

/-- The things that the words of a reset or a keep can stand for together. -/
inductive Target where
  | all
  | fg
  | bg
  | style
deriving DecidableEq, Repr

namespace Target

def members : List Target := [all, fg, bg, style]

def word : Target → Text
  | all => "all".toList
  | fg => "fg".toList
  | bg => "bg".toList
  | style => "style".toList

/-- The set of one target. -/
def group : Target → Targets
  | all => Targets.everything
  | fg => Targets.foreground
  | bg => Targets.background
  | style => Targets.styles

theorem mem_members (target : Target) : target ∈ members := by
  cases target <;> decide

end Target

namespace Targets

def has (targets : Targets) : Target → Bool
  | .all => targets.all
  | .fg => targets.fg
  | .bg => targets.bg
  | .style => targets.style

/-- Sets of targets are equal when they have the same targets. -/
theorem ext_has {left right : Targets} (same : ∀ target, left.has target = right.has target) :
    left = right := by
  obtain ⟨all, fg, bg, style⟩ := left
  have sameAll : all = right.all := same .all
  have sameFg : fg = right.fg := same .fg
  have sameBg : bg = right.bg := same .bg
  have sameStyle : style = right.style := same .style
  rw [sameAll, sameFg, sameBg, sameStyle]

theorem exists_has {targets : Targets} (present : targets ≠ none) :
    ∃ target, targets.has target := by
  by_contra absent
  apply present
  apply ext_has
  intro target
  have lacks : targets.has target = false :=
    eq_false_of_ne_true fun has => absent ⟨target, has⟩
  rw [lacks]
  cases target <;> rfl

end Targets

/-- The word for a policy, unless it starts from a given part. -/
def Policy.word? : Policy → Option Text
  | .auto => some "auto".toList
  | .reset => some "reset".toList
  | .keep => some "keep".toList
  | .override _ => none

namespace Sheet

open Lexeme

/-- An entry of a reset list: a target, or an attribute. -/
inductive ResetEntry where
  | target (member : Target)
  | style (single : Attribute)
deriving DecidableEq, Repr

namespace ResetEntry

def target? : ResetEntry → Option Target
  | target member => some member
  | style _ => none

def style? : ResetEntry → Option Attribute
  | target _ => none
  | style single => some single

def words : ResetEntry → List Text
  | target member => [member.word]
  | style single => single.words

end ResetEntry

/-! ## Values -/

/-- Words in a row, with a comma or only white space between two of them. -/
inductive WritesWords : List Text → List Lexeme → Prop where
  | single {text : Text} : WritesWords [text] [word text]
  | comma {text : Text} {texts : List Text} {lexemes : List Lexeme}
      (others : WritesWords texts lexemes) :
      WritesWords (text :: texts) (word text :: mark ',' :: lexemes)
  | space {text : Text} {texts : List Text} {lexemes : List Lexeme}
      (others : WritesWords texts lexemes) :
      WritesWords (text :: texts) (word text :: lexemes)

/-- Things in a row, each by one of its words. -/
def WritesNames {Item : Type} (words : Item → List Text) (items : List Item)
    (lexemes : List Lexeme) : Prop :=
  ∃ texts, List.Forall₂ (fun item text => text ∈ words item) items texts ∧
    WritesWords texts lexemes

/-- A colour is a name, the decimal number of a palette entry, or components in
brackets. -/
inductive WritesColor : Color → List Lexeme → Prop where
  | base {color : BaseColor} : WritesColor (.base color) [word color.name]
  | indexed {index : UInt8} : WritesColor (.indexed index) [word (Text.ofNat index.toNat)]
  | bracketed {values : List UInt8} {color : Color} {lexemes : List Lexeme}
      (named : Color.ofComponents values = .ok color)
      (listed : WritesWords (values.map fun value => Text.ofNat value.toNat) lexemes) :
      WritesColor color (mark '[' :: (lexemes ++ [mark ']']))

/-- The value of one property of a part. -/
inductive WritesValue (part : Part) : Property → List Lexeme → Prop where
  | fg {color : Color} {lexemes : List Lexeme} (given : part.fg = some color)
      (written : WritesColor color lexemes) : WritesValue part .fg lexemes
  | bg {color : Color} {lexemes : List Lexeme} (given : part.bg = some color)
      (written : WritesColor color lexemes) : WritesValue part .bg lexemes
  | enable {lexemes : List Lexeme}
      (named : WritesNames Attribute.words part.enable lexemes) :
      WritesValue part .enable lexemes
  | disable {lexemes : List Lexeme}
      (named : WritesNames Attribute.words part.disable lexemes) :
      WritesValue part .disable lexemes
  | reset {entries : List ResetEntry} {lexemes : List Lexeme}
      (styles : entries.filterMap ResetEntry.style? = part.resetAttributes)
      (targets : ∀ target, target ∈ entries.filterMap ResetEntry.target? ↔
        part.reset.has target)
      (named : WritesNames ResetEntry.words entries lexemes) :
      WritesValue part .reset lexemes
  | keep {targets : List Target} {lexemes : List Lexeme}
      (exactly : ∀ target, target ∈ targets ↔ part.keep.has target)
      (named : WritesNames (fun target => [target.word]) targets lexemes) :
      WritesValue part .keep lexemes

/-! ## Parts and rules -/

/-- Whether a part gives anything for a property. -/
def Gives (part : Part) : Property → Prop
  | .fg => part.fg.isSome
  | .bg => part.bg.isSome
  | .enable => part.enable ≠ []
  | .disable => part.disable ≠ []
  | .reset => part.reset ≠ Targets.none ∨ part.resetAttributes ≠ []
  | .keep => part.keep ≠ Targets.none

instance (part : Part) : (property : Property) → Decidable (Gives part property)
  | .fg => inferInstanceAs (Decidable (part.fg.isSome = true))
  | .bg => inferInstanceAs (Decidable (part.bg.isSome = true))
  | .enable => inferInstanceAs (Decidable (part.enable ≠ []))
  | .disable => inferInstanceAs (Decidable (part.disable ≠ []))
  | .reset => inferInstanceAs (Decidable (part.reset ≠ Targets.none ∨ part.resetAttributes ≠ []))
  | .keep => inferInstanceAs (Decidable (part.keep ≠ Targets.none))

/-- A property with its value. -/
def assign (name : Text) (value : List Lexeme) : List Lexeme :=
  word name :: mark ':' :: (value ++ [mark ';'])

/-- Lexemes between braces, with an opening lexeme before them. -/
def block (opening : Lexeme) (inner : List Lexeme) : List Lexeme :=
  opening :: mark '\x7b' :: (inner ++ [mark '\x7d'])

/-- The declarations of some properties of a part, one after another. -/
inductive WritesDeclarations (part : Part) : List Property → List Lexeme → Prop where
  | nil : WritesDeclarations part [] []
  | cons {property : Property} {properties : List Property} {value lexemes : List Lexeme}
      (written : WritesValue part property value)
      (others : WritesDeclarations part properties lexemes) :
      WritesDeclarations part (property :: properties) (assign property.name value ++ lexemes)

/-- A part is written by declaring once each property that it gives. -/
def WritesPart (part : Part) (lexemes : List Lexeme) : Prop :=
  ∃ properties : List Property, properties.Nodup ∧
    (∀ property, property ∈ properties ↔ Gives part property) ∧
    WritesDeclarations part properties lexemes

/-- A part of a rule is written as a block if it is present. -/
inductive WritesBlock (name : Text) : Option Part → List Lexeme → Prop where
  | absent : WritesBlock name none []
  | present {part : Part} {lexemes : List Lexeme} (written : WritesPart part lexemes) :
      WritesBlock name (some part) (block (word name) lexemes)

inductive WritesRule (name : Text) (definition : Definition) : List Lexeme → Prop where
  | intro {fields inside after : List Lexeme}
      (fieldsWritten : WritesPart definition.fields fields)
      (insideWritten : WritesBlock "inside".toList definition.inside inside)
      (afterWritten : WritesBlock "after".toList definition.after after) :
      WritesRule name definition (block (word name) (fields ++ (inside ++ after)))

/-! ## Sheets -/

inductive WritesPolicy : Policy → List Lexeme → Prop where
  | named {policy : Policy} {text : Text} (name : policy.word? = some text) :
      WritesPolicy policy [title "after".toList, mark ':', word text, mark ';']
  | given {baseline : Part} {lexemes : List Lexeme} (written : WritesPart baseline lexemes) :
      WritesPolicy (.override baseline) (block (title "after".toList) lexemes)

/-- The three symbols are written in one block, in any order. -/
inductive WritesSymbols (symbols : Symbols) : List Lexeme → Prop where
  | intro {roles : List SymbolRole} (each : roles.Perm SymbolRole.all) :
      WritesSymbols symbols (block (title "symbols".toList)
        (roles.flatMap fun role => assign role.name [string (symbols.get role)]))

/-- What one item of a sheet is written for. -/
inductive Entry where
  | policy
  | symbols
  | rule (name : Text) (definition : Definition)
deriving DecidableEq, Repr

def Entry.rule? : Entry → Option (Text × Definition)
  | policy => none
  | symbols => none
  | rule name definition => some (name, definition)

def WritesEntry (settings : Settings) : Entry → List Lexeme → Prop
  | .policy, lexemes => WritesPolicy settings.policy lexemes
  | .symbols, lexemes => WritesSymbols settings.symbols lexemes
  | .rule name definition, lexemes => WritesRule name definition lexemes

/-- A sheet is written as one item for the policy, one for the symbols and one
for each rule, with the rules in their order. -/
inductive WritesSheet (sheet : Sheet) : List Lexeme → Prop where
  | intro {entries : List Entry} {pieces : List (List Lexeme)}
      (rules : entries.filterMap Entry.rule? = sheet.rules.entries)
      (policy : entries.count .policy = 1)
      (symbols : entries.count .symbols = 1)
      (written : List.Forall₂ (WritesEntry sheet.settings) entries pieces) :
      WritesSheet sheet pieces.flatten

/-- A source is a sheet written with any white space between its lexemes. -/
def Written (sheet : Sheet) (source : Text) : Prop :=
  ∃ lexemes, WritesSheet sheet lexemes ∧ Spelled source lexemes

/-! ## Sheets that can be written -/

/-- No list of a part has an attribute twice. -/
structure Unrepeated (part : Part) : Prop where
  enable : part.enable.Nodup
  disable : part.disable.Nodup
  resetAttributes : part.resetAttributes.Nodup

instance (part : Part) : Decidable (Unrepeated part) :=
  decidable_of_iff (part.enable.Nodup ∧ part.disable.Nodup ∧ part.resetAttributes.Nodup)
    ⟨fun ⟨enable, disable, resetAttributes⟩ => ⟨enable, disable, resetAttributes⟩,
      fun ⟨enable, disable, resetAttributes⟩ => ⟨enable, disable, resetAttributes⟩⟩

/-- The sheets that can be read back from what is written: the names of their
rules are distinct words, their parts have lists without repetitions, and their
symbols have no quotation mark and no line feed. -/
structure Writable (sheet : Sheet) : Prop where
  distinct : sheet.rules.names.Nodup
  named : ∀ entry ∈ sheet.rules.entries, IsWord entry.1
  fields : ∀ entry ∈ sheet.rules.entries, Unrepeated entry.2.fields
  inside : ∀ entry ∈ sheet.rules.entries, ∀ part ∈ entry.2.inside, Unrepeated part
  after : ∀ entry ∈ sheet.rules.entries, ∀ part ∈ entry.2.after, Unrepeated part
  baseline : ∀ part, sheet.settings.policy = .override part → Unrepeated part
  symbols : ∀ role, '"' ∉ sheet.settings.symbols.get role ∧
    '\n' ∉ sheet.settings.symbols.get role

end Sheet

end TerminalMarkup
