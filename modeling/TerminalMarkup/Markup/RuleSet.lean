import TerminalMarkup.Markup.Location
import TerminalMarkup.Table

/-!
Contract: rule sets and the rendering of tokens.

A rule set is built from a list of named definitions. Of several definitions
of one name the last one counts, but each of them must be valid. A definition
under the name of the reset rule takes the place of the built-in one, and no
policy completes it. A set that was built does not change.

Rendering keeps the stack of open rules. When a rule closes, its after codes
are written and then the inside codes of every rule that is still open,
outermost first, so that the styling of the rules still open always wins. A
token that cannot act, such as a closing mark with nothing open, writes
nothing.
-/

set_option autoImplicit false

namespace TerminalMarkup

/-- How a rule set is built: the policy for closing parts, and the symbols. -/
structure Settings where
  policy : Policy := .auto
  symbols : Symbols := {}
deriving DecidableEq, Repr

/-- Compiled rules under their names, the rule of the reset symbol, and the
settings of the set. -/
structure RuleSet where
  ordinary : Table CompiledRule
  resetRule : CompiledRule
  settings : Settings
deriving DecidableEq, Repr

/-- The name of the rule of the reset symbol. -/
def resetName : Text := "reset".toList

/-- The definition of the reset rule unless another is given: it resets
everything when it closes. -/
def builtinReset : Definition :=
  { after := some { reset := Targets.everything } }

/-- A rule set under construction. -/
structure Draft where
  ordinary : Table CompiledRule := Table.empty
  resetDefinition : Definition := builtinReset
deriving DecidableEq, Repr

def Draft.define (policy : Policy) (draft : Draft) (name : Text)
    (definition : Definition) : Except RuleError Draft :=
  if name = [] then .error .emptyName
  else if name = resetName then do
    definition.validate name
    return { draft with resetDefinition := definition }
  else do
    let rule ← definition.compile name policy
    return { draft with ordinary := draft.ordinary.insert name rule }

/-- The draft after a list of definitions, or the first error among them. -/
def Draft.defineAll (policy : Policy) (draft : Draft) :
    List (Text × Definition) → Except RuleError Draft
  | [] => .ok draft
  | (name, definition) :: rest => do
    let next ← draft.define policy name definition
    next.defineAll policy rest

namespace RuleSet

/-- Builds a rule set. The symbols are checked first, then the definitions in
their order. -/
def build (definitions : List (Text × Definition)) (settings : Settings := {}) :
    Except RuleError RuleSet := do
  settings.symbols.validate
  let draft ← ({} : Draft).defineAll settings.policy definitions
  return {
    ordinary := draft.ordinary
    resetRule := draft.resetDefinition.compiled .keep
    settings }

def get? (rules : RuleSet) (name : Text) : Option CompiledRule :=
  if name = resetName then some rules.resetRule else rules.ordinary.get? name

/-- The names of all rules, the reset rule included, in ascending order. -/
def names (rules : RuleSet) : List Text :=
  SortedNames.ofList (resetName :: rules.ordinary.names)

def size (rules : RuleSet) : Nat :=
  rules.names.length

def isEmpty (rules : RuleSet) : Bool :=
  rules.names.isEmpty

def markers (rules : RuleSet) : MarkerSet :=
  MarkerSet.build rules.settings.symbols rules.names

def scan (rules : RuleSet) (text : Text) : List Token :=
  rules.markers.tokenize text

end RuleSet

/-! ## Rendering -/

/-- What rendering writes for a token: literal text, or codes. -/
inductive Emission where
  | text (literal : Text)
  | codes (sequence : List Code)
deriving DecidableEq, Repr

/-- Whether codes are written or left out. -/
inductive Rendition where
  | styled
  | plain
deriving DecidableEq, Repr

def Emission.written (rendition : Rendition) : Emission → Text
  | .text literal => literal
  | .codes sequence =>
    match rendition with
    | .styled => escapeSequence sequence
    | .plain => []

/-- The open rules, innermost first. -/
abbrev OpenRules := List CompiledRule

namespace RuleSet

/-- The open rules after a token, and what is written for it. -/
def step (rules : RuleSet) (stack : OpenRules) : Token → OpenRules × List Emission
  | .text literal => (stack, [.text literal])
  | .opening name =>
    match rules.get? name with
    | some rule => (rule :: stack, [.codes rule.inside])
    | none => (stack, [])
  | .closing =>
    match stack with
    | [] => ([], [])
    | rule :: outer =>
      (outer, .codes rule.after :: outer.reverse.map fun enclosing => .codes enclosing.inside)
  | .reset => ([], [.codes rules.resetRule.after])

/-- What is written for a list of tokens, beginning with some open rules. -/
def emissions (rules : RuleSet) (stack : OpenRules) : List Token → List Emission
  | [] => []
  | token :: rest =>
    (rules.step stack token).2 ++ rules.emissions (rules.step stack token).1 rest

def render (rules : RuleSet) (rendition : Rendition) (tokens : List Token) : Text :=
  (rules.emissions [] tokens).flatMap (Emission.written rendition)

def renderText (rules : RuleSet) (rendition : Rendition) (text : Text) : Text :=
  rules.render rendition (rules.scan text)

/-- A text with its markup expanded into control sequences. -/
def apply (rules : RuleSet) (text : Text) : Text :=
  rules.renderText .styled text

/-- A text with its markup removed. -/
def strip (rules : RuleSet) (text : Text) : Text :=
  rules.renderText .plain text

end RuleSet

end TerminalMarkup
