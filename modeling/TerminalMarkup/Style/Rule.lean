import TerminalMarkup.Style.Part

/-!
Contract: rules, from what an author gives to the codes for opening and closing.

A definition gives the part with which a rule opens, either as top-level
fields or as an explicit inside part, and optionally the part with which it
closes. The two ways to give the inside part exclude each other; `validate`
refuses a definition that has both.

`Definition.closingPart` completes the closing part by the policy for what a
rule leaves behind. A compiled rule holds the codes for its opening and those
for its closing. The rule of the reset symbol is compiled under the keep
policy, so that its after part is taken as written.

Each constructor of `RuleError` is one cause for which a rule set cannot be
built, and `RuleError.message` owns the wording. Delimiters are named by what
they are for.
-/

set_option autoImplicit false

namespace TerminalMarkup

/-! ## Refused rules -/

/-- The three delimiters of markup, by what they are for. -/
inductive SymbolRole where
  | opening
  | closing
  | reset
deriving DecidableEq, Repr

namespace SymbolRole

def all : List SymbolRole := [opening, closing, reset]

def name : SymbolRole → Text
  | opening => "open".toList
  | closing => "close".toList
  | reset => "reset".toList

def ofName? (word : Text) : Option SymbolRole :=
  all.find? fun role => role.name = word

end SymbolRole

/-- The causes for which a rule set cannot be built. -/
inductive RuleError where
  | mixedInside (rule : Text)
  | emptyName
  | emptySymbol (role : SymbolRole)
  | equalSymbols (first second : SymbolRole)
deriving DecidableEq, Repr

def RuleError.message : RuleError → Text
  | .mixedInside rule =>
    "invalid rule definition `".toList ++ rule ++
      "`: top-level fields cannot be combined with an explicit inside part".toList
  | .emptyName => "rule names must not be empty".toList
  | .emptySymbol role =>
    "the ".toList ++ role.name ++ " symbol must not be empty".toList
  | .equalSymbols first second =>
    "the ".toList ++ first.name ++ " and ".toList ++ second.name ++
      " symbols must differ".toList

/-! ## Definitions and policies -/

/-- A rule as its author gives it. -/
structure Definition where
  fields : Part := Part.empty
  inside : Option Part := none
  after : Option Part := none
deriving DecidableEq, Repr

namespace Definition

/-- The definition whose top-level fields are a part. -/
def ofPart (fields : Part) : Definition := { fields }

def edit (definition : Definition) (entry : Edit) : Definition :=
  { definition with fields := definition.fields.edit entry }

def withInside (definition : Definition) (part : Part) : Definition :=
  { definition with inside := some part }

def withAfter (definition : Definition) (part : Part) : Definition :=
  { definition with after := some part }

/-- Whether a definition gives its inside part in one way only. -/
def isValid (definition : Definition) : Bool :=
  definition.inside.isNone || definition.fields.isEmpty

/-- Refuses a definition that gives its inside part in both ways. -/
def validate (definition : Definition) (rule : Text) : Except RuleError Unit :=
  if definition.isValid then .ok () else .error (.mixedInside rule)

/-- The part with which the rule opens. -/
def insidePart (definition : Definition) : Part :=
  definition.inside.getD definition.fields

/-- The part with which the rule closes as far as its author gave it. -/
def explicitAfter (definition : Definition) : Part :=
  definition.after.getD Part.empty

end Definition

/-- How the part with which a rule closes is completed: undo what the inside
part changed, reset everything, take the authored part alone, or start from a
given part. -/
inductive Policy where
  | auto
  | reset
  | keep
  | override (baseline : Part)
deriving DecidableEq, Repr

def Policy.ofWord (word : Text) : Except ValueError Policy :=
  let lowered := Text.lower (Text.trim word)
  if lowered = "auto".toList then .ok .auto
  else if lowered = "reset".toList then .ok .reset
  else if lowered = "keep".toList then .ok .keep
  else .error (.unknownPolicy (Text.trim word))

/-- The part with which a rule closes under a policy. -/
def Definition.closingPart (definition : Definition) : Policy → Part
  | .auto => definition.insidePart.autoAfter definition.explicitAfter
  | .reset => definition.explicitAfter.override { reset := Targets.everything }
  | .keep => definition.explicitAfter
  | .override baseline => definition.explicitAfter.override baseline

/-! ## Compiled rules -/

/-- The two moments at which a rule acts. -/
inductive Phase where
  | inside
  | after
deriving DecidableEq, Repr

/-- A rule that is ready for rendering, with its definition. -/
structure CompiledRule where
  definition : Definition
  inside : List Code
  after : List Code
deriving DecidableEq, Repr

namespace CompiledRule

def codes (rule : CompiledRule) : Phase → List Code
  | .inside => rule.inside
  | .after => rule.after

def sequence (rule : CompiledRule) (phase : Phase) : Text :=
  escapeSequence (rule.codes phase)

/-- Whether a rule writes nothing in either phase. -/
def isSilent (rule : CompiledRule) : Bool :=
  rule.inside.isEmpty && rule.after.isEmpty

end CompiledRule

namespace Definition

/-- The rule that a definition gives under a policy. -/
def compiled (definition : Definition) (policy : Policy) : CompiledRule where
  definition
  inside := definition.insidePart.codes definition.insidePart
  after := (definition.closingPart policy).codes definition.insidePart

/-- Compiles a rule under its name, which an error reports. -/
def compile (definition : Definition) (rule : Text) (policy : Policy) :
    Except RuleError CompiledRule := do
  definition.validate rule
  return definition.compiled policy

/-- Compiles the rule of the reset symbol, for which no policy is asked. -/
def compileReset (definition : Definition) (rule : Text) :
    Except RuleError CompiledRule :=
  definition.compile rule .keep

end Definition

end TerminalMarkup
