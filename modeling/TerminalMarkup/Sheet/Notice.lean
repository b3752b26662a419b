import TerminalMarkup.Log
import TerminalMarkup.Sgr.Value

/-!
Contract: what the reading of a sheet reports.

Something that cannot be read is left out of the sheet and reported as a
warning; each constructor of `Warning` is one such cause. The other notices
tell of a rule that is defined again and of the end of the reading.
`Notice.record` owns the wording and the level.
-/

set_option autoImplicit false

namespace TerminalMarkup.Sheet

/-- Something in a sheet that was left out. The context is the name of the
rule, or of the at-rule, in which it stands. -/
inductive Warning where
  | unknownAtRule (name : Text)
  | unknownPolicy (cause : ValueError)
  | quotedPolicy (contents : Text)
  | symbolsWithoutBlock
  | unknownSymbol (property : Text)
  | unknownBlock (rule block : Text)
  | quotedValue (context contents property : Text)
  | unknownProperty (context property : Text)
  | invalidColor (context text property : Text)
  | malformedList (context text property : Text)
  | unreadableWord (context word property : Text) (cause : ValueError)
deriving DecidableEq, Repr

/-- The context of the declarations in the at-rule for the policy. -/
def policyContext : Text := "@after".toList

/-- A text between the quotation marks of messages. -/
def ticked (text : Text) : Text :=
  '\x60' :: (text ++ ['\x60'])

def Warning.message : Warning → Text
  | .unknownAtRule name => "ignoring unknown at-rule ".toList ++ ticked ('@' :: name)
  | .unknownPolicy cause => policyContext ++ ": ".toList ++ cause.message
  | .quotedPolicy contents =>
    policyContext ++ ": ignoring quoted value \"".toList ++ contents ++ ['"']
  | .symbolsWithoutBlock => "@symbols: expected a block of declarations".toList
  | .unknownSymbol property =>
    "@symbols: ignoring unknown symbol ".toList ++ ticked property
  | .unknownBlock rule block =>
    rule ++ ": ignoring unknown block ".toList ++ ticked block
  | .quotedValue context contents property =>
    context ++ ": ignoring quoted value \"".toList ++ contents ++ "\" for ".toList ++
      ticked property
  | .unknownProperty context property =>
    context ++ ": ignoring unknown property ".toList ++ ticked property
  | .invalidColor context text property =>
    context ++ ": dropping invalid color ".toList ++ ticked text ++ " for ".toList ++
      ticked property
  | .malformedList context text property =>
    context ++ ": dropping malformed list ".toList ++ ticked text ++ " for ".toList ++
      ticked property
  | .unreadableWord context word property cause =>
    context ++ ": dropping ".toList ++ ticked word ++ " from ".toList ++
      ticked property ++ ": ".toList ++ cause.message

/-- What the reading of a sheet reports. -/
inductive Notice where
  | warning (warning : Warning)
  | redefined (rule : Text)
  | finished (ruleCount variableCount : Nat)
deriving DecidableEq, Repr

def Notice.record : Notice → Log.Record
  | .warning cause => ⟨.warn, "rulesheet::parser::sheet".toList, cause.message⟩
  | .redefined rule =>
    ⟨.debug, "rulesheet::parser::sheet".toList,
      "rule ".toList ++ ticked rule ++ " redefined".toList⟩
  | .finished ruleCount variableCount =>
    ⟨.debug, "rulesheet::parser".toList,
      "parsed rule sheet: ".toList ++ Text.ofNat ruleCount ++ " rules, ".toList ++
        Text.ofNat variableCount ++ " variables".toList⟩

/-- A result with the notices of its reading, in their order. -/
structure Reported (Result : Type) where
  result : Result
  notices : List Notice := []
deriving DecidableEq, Repr

namespace Reported

variable {Result Next : Type}

def warn (result : Result) (cause : Warning) : Reported Result :=
  ⟨result, [.warning cause]⟩

/-- Goes on from a result. The later notices follow the earlier ones. -/
def andThen (first : Reported Result) (next : Result → Reported Next) : Reported Next :=
  let second := next first.result
  ⟨second.result, first.notices ++ second.notices⟩

def map (first : Reported Result) (change : Result → Next) : Reported Next :=
  ⟨change first.result, first.notices⟩

/-- A list read item by item, each to a list of results. -/
def flatMap {Source : Type} (items : List Source)
    (read : Source → Reported (List Result)) : Reported (List Result) :=
  ⟨items.flatMap fun item => (read item).result,
    items.flatMap fun item => (read item).notices⟩

end Reported

end TerminalMarkup.Sheet
