import TerminalMarkup.Printer
import TerminalMarkup.Sheet.Document

/-!
Contract: rule sets from what an author writes, and how that fails.

A rule set comes from definitions, from the source of a sheet or from the
file of a sheet. `Failure` joins the errors of these ways and of output.
-/

set_option autoImplicit false

namespace TerminalMarkup

/-- The ways in which an entry point fails. -/
inductive Failure where
  | rule (cause : RuleError)
  | sheet (cause : SheetError)
  | output (cause : SinkError)
deriving DecidableEq, Repr

def Failure.message : Failure → Text
  | .rule cause => "Rule error: ".toList ++ cause.message
  | .sheet cause => "Rule sheet error: ".toList ++ cause.message
  | .output cause => "Output error: ".toList ++ cause.message

namespace RuleSet

/-- The rule set of some definitions under the usual settings. -/
def ofDefinitions (definitions : List (Text × Definition)) : Except Failure RuleSet :=
  (build definitions).mapError .rule

def ofSheet (source : Text) : Except Failure RuleSet :=
  (Sheet.parse source >>= fun reading => reading.result.ruleSet).mapError .sheet

/-- The rule set of the file of a sheet, given what the file holds. -/
def ofSheetFile (contents : Option (List UInt8)) : Except Failure RuleSet :=
  (Sheet.parseFile contents >>= fun reading => reading.result.ruleSet).mapError .sheet

end RuleSet

end TerminalMarkup
