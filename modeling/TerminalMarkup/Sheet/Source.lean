import TerminalMarkup.Style.Rule
import TerminalMarkup.Table

/-!
Contract: the passes over the source of a rule sheet before its grammar.

A comment runs from its opening mark to the first closing mark behind it, or
to the end of the sheet. The star of the opening mark is not part of the
closing mark. A quoted string runs to the next quote or to the end of the
sheet, and marks inside it open no comment. Removing the comments keeps their
line feeds, so that lines keep their numbers.

A line whose first character after white space is a dollar sign is a
definition line. It defines a variable when it has a colon, and it is blank
for the rest of the reading. On the other lines a dollar sign with a name
behind it is a reference and is replaced by the value; the value is not read
again. Inside quotes, which end with the line at the latest, nothing is
replaced.

`SheetError` joins the causes for which a sheet gives no rule set and owns the
wording. A syntax error keeps the number of the line and what stands there. A
file can be missing, or hold bytes that are no text.
-/

set_option autoImplicit false

namespace TerminalMarkup

/-! ## Refused sheets -/

/-- Why the file of a sheet cannot be read. -/
inductive FileError where
  | notFound
  | invalidData
deriving DecidableEq, Repr

/-- The causes for which a rule sheet is refused. -/
inductive SheetError where
  | syntaxError (line : Nat) (snippet : Text)
  | unknownVariable (name : Text)
  | rule (cause : RuleError)
  | file (cause : FileError)
deriving DecidableEq, Repr

def SheetError.message : SheetError → Text
  | .syntaxError line snippet =>
    "rule sheet syntax error: unexpected input on line ".toList ++ Text.ofNat line ++
      ": ".toList ++ snippet
  | .unknownVariable name => "unknown variable: $".toList ++ name
  | .rule cause => cause.message
  | .file _ => "I/O error reading rule sheet".toList

/-! ## Comments -/

namespace Sheet

/-- What the characters at a place in a sheet belong to. -/
inductive Zone where
  | plain
  | quoted
  | comment
deriving DecidableEq, Repr

/-- The text without its comments, when its start lies in a zone. -/
def stripFrom : Zone → Text → Text
  | _, [] => []
  | .plain, '"' :: rest => '"' :: stripFrom .quoted rest
  | .plain, '/' :: '*' :: rest => stripFrom .comment rest
  | .plain, character :: rest => character :: stripFrom .plain rest
  | .quoted, '"' :: rest => '"' :: stripFrom .plain rest
  | .quoted, character :: rest => character :: stripFrom .quoted rest
  | .comment, '*' :: '/' :: rest => stripFrom .plain rest
  | .comment, '\n' :: rest => '\n' :: stripFrom .comment rest
  | .comment, _ :: rest => stripFrom .comment rest

def stripComments (source : Text) : Text :=
  stripFrom .plain source

/-! ## Variables -/

/-- The values of the variables of a sheet. -/
abbrev Variables := Table Text

/-- The text before the first occurrence of a character and the text behind
it. -/
def splitOnce (separator : Char) : Text → Option (Text × Text)
  | [] => none
  | character :: rest =>
    if character = separator then some ([], rest)
    else (splitOnce separator rest).map fun (front, back) => (character :: front, back)

/-- A text without one semicolon at its end. -/
def dropSemicolon (text : Text) : Text :=
  if text.getLast? = some ';' then text.dropLast else text

/-- Whether a line is a definition line. -/
def isDefinitionLine (line : Text) : Bool :=
  (Text.trim line).head? = some '$'

/-- The variable that a line defines, and its value. -/
def definitionOf? (line : Text) : Option (Text × Text) :=
  match Text.trim line with
  | '$' :: body =>
    (splitOnce ':' body).map fun (name, value) =>
      (Text.trim name, Text.trimEnd (dropSemicolon (Text.trim value)))
  | _ => none

/-- The variables that a sheet without comments defines. -/
def extractVariables (source : Text) : Variables :=
  ((Text.lines source).filterMap definitionOf?).foldl
    (fun known (name, value) => known.insert name value) Table.empty

/-- A line with its references replaced. Replacing starts inside quotes or
outside of them. -/
def resolveLine (known : Variables) (quoted : Bool) (line : Text) :
    Except SheetError Text :=
  match line with
  | [] => .ok []
  | character :: rest =>
    if character = '"' then
      (resolveLine known (!quoted) rest).map ('"' :: ·)
    else if quoted || character ≠ '$' then
      (resolveLine known quoted rest).map (character :: ·)
    else
      match rest.takeWhile Text.isWordChar with
      | [] => (resolveLine known quoted rest).map ('$' :: ·)
      | name =>
        match known.get? name with
        | none => .error (.unknownVariable name)
        | some value =>
          (resolveLine known quoted (rest.dropWhile Text.isWordChar)).map (value ++ ·)
termination_by line.length
decreasing_by
  all_goals simp only [List.length_cons]
  · omega
  · omega
  · omega
  · have shorter : (rest.dropWhile Text.isWordChar).length ≤ rest.length :=
      (List.dropWhile_suffix Text.isWordChar).length_le
    omega

/-- Some lines with their references replaced and definition lines blanked.
Every line is ended by a line feed. -/
def resolveLines (known : Variables) : List Text → Except SheetError Text
  | [] => .ok []
  | line :: others => do
    let resolved ← if isDefinitionLine line then .ok [] else resolveLine known false line
    let behind ← resolveLines known others
    return resolved ++ '\n' :: behind

/-- A sheet without comments, with its references replaced and its definition
lines blanked. -/
def resolveVariables (source : Text) (known : Variables) : Except SheetError Text :=
  resolveLines known (Text.lines source)

end Sheet

end TerminalMarkup
