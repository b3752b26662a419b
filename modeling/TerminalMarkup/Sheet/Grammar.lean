import TerminalMarkup.Sheet.Reader
import TerminalMarkup.Sheet.Source

/-!
Contract: the items of a rule sheet and their grammar.

Items keep names and values as they are written. Nothing here says what a
property means; `Sheet.Document` does.

Each reader takes one construct from the front of a text. Where two
constructs can start alike, a block is tried before a declaration and before
a plain value. `items` reads a whole sheet without comments and references,
and points at the first place that no item explains.
-/

set_option autoImplicit false

namespace TerminalMarkup.Sheet

/-! ## Items -/

/-- The value of a property: bare text without white space at its end, or the
contents of a quoted string. -/
inductive Value where
  | bare (text : Text)
  | quoted (text : Text)
deriving DecidableEq, Repr

structure Declaration where
  property : Text
  value : Value
deriving DecidableEq, Repr

inductive BodyEntry where
  | declaration (declaration : Declaration)
  | block (name : Text) (declarations : List Declaration)
deriving DecidableEq, Repr

/-- What an at-rule gives: one value, or a block of declarations. -/
inductive AtBody where
  | value (value : Value)
  | block (declarations : List Declaration)
deriving DecidableEq, Repr

inductive Item where
  | rule (name : Text) (body : List BodyEntry)
  | atRule (name : Text) (body : AtBody)
deriving DecidableEq, Repr

/-! ## Grammar -/

namespace Reader

/-- The characters that end a bare value. -/
def endsBare (character : Char) : Bool :=
  character = ';' || character = ':' || character = '\x7b' || character = '\x7d' ||
    character = '"'

/-- Reads bare text up to the next character that ends it. -/
def bare : Reader Text :=
  fun text =>
    match text.takeWhile (!endsBare ·) with
    | [] => none
    | front => some (Text.trimEnd front, text.dropWhile (!endsBare ·))

def value : Reader Value :=
  fun text =>
    match quoted text with
    | some (contents, rest) => some (.quoted contents, rest)
    | none => (bare text).map fun (front, rest) => (.bare front, rest)

/-- Reads what stands between a colon and a semicolon. -/
def assigned : Reader Value :=
  fun text => do
    let rest ← expect ':' text
    let (found, rest) ← value (skipSpace rest)
    let rest ← expect ';' (skipSpace rest)
    return (found, rest)

def declaration : Reader Declaration :=
  fun text => do
    let (property, rest) ← identifier text
    let (found, rest) ← assigned (skipSpace rest)
    return (⟨property, found⟩, rest)

/-- Reads a repetition between braces. -/
def braced {Result : Type} (reader : Reader Result) : Reader (List Result) :=
  fun text => do
    let rest ← expect '\x7b' text
    let (found, rest) := many (spaced reader) rest
    let rest ← expect '\x7d' (skipSpace rest)
    return (found, rest)

/-- Reads a name with a repetition between braces behind it. -/
def titled {Result : Type} (reader : Reader Result) : Reader (Text × List Result) :=
  fun text => do
    let (name, rest) ← identifier text
    let (found, rest) ← braced reader (skipSpace rest)
    return ((name, found), rest)

/-- Reads an entry in the body of a rule: a block, or else a declaration. -/
def bodyEntry : Reader BodyEntry :=
  fun text =>
    match titled declaration text with
    | some ((name, declarations), rest) => some (.block name declarations, rest)
    | none => (declaration text).map fun (found, rest) => (.declaration found, rest)

def rule : Reader Item :=
  fun text => (titled bodyEntry text).map fun ((name, body), rest) => (.rule name body, rest)

/-- Reads what an at-rule gives: a block, or else one value. -/
def atBody : Reader AtBody :=
  fun text =>
    match braced declaration text with
    | some (declarations, rest) => some (.block declarations, rest)
    | none => (assigned text).map fun (found, rest) => (.value found, rest)

def atRule : Reader Item :=
  fun text => do
    let rest ← expect '@' text
    let (name, rest) ← identifier rest
    let (body, rest) ← atBody (skipSpace rest)
    return (.atRule name body, rest)

def item : Reader Item :=
  fun text => (atRule text).orElse fun _ => rule text

end Reader

/-- The most characters of a line that a syntax error shows. -/
def snippetLength : Nat := 40

/-- The syntax error for a text that no item explains, which is the end of a
source. -/
def syntaxErrorAt (source rest : Text) : SheetError :=
  .syntaxError (Text.lineFeeds (source.take (source.length - rest.length)) + 1)
    (Text.trimEnd (((Text.lines rest).headD []).take snippetLength))

/-- The items of a sheet without comments and references. -/
def items (source : Text) : Except SheetError (List Item) :=
  let (found, behind) := Reader.many (Reader.spaced Reader.item) source
  match Text.trimStart behind with
  | [] => .ok found
  | rest => .error (syntaxErrorAt source rest)

end TerminalMarkup.Sheet
