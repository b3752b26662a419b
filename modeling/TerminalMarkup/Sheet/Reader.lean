import TerminalMarkup.Sgr.Value

/-!
Contract: readers, which take a value from the front of a text.

A reader returns what it read and the text behind it, or nothing. `many`
repeats a reader as long as it gets further in the text; the first failure
ends the repetition at the place before that attempt.

Of the values of properties, a colour is a bracketed list of components, or a
word, and a keyword list has one word or more. What a word means is owned by
the type that it names.
-/

set_option autoImplicit false

namespace TerminalMarkup.Sheet

abbrev Reader (Result : Type) := Text → Option (Result × Text)

namespace Reader

/-- The text behind a character with which it must start. -/
def expect (character : Char) : Text → Option Text
  | [] => none
  | first :: rest => if first = character then some rest else none

/-- The text behind its leading grammar white space. -/
def skipSpace (text : Text) : Text :=
  text.dropWhile Text.isSpace

/-- Reads as many values in a row as there are. -/
def many {Result : Type} (reader : Reader Result) (text : Text) : List Result × Text :=
  match reader text with
  | none => ([], text)
  | some (value, rest) =>
    if rest.length < text.length then
      let (values, behind) := many reader rest
      (value :: values, behind)
    else ([], text)
termination_by text.length

/-- A value read behind leading grammar white space. -/
def spaced {Result : Type} (reader : Reader Result) : Reader Result :=
  fun text => reader (skipSpace text)

/-- Reads an identifier: as many word characters as there are, at least
one. -/
def identifier : Reader Text :=
  fun text =>
    match text.takeWhile Text.isWordChar with
    | [] => none
    | word => some (word, text.dropWhile Text.isWordChar)

/-- Reads a quoted string and returns its contents, which have no quote. -/
def quoted : Reader Text :=
  fun text => do
    let rest ← expect '"' text
    let behind ← expect '"' (rest.dropWhile (· ≠ '"'))
    return (rest.takeWhile (· ≠ '"'), behind)

/-- Skips a list separator: a comma with white space around it, or white
space. -/
def separator (text : Text) : Option Text :=
  match expect ',' (skipSpace text) with
  | some rest => some (skipSpace rest)
  | none => if text.head?.any Text.isSpace then some (skipSpace text) else none

/-- Reads one value or more with separators between them. A separator without
a value behind it is left unread. -/
def separated {Result : Type} (reader : Reader Result) : Reader (List Result) :=
  fun text => do
    let (first, rest) ← reader text
    let (others, behind) := many (fun next => separator next >>= reader) rest
    return (first :: others, behind)

/-- What a reader gives when it reads the whole text. -/
def whole? {Result : Type} (reader : Reader Result) (text : Text) : Option Result :=
  match reader text with
  | some (value, []) => some value
  | _ => none

/-! ## Values of properties -/

/-- Reads a decimal number that fits into a byte. -/
def component : Reader UInt8 :=
  fun text =>
    match text.takeWhile Text.isDigit with
    | [] => none
    | digits => (Text.byte? digits).map fun value => (value, text.dropWhile Text.isDigit)

def components : Reader (List UInt8) :=
  fun text => do
    let rest ← expect '[' text
    let (values, rest) ← separated component (skipSpace rest)
    let rest ← expect ']' (skipSpace rest)
    return (values, rest)

/-- Reads a word and gives the value that it names. -/
def keyword {Result : Type} (ofWord : Text → Except ValueError Result) : Reader Result :=
  fun text => do
    let (word, rest) ← identifier text
    let value ← (ofWord word).toOption
    return (value, rest)

/-- Reads a colour that is written as bracketed components. -/
def bracketedColor : Reader Color :=
  fun text => do
    let (values, rest) ← components text
    let color ← (Color.ofComponents values).toOption
    return (color, rest)

def color : Reader Color :=
  fun text => (bracketedColor text).orElse fun _ => keyword Color.ofWord text

def words : Reader (List Text) :=
  separated identifier

end Reader

end TerminalMarkup.Sheet
