/-!
Contract: texts as lists of characters.

Every name, symbol, value and message of the library is a `Text`, so that
scanning and reading are recursions on a list. This module owns the bytes of
a text in UTF-8, its lines and the numbers that it writes. It does not own
character classes; `Text.Character` does.

A line ends at a line feed or at the end of the text. One carriage return
directly before the line feed belongs to the line end. Text after the last
line feed is a line of its own only when it is not empty. Numbers are written
without leading zeros and read with or without them. Only the ten digits of
ASCII are digits.
-/

set_option autoImplicit false

namespace TerminalMarkup

/-- A text is the list of its characters. -/
abbrev Text := List Char

namespace Text

/-- The number of bytes that a text takes in UTF-8. -/
def byteCount : Text → Nat
  | [] => 0
  | character :: rest => character.utf8Size + byteCount rest

/-- The UTF-8 bytes of a text, in order. -/
def encode (text : Text) : List UInt8 :=
  text.flatMap String.utf8EncodeChar

/-- The text that a sequence of bytes encodes, if it is valid UTF-8. -/
def decode? (bytes : List UInt8) : Option Text :=
  (String.fromUTF8? (ByteArray.mk bytes.toArray)).map String.toList

@[simp]
theorem byteCount_nil : byteCount [] = 0 := rfl

@[simp]
theorem byteCount_cons (character : Char) (rest : Text) :
    byteCount (character :: rest) = character.utf8Size + byteCount rest := rfl

@[simp]
theorem byteCount_append (front back : Text) :
    byteCount (front ++ back) = byteCount front + byteCount back := by
  induction front with
  | nil => simp
  | cons character rest inductionHypothesis =>
      simp [inductionHypothesis, Nat.add_assoc]

@[simp]
theorem encode_append (front back : Text) :
    encode (front ++ back) = encode front ++ encode back := by
  simp [encode]

/-! ## Lines -/

/-- The lines of a text, without their ends. -/
def lines : Text → List Text
  | [] => []
  | '\n' :: rest => [] :: lines rest
  | '\r' :: '\n' :: rest => [] :: lines rest
  | character :: rest =>
    match lines rest with
    | [] => [[character]]
    | line :: others => (character :: line) :: others

def lineFeeds (text : Text) : Nat :=
  text.count '\n'

/-! ## Numbers in decimal digits -/

/-- A natural number in decimal digits, without leading zeros. -/
def ofNat (number : Nat) : Text :=
  Nat.toDigits 10 number

/-- The decimal digits of ASCII. -/
def isDigit (character : Char) : Bool :=
  '0' ≤ character && character ≤ '9'

/-- The number that a run of digits writes. -/
def digitsValue (digits : Text) : Nat :=
  digits.foldl (fun value digit => 10 * value + (digit.toNat - '0'.toNat)) 0

theorem isDigit_of_mem_ofNat {number : Nat} {character : Char}
    (member : character ∈ ofNat number) :
    isDigit character := by
  have digit := Nat.isDigit_of_mem_toDigits (by decide) (by decide) member
  simpa [isDigit, Char.isDigit, Char.le_def, UInt32.le_iff_toNat_le] using digit

theorem ofNat_ne_nil (number : Nat) : ofNat number ≠ [] :=
  Nat.toDigits_ne_nil

/-- What is written for a number writes that number. -/
@[simp]
theorem digitsValue_ofNat (number : Nat) : digitsValue (ofNat number) = number := by
  rw [digitsValue, ← Nat.ofDigitChars_eq_foldl]
  exact Nat.ofDigitChars_toDigits (by decide) (by decide)

/-- The number that a run of digits writes, if it fits into a byte. -/
def byte? (digits : Text) : Option UInt8 :=
  if digitsValue digits < 256 then some (UInt8.ofNat (digitsValue digits)) else none

end Text

end TerminalMarkup
