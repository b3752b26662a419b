import TerminalMarkup.Markup.Division

/-!
Contract: what is read off a division: the tokens of a text and the places of
its markers.

A text is a sequence of literal stretches and marks. Literal stretches are
never empty. `Token.written` is the text that a token stands for.

Places are counted in the bytes of the text in UTF-8. A location names the
marker by its index, its first and its last byte, and the byte at which the
search goes on.
-/

set_option autoImplicit false

namespace TerminalMarkup

/-! ## Tokens -/

/-- A literal stretch of text, or one mark. -/
inductive Token where
  | text (literal : Text)
  | opening (rule : Text)
  | closing
  | reset
deriving DecidableEq, Repr

def Mark.token : Mark → Token
  | .closing => .closing
  | .reset => .reset
  | .opening rule => .opening rule

/-- The token of a literal stretch, or none if the stretch is empty. -/
def Token.ofLiteral (literal : Text) : List Token :=
  if literal = [] then [] else [.text literal]

/-- The text that a token stands for. -/
def Token.written (symbols : Symbols) : Token → Text
  | .text literal => literal
  | .opening rule => symbols.opening ++ rule
  | .closing => symbols.closing
  | .reset => symbols.reset

/-- The tokens of a piece: its literal text, then its mark. -/
def Piece.tokens (piece : Piece) : List Token :=
  Token.ofLiteral piece.lead ++ [piece.marker.mark.token]

def Division.tokens (division : Division) : List Token :=
  division.pieces.flatMap Piece.tokens ++ Token.ofLiteral division.remainder

def MarkerSet.tokenize (set : MarkerSet) (text : Text) : List Token :=
  (set.divide text).tokens

/-! ## Locations -/

/-- Where a marker stands in a text. The last byte belongs to the marker. -/
structure Location where
  marker : Nat
  start : Nat
  last : Nat
  resume : Nat
deriving DecidableEq, Repr

/-- The locations of the markers of successive pieces, the first of which
starts at an offset. -/
def Piece.locations (offset : Nat) : List Piece → List Location
  | [] => []
  | piece :: rest =>
    let start := offset + Text.byteCount piece.lead
    let resume := start + Text.byteCount piece.marker.pattern
    { marker := piece.index, start, last := resume - 1, resume } :: locations resume rest

/-- The locations of all markers in a text, in text order. -/
def MarkerSet.locate (set : MarkerSet) (text : Text) : List Location :=
  Piece.locations 0 (set.divide text).pieces

end TerminalMarkup
