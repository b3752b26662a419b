import TerminalMarkup.SortedNames
import TerminalMarkup.Style.Rule

/-!
Contract: the delimiters of markup and the markers that a scan looks for.

The opening symbol stands directly before the name of a rule. The closing
symbol ends the innermost open rule, and the reset symbol ends all of them.
`validate` admits three symbols that are not empty and differ from one
another.

There is one marker for the closing symbol, one for the reset symbol, and one
for each rule name behind the opening symbol. Names stand in ascending order
of their code points, so the index of a marker depends on the set of names
alone. A symbol may be empty here; a marker without a pattern is kept in its
place and never occurs.
-/

set_option autoImplicit false

namespace TerminalMarkup

/-! ## Symbols -/

/-- The three delimiters of markup. -/
structure Symbols where
  opening : Text := "\x7b%".toList
  closing : Text := "%\x7d".toList
  reset : Text := "%@".toList
deriving DecidableEq, Repr

namespace Symbols

def get (symbols : Symbols) : SymbolRole → Text
  | .opening => symbols.opening
  | .closing => symbols.closing
  | .reset => symbols.reset

def set (symbols : Symbols) (role : SymbolRole) (text : Text) : Symbols :=
  match role with
  | .opening => { symbols with opening := text }
  | .closing => { symbols with closing := text }
  | .reset => { symbols with reset := text }

/-- Refuses an empty symbol, then a pair of equal symbols. -/
def validate (symbols : Symbols) : Except RuleError Unit :=
  if symbols.opening = [] then .error (.emptySymbol .opening)
  else if symbols.closing = [] then .error (.emptySymbol .closing)
  else if symbols.reset = [] then .error (.emptySymbol .reset)
  else if symbols.opening = symbols.closing then .error (.equalSymbols .opening .closing)
  else if symbols.opening = symbols.reset then .error (.equalSymbols .opening .reset)
  else if symbols.closing = symbols.reset then .error (.equalSymbols .closing .reset)
  else .ok ()

end Symbols

/-! ## Markers -/

/-- What a marker stands for. -/
inductive Mark where
  | closing
  | reset
  | opening (rule : Text)
deriving DecidableEq, Repr

/-- A literal pattern and what it stands for. -/
structure Marker where
  pattern : Text
  mark : Mark
deriving DecidableEq, Repr

/-- The markers of one set of symbols and names. -/
structure MarkerSet where
  markers : List Marker
deriving DecidableEq, Repr

namespace MarkerSet

/-- The markers for some symbols and rule names. An empty name has none. -/
def build (symbols : Symbols) (names : List Text) : MarkerSet where
  markers :=
    ⟨symbols.closing, .closing⟩ :: ⟨symbols.reset, .reset⟩ ::
      (SortedNames.ofList (names.filter (· ≠ []))).map fun name =>
        ⟨symbols.opening ++ name, .opening name⟩

def size (set : MarkerSet) : Nat :=
  set.markers.length

def isEmpty (set : MarkerSet) : Bool :=
  set.markers.isEmpty

def mark? (set : MarkerSet) (index : Nat) : Option Mark :=
  set.markers[index]?.map Marker.mark

end MarkerSet

end TerminalMarkup
