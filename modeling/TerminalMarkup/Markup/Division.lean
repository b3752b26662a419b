import TerminalMarkup.Markup.Marker

/-!
Contract: the division of a text at its markers.

A division cuts a text into pieces, each a stretch of literal text and the
marker that follows it, and a remainder. The leftmost marker wins, then the
longest, then the one with the lowest index, and the search goes on behind it.

The place of the next occurrence of every marker is kept under watch between
two cuts. A place that a cut has passed is looked up again, because the marker
may occur a second time across the end of the cut. A marker without a further
occurrence is no longer watched.
-/

set_option autoImplicit false

namespace TerminalMarkup

/-- The number of characters before the first occurrence of a pattern. -/
def firstOccurrence (pattern : Text) : Text → Option Nat
  | [] => if pattern = [] then some 0 else none
  | character :: rest =>
    if pattern.isPrefixOf (character :: rest) then some 0
    else (firstOccurrence pattern rest).map (· + 1)

/-- A marker whose next occurrence is known: `ahead` characters stand before
it in the text still to be divided. -/
structure Sighting where
  index : Nat
  marker : Marker
  occurs : marker.pattern ≠ []
  ahead : Nat
deriving DecidableEq, Repr

/-- A marker under watch. The place of its next occurrence is unknown when it
has to be looked up. -/
structure Watch where
  index : Nat
  marker : Marker
  occurs : marker.pattern ≠ []
  ahead : Option Nat
deriving DecidableEq, Repr

/-- The marker with the place of its next occurrence in the text still to be
divided, if there is one. -/
def Watch.sight (text : Text) (watch : Watch) : Option Sighting :=
  (watch.ahead.or (firstOccurrence watch.marker.pattern text)).map fun ahead =>
    { index := watch.index, marker := watch.marker, occurs := watch.occurs, ahead }

namespace Sighting

/-- The number of characters up to the end of the occurrence. -/
def reach (sighting : Sighting) : Nat :=
  sighting.ahead + sighting.marker.pattern.length

/-- Whether an occurrence starts before another, or at the same place and is
longer. -/
def precedes (first second : Sighting) : Bool :=
  first.ahead < second.ahead ||
    (first.ahead == second.ahead && second.reach < first.reach)

/-- The occurrence that no other precedes; of several the first in the list. -/
def earliest : List Sighting → Option Sighting
  | [] => none
  | sighting :: others =>
    match earliest others with
    | none => some sighting
    | some best => if best.precedes sighting then some best else some sighting

/-- The marker after a cut behind `cut` characters. Its place stays known if
it stands behind the cut. -/
def passing (cut : Nat) (sighting : Sighting) : Watch where
  index := sighting.index
  marker := sighting.marker
  occurs := sighting.occurs
  ahead := if cut ≤ sighting.ahead then some (sighting.ahead - cut) else none

theorem reach_pos (sighting : Sighting) : 0 < sighting.reach := by
  have := List.length_pos_iff.mpr sighting.occurs
  unfold reach
  omega

end Sighting

/-- A stretch of literal text and the marker that ends it. -/
structure Piece where
  lead : Text
  index : Nat
  marker : Marker
deriving DecidableEq, Repr

/-- A text cut behind each of its markers. -/
structure Division where
  pieces : List Piece
  remainder : Text
deriving DecidableEq, Repr

/-- The division of a text at the watched markers. -/
def Division.ofWatches (watches : List Watch) (text : Text) : Division :=
  match text with
  | [] => ⟨[], []⟩
  | character :: rest =>
    let sightings := watches.filterMap (Watch.sight (character :: rest))
    match Sighting.earliest sightings with
    | none => ⟨[], character :: rest⟩
    | some best =>
      let behind := ofWatches (sightings.map (Sighting.passing best.reach))
        ((character :: rest).drop best.reach)
      { pieces :=
          ⟨(character :: rest).take best.ahead, best.index, best.marker⟩ :: behind.pieces
        remainder := behind.remainder }
termination_by text.length
decreasing_by
  have := best.reach_pos
  simp only [List.length_drop, List.length_cons]
  omega

/-- The watch over a marker before anything was looked up. A marker without a
pattern is not watched. -/
def Marker.watch? (index : Nat) (marker : Marker) : Option Watch :=
  if occurs : marker.pattern ≠ [] then
    some { index, marker, occurs, ahead := none }
  else none

namespace MarkerSet

/-- The watches over all markers that have a pattern. -/
def watches (set : MarkerSet) : List Watch :=
  set.markers.zipIdx.filterMap fun entry => entry.1.watch? entry.2

def divide (set : MarkerSet) (text : Text) : Division :=
  Division.ofWatches set.watches text

end MarkerSet

end TerminalMarkup
