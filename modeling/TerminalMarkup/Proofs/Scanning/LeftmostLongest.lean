import TerminalMarkup.Markup.Location
import TerminalMarkup.Proofs.Scanning.Watching
import TerminalMarkup.Proofs.Text.Boundary

/-!
Contract: the locations of markers are those of the plain leftmost-longest
scan.

The plain scan reads the bytes of a text. It has no memory but the byte at
which it stands: it goes to the first byte from there on at which the bytes of
some pattern begin, takes the longest such pattern and for equal patterns the
marker of the lowest index, and goes on behind it. A pattern without bytes
never occurs. `MarkerScan` states this as a relation, and at most one list of
locations satisfies it.
-/

set_option autoImplicit false

namespace TerminalMarkup

namespace MarkerSet

/-- Whether the pattern of the marker at an index is not empty, has the given
bytes, and stands at a place among the bytes of a text. -/
def OccursAt (set : MarkerSet) (bytes : List UInt8) (index : Nat) (pattern : List UInt8)
    (place : Nat) : Prop :=
  (set.markers[index]?.map fun marker => Text.encode marker.pattern) = some pattern ∧
    pattern ≠ [] ∧ pattern <+: bytes.drop place

end MarkerSet

/-- The plain scan over the bytes of a text from a place on. -/
inductive MarkerScan (set : MarkerSet) (bytes : List UInt8) : Nat → List Location → Prop where
  | done {place : Nat}
      (nothing : ∀ index pattern start, place ≤ start →
        ¬ set.OccursAt bytes index pattern start) :
      MarkerScan set bytes place []
  | found {place start index : Nat} {pattern : List UInt8} {rest : List Location}
      (ahead : place ≤ start)
      (occurs : set.OccursAt bytes index pattern start)
      (leftmost : ∀ other otherPattern earlier, place ≤ earlier →
        set.OccursAt bytes other otherPattern earlier → start ≤ earlier)
      (longest : ∀ other otherPattern, set.OccursAt bytes other otherPattern start →
        otherPattern.length ≤ pattern.length)
      (lowest : ∀ other, set.OccursAt bytes other pattern start → index ≤ other)
      (next : MarkerScan set bytes (start + pattern.length) rest) :
      MarkerScan set bytes place
        (⟨index, start, start + pattern.length - 1, start + pattern.length⟩ :: rest)

/-! ## Characters and bytes -/

namespace Text

theorem byteCount_take_le {text : Text} {place other : Nat} (le : place ≤ other) :
    byteCount (text.take place) ≤ byteCount (text.take other) := by
  have whole := List.take_append_drop place (text.take other)
  rw [List.take_take, Nat.min_eq_left le] at whole
  rw [← whole, byteCount_append]
  omega

theorem eq_of_byteCount_take_eq {text : Text} {place other : Nat}
    (inside : place ≤ text.length) (otherInside : other ≤ text.length)
    (same : byteCount (text.take place) = byteCount (text.take other)) :
    place = other := by
  have strict : ∀ near far, near < far → far ≤ text.length →
      byteCount (text.take near) < byteCount (text.take far) := by
    intro near far below bound
    have whole := List.take_append_drop near (text.take far)
    rw [List.take_take, Nat.min_eq_left (Nat.le_of_lt below)] at whole
    have nonempty : (text.take far).drop near ≠ [] := by
      rw [ne_eq, List.drop_eq_nil_iff, List.length_take]
      omega
    rw [← whole, byteCount_append]
    have := byteCount_pos nonempty
    omega
  rcases Nat.lt_trichotomy place other with below | equal | above
  · have := strict place other below otherInside
    omega
  · exact equal
  · have := strict other place above inside
    omega

end Text

/-- Among the bytes of a text, behind those of some leading characters, a
marker occurs exactly where its pattern occurs among the other characters. -/
theorem MarkerSet.occursAt_iff (set : MarkerSet) (front rest : Text) (index : Nat)
    (pattern : List UInt8) (offset : Nat) :
    set.OccursAt (Text.encode (front ++ rest)) index pattern
        (Text.byteCount front + offset) ↔
      ∃ marker place, set.markers[index]? = some marker ∧ marker.pattern ≠ [] ∧
        pattern = Text.encode marker.pattern ∧ place ≤ rest.length ∧
        offset = Text.byteCount (rest.take place) ∧
        marker.pattern <+: rest.drop place := by
  unfold OccursAt
  rw [Text.drop_byteCount_encode]
  constructor
  · rintro ⟨named, nonempty, occurs⟩
    obtain ⟨marker, known, rfl⟩ := Option.map_eq_some_iff.mp named
    have written : marker.pattern ≠ [] := by simpa using nonempty
    obtain ⟨lead, back, rfl, rfl, begins⟩ := (Text.encode_prefix_drop_iff written offset).mp occurs
    exact ⟨marker, lead.length, known, written, rfl, by simp, by simp, by simpa using begins⟩
  · rintro ⟨marker, place, known, nonempty, rfl, _, rfl, occurs⟩
    refine ⟨by rw [known]; rfl, by simpa using nonempty, ?_⟩
    exact (Text.encode_prefix_drop_iff nonempty _).mpr
      ⟨rest.take place, rest.drop place, (List.take_append_drop place rest).symm, rfl, occurs⟩

/-- A marker that occurs among bytes where some leading characters end occurs
behind these characters. -/
theorem MarkerSet.OccursAt.exists_prefix_drop {set : MarkerSet} {front rest : Text}
    {index place : Nat} {pattern : List UInt8} (inside : place ≤ rest.length)
    (found : set.OccursAt (Text.encode (front ++ rest)) index pattern
      (Text.byteCount front + Text.byteCount (rest.take place))) :
    ∃ marker, set.markers[index]? = some marker ∧ marker.pattern ≠ [] ∧
      pattern = Text.encode marker.pattern ∧ marker.pattern <+: rest.drop place := by
  obtain ⟨marker, other, named, nonempty, bytes, bound, same, occurs⟩ :=
    (set.occursAt_iff front rest _ _ _).mp found
  rw [← Text.eq_of_byteCount_take_eq inside bound same] at occurs
  exact ⟨marker, named, nonempty, bytes, occurs⟩

/-! ## The division is a plain scan -/

/-- The foremost occurrence among characters is the one that the plain scan
finds among bytes. -/
theorem Foremost.scan {set : MarkerSet} {front rest : Text} {best : Sighting}
    (foremost : Foremost set.markers rest best) {start : Nat} {locations : List Location}
    (begins : start = Text.byteCount front + Text.byteCount (rest.take best.ahead))
    (next : MarkerScan set (Text.encode (front ++ rest))
      (start + Text.byteCount best.marker.pattern) locations) :
    MarkerScan set (Text.encode (front ++ rest)) (Text.byteCount front)
      (⟨best.index, start, start + Text.byteCount best.marker.pattern - 1,
        start + Text.byteCount best.marker.pattern⟩ :: locations) := by
  have inside : best.ahead ≤ rest.length :=
    Nat.le_trans (Nat.le_add_right _ _) foremost.reach_le
  subst begins
  rw [← Text.length_encode best.marker.pattern] at next ⊢
  refine .found (by omega) ?_ ?_ ?_ ?_ next
  · exact (set.occursAt_iff front rest _ _ _).mpr
      ⟨best.marker, best.ahead, foremost.known, best.occurs, rfl, inside, rfl,
        foremost.occurs⟩
  · intro other otherPattern earlier behind found
    obtain ⟨offset, rfl⟩ := Nat.exists_eq_add_of_le behind
    obtain ⟨marker, place, named, nonempty, _, _, rfl, occurs⟩ :=
      (set.occursAt_iff front rest _ _ _).mp found
    have le : Text.byteCount (rest.take best.ahead) ≤ Text.byteCount (rest.take place) :=
      Text.byteCount_take_le (foremost.leftmost other marker place named nonempty occurs)
    omega
  · intro other otherPattern found
    obtain ⟨marker, named, nonempty, rfl, occurs⟩ := found.exists_prefix_drop inside
    have shorter : marker.pattern <+: best.marker.pattern :=
      List.prefix_of_prefix_length_le occurs foremost.occurs
        (foremost.longest other marker named nonempty occurs)
    exact (Text.encode_prefix_iff.mpr shorter).length_le
  · intro other found
    obtain ⟨marker, named, _, bytes, _⟩ := found.exists_prefix_drop inside
    exact foremost.lowest other marker named (Text.encode_injective bytes.symm)

/-- The locations in a text are those of the plain scan over its bytes. -/
theorem MarkerSet.scan_locate (set : MarkerSet) (text : Text) :
    MarkerScan set (Text.encode text) 0 (set.locate text) := by
  suffices behind : ∀ front : Text,
      MarkerScan set (Text.encode (front ++ text)) (Text.byteCount front)
        (Piece.locations (Text.byteCount front) (set.divide text).pieces) from behind []
  refine set.divide_induction (motive := fun text division => ∀ front : Text,
    MarkerScan set (Text.encode (front ++ text)) (Text.byteCount front)
      (Piece.locations (Text.byteCount front) division.pieces)) ?_ ?_ text
  · intro text absent front
    refine .done ?_
    intro index pattern start behind found
    obtain ⟨offset, rfl⟩ := Nat.exists_eq_add_of_le behind
    obtain ⟨marker, place, named, nonempty, _, _, _, occurs⟩ :=
      (set.occursAt_iff front text _ _ _).mp found
    exact absent index marker place named nonempty occurs
  · intro text best behind foremost inductionHypothesis front
    refine foremost.scan rfl ?_
    have next := inductionHypothesis (front ++ (text.take best.ahead ++ best.marker.pattern))
    rw [List.append_assoc, List.append_assoc, ← foremost.split, Text.byteCount_append,
      Text.byteCount_append, ← Nat.add_assoc] at next
    exact next

/-! ## Consequences of the plain scan -/

namespace MarkerScan

variable {set : MarkerSet} {bytes : List UInt8} {place : Nat} {locations : List Location}

/-- The plain scan has one outcome at most. -/
theorem unique (scan : MarkerScan set bytes place locations) {others : List Location}
    (other : MarkerScan set bytes place others) :
    locations = others := by
  induction scan generalizing others with
  | done nothing =>
      cases other with
      | done _ => rfl
      | found ahead occurs _ _ _ _ => exact absurd occurs (nothing _ _ _ ahead)
  | @found place start index pattern rest ahead occurs leftmost longest lowest _
      inductionHypothesis =>
      cases other with
      | done nothing => exact absurd occurs (nothing _ _ _ ahead)
      | @found _ start' index' pattern' rest' ahead' occurs' leftmost' longest' lowest' next =>
          obtain rfl : start = start' :=
            Nat.le_antisymm (leftmost _ _ _ ahead' occurs') (leftmost' _ _ _ ahead occurs)
          -- Both patterns begin the same bytes and have the same length.
          obtain rfl : pattern = pattern' :=
            (List.prefix_of_prefix_length_le occurs.2.2 occurs'.2.2
              (longest' _ _ occurs)).eq_of_length_le (longest _ _ occurs')
          obtain rfl : index = index' :=
            Nat.le_antisymm (lowest _ occurs') (lowest' _ occurs)
          rw [inductionHypothesis next]

/-- No location starts before the place of the scan. -/
theorem le_start (scan : MarkerScan set bytes place locations) {location : Location}
    (member : location ∈ locations) :
    place ≤ location.start := by
  induction scan with
  | done _ => cases member
  | found ahead _ _ _ _ _ inductionHypothesis =>
      rcases List.mem_cons.mp member with rfl | later
      · exact ahead
      · have := inductionHypothesis later
        omega

/-- Each location starts where an earlier one ends or behind it. -/
theorem ordered (scan : MarkerScan set bytes place locations) :
    locations.Pairwise fun earlier later => earlier.resume ≤ later.start := by
  induction scan with
  | done _ => exact List.Pairwise.nil
  | found _ _ _ _ _ next inductionHypothesis =>
      refine List.pairwise_cons.mpr ⟨?_, inductionHypothesis⟩
      intro later member
      exact next.le_start member

/-- Each location is an occurrence of its marker, from its start up to where
the scan goes on. -/
theorem exists_occursAt (scan : MarkerScan set bytes place locations) {location : Location}
    (member : location ∈ locations) :
    ∃ pattern, set.OccursAt bytes location.marker pattern location.start ∧
      location.resume = location.start + pattern.length := by
  induction scan with
  | done _ => cases member
  | @found _ _ _ pattern _ _ occurs _ _ _ _ inductionHypothesis =>
      rcases List.mem_cons.mp member with rfl | later
      · exact ⟨pattern, occurs, rfl⟩
      · exact inductionHypothesis later

end MarkerScan

/-- An occurrence among the bytes of a text begins and ends at boundaries. -/
theorem MarkerSet.OccursAt.boundaries {set : MarkerSet} {text : Text} {index start : Nat}
    {pattern : List UInt8} (occurs : set.OccursAt (Text.encode text) index pattern start) :
    text.IsBoundary start ∧ text.IsBoundary (start + pattern.length) ∧
      ∃ marker, set.markers[index]? = some marker ∧ marker.pattern ≠ [] := by
  obtain ⟨named, nonempty, begins⟩ := occurs
  obtain ⟨marker, known, rfl⟩ := Option.map_eq_some_iff.mp named
  have written : marker.pattern ≠ [] := by simpa using nonempty
  obtain ⟨front, back, rfl, rfl, rest, rfl⟩ := (Text.encode_prefix_drop_iff written start).mp begins
  refine ⟨⟨front, _, rfl, rfl⟩, ?_, marker, known, written⟩
  refine ⟨front ++ marker.pattern, rest, (List.append_assoc _ _ _).symm, ?_⟩
  rw [Text.byteCount_append, Text.length_encode]

/-- The locations of markers in a text are exactly those of the plain
leftmost-longest scan over its bytes. They start and end at boundaries, none
starts before the end of an earlier one, and a marker without a pattern has
none. -/
theorem MarkerSet.locate_leftmost_longest (set : MarkerSet) (text : Text) :
    (∀ locations, MarkerScan set (Text.encode text) 0 locations ↔
      locations = set.locate text) ∧
    (∀ location ∈ set.locate text,
      text.IsBoundary location.start ∧ text.IsBoundary location.resume ∧
        ∃ marker, set.markers[location.marker]? = some marker ∧ marker.pattern ≠ []) ∧
    (set.locate text).Pairwise fun earlier later => earlier.resume ≤ later.start := by
  have scan := set.scan_locate text
  refine ⟨?_, ?_, scan.ordered⟩
  · intro locations
    constructor
    · intro other
      exact other.unique scan
    · rintro rfl
      exact scan
  · intro location member
    obtain ⟨pattern, occurs, resumes⟩ := scan.exists_occursAt member
    rw [resumes]
    exact occurs.boundaries

end TerminalMarkup
