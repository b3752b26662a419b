import TerminalMarkup.Markup.Location
import TerminalMarkup.Proofs.Scanning.Tokenization
import TerminalMarkup.Proofs.Text.Boundary

/-!
Contract: the scan of a text piece by piece.

A character that no marker contains separates a text: no occurrence of a marker
stands across it, so the foremost occurrence before it is not disturbed by what
stands behind it, and a marker that occurs behind it only is found there as if
the text began there. The division of the whole text is therefore the divisions
of the two pieces, joined (`MarkerSet.divide_separated`), whatever the watch over
markers remembers on the way.
-/

set_option autoImplicit false

namespace TerminalMarkup

/-! ## Occurrences around a separator -/

section Occurrence

variable {separator : Char} {pattern front back : Text}

/-- A pattern without a separator does not go on behind it. -/
theorem prefix_append_separator_iff (apart : separator ∉ pattern) :
    pattern <+: front ++ separator :: back ↔ pattern <+: front := by
  constructor
  · intro occurs
    have fits : pattern.length ≤ front.length := by
      by_contra longer
      have covered : front ++ [separator] <+: pattern := by
        apply List.prefix_of_prefix_length_le _ occurs
        · simp only [List.length_append, List.length_singleton]
          omega
        · exact ⟨back, by simp⟩
      exact apart (covered.subset (by simp))
    exact List.prefix_of_prefix_length_le occurs (List.prefix_append _ _) fits
  · intro occurs
    exact occurs.trans (List.prefix_append _ _)

/-- A pattern without a separator occurs before it or behind it. -/
theorem prefix_drop_separated_iff (apart : separator ∉ pattern) (written : pattern ≠ [])
    (place : Nat) :
    pattern <+: (front ++ separator :: back).drop place ↔
      pattern <+: front.drop place ∨
        front.length < place ∧ pattern <+: back.drop (place - (front.length + 1)) := by
  by_cases before : place ≤ front.length
  · have notBehind : ¬ front.length < place := by omega
    rw [List.drop_append_of_le_length before, prefix_append_separator_iff apart]
    simp [notBehind]
  · obtain ⟨count, rfl⟩ : ∃ count, place = front.length + 1 + count :=
      Nat.exists_eq_add_of_le (by omega)
    have behind : (front ++ separator :: back).drop (front.length + 1 + count) =
        back.drop count := by
      rw [Nat.add_assoc, List.drop_length_add_append, Nat.add_comm, List.drop_succ_cons]
    have nothing : front.drop (front.length + 1 + count) = [] := by
      rw [List.drop_eq_nil_iff]
      omega
    rw [behind, nothing, List.prefix_nil, Nat.add_sub_cancel_left]
    simp only [written, false_or]
    exact ⟨fun occurs => ⟨by omega, occurs⟩, And.right⟩

end Occurrence

/-- Whether no marker with a pattern occurs anywhere in a text. -/
def Absent (markers : List Marker) (text : Text) : Prop :=
  ∀ (index : Nat) (marker : Marker) (place : Nat),
    markers[index]? = some marker → marker.pattern ≠ [] →
      ¬ marker.pattern <+: text.drop place

/-- Whether a character is in no pattern of some markers. -/
def Separates (separator : Char) (markers : List Marker) : Prop :=
  ∀ marker ∈ markers, separator ∉ marker.pattern

section Separated

variable {markers : List Marker} {separator : Char} {front back : Text} {best : Sighting}

theorem Separates.not_mem (separates : Separates separator markers) {index : Nat}
    {marker : Marker} (named : markers[index]? = some marker) :
    separator ∉ marker.pattern :=
  separates marker (List.mem_of_getElem? named)

theorem Absent.separated (separates : Separates separator markers)
    (absentFront : Absent markers front) (absentBack : Absent markers back) :
    Absent markers (front ++ separator :: back) := by
  intro index marker place named written occurs
  have apart := separates.not_mem named
  rcases (prefix_drop_separated_iff apart written place).mp occurs with before | ⟨_, behind⟩
  · exact absentFront index marker place named written before
  · exact absentBack index marker _ named written behind

/-- The foremost occurrence before a separator is foremost in the whole text. -/
theorem Foremost.before_separator (separates : Separates separator markers)
    (foremost : Foremost markers front best) (back : Text) :
    Foremost markers (front ++ separator :: back) best where
  known := foremost.known
  occurs := by
    have apart := separates.not_mem foremost.known
    exact (prefix_drop_separated_iff apart best.occurs _).mpr (.inl foremost.occurs)
  leftmost := by
    intro index marker place named written occurs
    have apart := separates.not_mem named
    have inFront := foremost.reach_le
    unfold Sighting.reach at inFront
    rcases (prefix_drop_separated_iff apart written place).mp occurs with before | ⟨behind, _⟩
    · exact foremost.leftmost index marker place named written before
    · omega
  longest := by
    intro index marker named written occurs
    have apart := separates.not_mem named
    have inFront := foremost.reach_le
    unfold Sighting.reach at inFront
    rcases (prefix_drop_separated_iff apart written _).mp occurs with before | ⟨behind, _⟩
    · exact foremost.longest index marker named written before
    · omega
  lowest := foremost.lowest

/-- A sighting with some more characters before it. -/
def Sighting.behind (count : Nat) (sighting : Sighting) : Sighting :=
  { sighting with ahead := count + sighting.ahead }

/-- Where no marker occurs before a separator, the foremost occurrence behind it
is foremost in the whole text. -/
theorem Foremost.behind_separator (separates : Separates separator markers)
    (absent : Absent markers front) (foremost : Foremost markers back best) :
    Foremost markers (front ++ separator :: back) (best.behind (front.length + 1)) where
  known := foremost.known
  occurs := by
    have apart := separates.not_mem foremost.known
    apply (prefix_drop_separated_iff apart best.occurs _).mpr
    refine .inr ⟨?_, ?_⟩
    · unfold Sighting.behind
      dsimp only
      omega
    · unfold Sighting.behind
      rw [Nat.add_sub_cancel_left]
      exact foremost.occurs
  leftmost := by
    intro index marker place named written occurs
    have apart := separates.not_mem named
    rcases (prefix_drop_separated_iff apart written place).mp occurs with
      before | ⟨behind, found⟩
    · exact absurd before (absent index marker place named written)
    · have near := foremost.leftmost index marker _ named written found
      unfold Sighting.behind
      dsimp only
      omega
  longest := by
    intro index marker named written occurs
    have apart := separates.not_mem named
    unfold Sighting.behind at occurs ⊢
    dsimp only at occurs ⊢
    rcases (prefix_drop_separated_iff apart written _).mp occurs with before | ⟨_, found⟩
    · exact absurd before (absent index marker _ named written)
    · rw [Nat.add_sub_cancel_left] at found
      exact foremost.longest index marker named written found
  lowest := foremost.lowest

end Separated

/-! ## The division as a relation -/

/-- Divisions that take the foremost occurrence for as long as there is one. -/
inductive Divides (markers : List Marker) : Text → Division → Prop where
  | stop {text : Text} (absent : Absent markers text) : Divides markers text ⟨[], text⟩
  | cut {text : Text} {best : Sighting} {behind : Division}
      (foremost : Foremost markers text best)
      (next : Divides markers (text.drop best.reach) behind) :
      Divides markers text
        ⟨⟨text.take best.ahead, best.index, best.marker⟩ :: behind.pieces, behind.remainder⟩

theorem MarkerSet.divides_divide (set : MarkerSet) (text : Text) :
    Divides set.markers text (set.divide text) :=
  set.divide_induction (fun _ absent => .stop absent)
    (fun _ _ _ foremost next => .cut foremost next) text

theorem Foremost.not_absent {markers : List Marker} {text : Text} {best : Sighting}
    (foremost : Foremost markers text best) :
    ¬ Absent markers text :=
  fun absent => absent _ _ _ foremost.known best.occurs foremost.occurs

/-- A text has one foremost occurrence at most. -/
theorem Foremost.unique {markers : List Marker} {text : Text} {best other : Sighting}
    (foremost : Foremost markers text best) (otherForemost : Foremost markers text other) :
    best = other := by
  have sameAhead : best.ahead = other.ahead := by
    have := foremost.leftmost _ _ _ otherForemost.known other.occurs otherForemost.occurs
    have := otherForemost.leftmost _ _ _ foremost.known best.occurs foremost.occurs
    omega
  have occurs := foremost.occurs
  have otherOccurs := otherForemost.occurs
  rw [sameAhead] at occurs
  rw [← sameAhead] at otherOccurs
  have shorter : best.marker.pattern.length ≤ other.marker.pattern.length :=
    otherForemost.longest _ _ foremost.known best.occurs occurs
  have longer : other.marker.pattern.length ≤ best.marker.pattern.length :=
    foremost.longest _ _ otherForemost.known other.occurs otherOccurs
  have samePattern : best.marker.pattern = other.marker.pattern := by
    rw [sameAhead] at otherOccurs
    exact (List.prefix_of_prefix_length_le occurs otherOccurs shorter).eq_of_length_le longer
  have sameIndex : best.index = other.index := by
    have := foremost.lowest _ _ otherForemost.known samePattern.symm
    have := otherForemost.lowest _ _ foremost.known samePattern
    omega
  have sameMarker : best.marker = other.marker := by
    have known := foremost.known
    rw [sameIndex, otherForemost.known] at known
    exact (Option.some.inj known).symm
  obtain ⟨index, marker, _, ahead⟩ := best
  obtain ⟨otherIndex, otherMarker, _, otherAhead⟩ := other
  obtain rfl : index = otherIndex := sameIndex
  obtain rfl : marker = otherMarker := sameMarker
  obtain rfl : ahead = otherAhead := sameAhead
  rfl

namespace Divides

variable {markers : List Marker} {text : Text} {division : Division}

theorem unique (divides : Divides markers text division) {other : Division}
    (otherDivides : Divides markers text other) :
    division = other := by
  induction divides generalizing other with
  | stop absent =>
      cases otherDivides with
      | stop _ => rfl
      | cut foremost _ => exact absurd absent foremost.not_absent
  | cut foremost _ inductionHypothesis =>
      cases otherDivides with
      | stop absent => exact absurd absent foremost.not_absent
      | cut otherForemost next =>
          obtain rfl := foremost.unique otherForemost
          rw [inductionHypothesis next]

theorem pattern_ne_nil (divides : Divides markers text division) :
    ∀ piece ∈ division.pieces, piece.marker.pattern ≠ [] := by
  induction divides with
  | stop _ => simp
  | @cut _ best _ _ _ inductionHypothesis =>
      exact List.forall_mem_cons.mpr ⟨best.occurs, inductionHypothesis⟩

end Divides

/-! ## Joined divisions -/

/-- Two divisions with text between them, which becomes literal text. -/
def Division.join (first : Division) (between : Text) (second : Division) : Division :=
  match second.pieces with
  | [] => ⟨first.pieces, first.remainder ++ (between ++ second.remainder)⟩
  | piece :: others =>
    { pieces := first.pieces ++
        { piece with lead := first.remainder ++ (between ++ piece.lead) } :: others
      remainder := second.remainder }

theorem Division.join_cons (piece : Piece) (first : Division) (between : Text)
    (second : Division) :
    join ⟨piece :: first.pieces, first.remainder⟩ between second =
      ⟨piece :: (first.join between second).pieces,
        (first.join between second).remainder⟩ := by
  unfold join
  cases second.pieces <;> rfl

/-- Around a separator, the division of the whole text is that of the two pieces,
joined. -/
theorem Divides.separated {markers : List Marker} {separator : Char} {front back : Text}
    {first second : Division} (separates : Separates separator markers)
    (divides : Divides markers front first) (dividesBack : Divides markers back second) :
    Divides markers (front ++ separator :: back) (first.join [separator] second) := by
  induction divides with
  | @stop front absent =>
      cases dividesBack with
      | stop absentBack => exact .stop (absent.separated separates absentBack)
      | @cut _ best behind foremost next =>
          have lead : (front ++ separator :: back).take (best.behind (front.length + 1)).ahead =
              front ++ separator :: back.take best.ahead := by
            show (front ++ separator :: back).take (front.length + 1 + best.ahead) = _
            rw [Nat.add_assoc, List.take_length_add_append, Nat.add_comm, List.take_succ_cons]
          have rest : (front ++ separator :: back).drop (best.behind (front.length + 1)).reach =
              back.drop best.reach := by
            show (front ++ separator :: back).drop
              (front.length + 1 + best.ahead + best.marker.pattern.length) = _
            rw [Nat.add_assoc, Nat.add_assoc, List.drop_length_add_append, Nat.add_comm 1,
              List.drop_succ_cons]
            rfl
          have whole := Divides.cut (foremost.behind_separator separates absent)
            (rest.symm ▸ next)
          rw [lead] at whole
          exact whole
  | @cut front best behind foremost next inductionHypothesis =>
      have inFront := foremost.reach_le
      have near : best.ahead ≤ front.length := by
        unfold Sighting.reach at inFront
        omega
      have lead : (front ++ separator :: back).take best.ahead = front.take best.ahead :=
        List.take_append_of_le_length near
      have rest : (front ++ separator :: back).drop best.reach =
          front.drop best.reach ++ separator :: back :=
        List.drop_append_of_le_length inFront
      have whole := Divides.cut (foremost.before_separator separates back)
        (rest.symm ▸ inductionHypothesis)
      rw [lead] at whole
      rw [Division.join_cons]
      exact whole

theorem MarkerSet.divide_separated {set : MarkerSet} {separator : Char}
    (separates : Separates separator set.markers) (front back : Text) :
    set.divide (front ++ separator :: back) =
      (set.divide front).join [separator] (set.divide back) :=
  (set.divides_divide _).unique
    ((set.divides_divide front).separated separates (set.divides_divide back))

/-! ## Joined locations -/

/-- A location in a text with some more bytes before it. -/
def Location.behind (count : Nat) (location : Location) : Location where
  marker := location.marker
  start := count + location.start
  last := count + location.last
  resume := count + location.resume

namespace Piece

/-- The text that a piece takes up. -/
def written (piece : Piece) : Text :=
  piece.lead ++ piece.marker.pattern

theorem locations_append (offset : Nat) (front back : List Piece) :
    locations offset (front ++ back) =
      locations offset front ++
        locations (offset + Text.byteCount (front.flatMap written)) back := by
  induction front generalizing offset with
  | nil => simp [locations]
  | cons piece rest inductionHypothesis =>
      have total : offset + Text.byteCount ((piece :: rest).flatMap written) =
          offset + Text.byteCount piece.lead + Text.byteCount piece.marker.pattern +
            Text.byteCount (rest.flatMap written) := by
        simp only [List.flatMap_cons, written, Text.byteCount_append]
        omega
      rw [total, List.cons_append, locations, locations, inductionHypothesis]
      rfl

/-- Text before the lead of the first piece counts as a later start. -/
theorem locations_lead (offset : Nat) (piece : Piece) (before : Text) (rest : List Piece) :
    locations offset ({ piece with lead := before ++ piece.lead } :: rest) =
      locations (offset + Text.byteCount before) (piece :: rest) := by
  simp only [locations, Text.byteCount_append, Nat.add_assoc]

/-- A later start moves every location. -/
theorem locations_add (count offset : Nat) {pieces : List Piece}
    (occur : ∀ piece ∈ pieces, piece.marker.pattern ≠ []) :
    locations (count + offset) pieces =
      (locations offset pieces).map (Location.behind count) := by
  induction pieces generalizing offset with
  | nil => rfl
  | cons piece rest inductionHypothesis =>
      obtain ⟨first, others⟩ := List.forall_mem_cons.mp occur
      have bytes := Text.byteCount_pos first
      have moved := inductionHypothesis
        (offset + Text.byteCount piece.lead + Text.byteCount piece.marker.pattern) others
      simp only [← Nat.add_assoc] at moved
      simp only [locations, List.map_cons, ← Nat.add_assoc, moved, Location.behind,
        List.cons.injEq, Location.mk.injEq, and_true, true_and]
      omega

end Piece

/-- The locations in a joined division are those of the first one, and those of
the second one behind the first text and what stands between. -/
theorem Division.locations_join (first second : Division) (between : Text)
    (occur : ∀ piece ∈ second.pieces, piece.marker.pattern ≠ []) :
    Piece.locations 0 (first.join between second).pieces =
      Piece.locations 0 first.pieces ++ (Piece.locations 0 second.pieces).map
        (Location.behind
          (Text.byteCount (first.pieces.flatMap Piece.written ++ first.remainder ++ between))) := by
  obtain ⟨pieces, remainder⟩ := second
  cases pieces with
  | nil => simp [join, Piece.locations]
  | cons piece others =>
      show Piece.locations 0 (first.pieces ++
        { piece with lead := first.remainder ++ (between ++ piece.lead) } :: others) = _
      rw [Piece.locations_append, ← List.append_assoc, Piece.locations_lead,
        ← Piece.locations_add _ _ occur]
      simp only [Text.byteCount_append, Nat.zero_add, Nat.add_zero, Nat.add_assoc]

/-- The locations in a text around a separator are those in the text before it,
and those in the text behind it, counted from there. -/
theorem MarkerSet.locate_separated {set : MarkerSet} {separator : Char}
    (separates : Separates separator set.markers) (front back : Text) :
    set.locate (front ++ separator :: back) =
      set.locate front ++ (set.locate back).map
        (Location.behind (Text.byteCount (front ++ [separator]))) := by
  have joined : (set.divide front).pieces.flatMap Piece.written ++
      (set.divide front).remainder = front :=
    (set.cuts_divide front).joined
  unfold locate
  rw [divide_separated separates,
    Division.locations_join _ _ _ (set.divides_divide back).pattern_ne_nil, joined]

end TerminalMarkup
