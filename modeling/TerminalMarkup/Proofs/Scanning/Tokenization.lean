import TerminalMarkup.Markup.Location
import TerminalMarkup.Proofs.Scanning.Watching
import TerminalMarkup.Proofs.Text.Boundary
import Mathlib.Data.List.Chain

/-!
Contract: the tokens of a text lose nothing of it and leave no marker in it.

A division cuts a text without loss, and no marker occurs within a stretch of
literal text: an occurrence there would stand before the foremost one
(`MarkerSet.cuts_divide`). The tokens are read off the division. Each mark is
written as the pattern of its marker, so the tokens are written as the text.

The same tokens are what a cursor cuts from the bytes of the text when it goes
from one location of a marker to the next (`MarkerSet.cutTokens_locate`).
-/

set_option autoImplicit false

namespace TerminalMarkup

/-- Whether a token is a stretch of literal text. -/
def Token.isText : Token → Bool
  | .text _ => true
  | _ => false

/-! ## The markers of a set -/

namespace MarkerSet

variable {symbols : Symbols} {names : List Text} {marker : Marker}

/-- A set has a marker for the closing symbol, one for the reset symbol and one
for each name behind the opening symbol, without the empty name. -/
theorem mem_build_iff :
    marker ∈ (build symbols names).markers ↔
      marker = ⟨symbols.closing, .closing⟩ ∨ marker = ⟨symbols.reset, .reset⟩ ∨
        ∃ name ∈ names, name ≠ [] ∧ marker = ⟨symbols.opening ++ name, .opening name⟩ := by
  simp only [build, List.mem_cons, List.mem_map, SortedNames.mem_ofList, List.mem_filter,
    decide_eq_true_eq, and_assoc, eq_comm (b := marker)]

/-- A marker of a set looks for what its mark is written as. -/
theorem written_of_mem_build (member : marker ∈ (build symbols names).markers) :
    marker.mark.token.written symbols = marker.pattern := by
  rcases mem_build_iff.mp member with rfl | rfl | ⟨name, _, _, rfl⟩
  · rfl
  · rfl
  · rfl

/-- The names behind the opening symbol are those given, without the empty
one. -/
theorem opening_of_mem_build (member : marker ∈ (build symbols names).markers)
    {name : Text} (opening : marker.mark = .opening name) :
    name ∈ names ∧ name ≠ [] := by
  rcases mem_build_iff.mp member with rfl | rfl | ⟨other, listed, nonempty, rfl⟩
  · cases opening
  · cases opening
  · have same : other = name := Mark.opening.inj opening
    rw [← same]
    exact ⟨listed, nonempty⟩

end MarkerSet

/-! ## Cuts without loss -/

/-- Whether no marker with a pattern occurs within a text. -/
def FreeOf (markers : List Marker) (text : Text) : Prop :=
  ∀ marker ∈ markers, marker.pattern ≠ [] → ¬ marker.pattern <:+: text

/-- What a division keeps of the text: its pieces and its remainder make up
the text, its markers are markers of the set, and no marker occurs in what is
left as literal text. -/
structure Division.Cuts (markers : List Marker) (text : Text) (division : Division) :
    Prop where
  joined : (division.pieces.flatMap fun piece => piece.lead ++ piece.marker.pattern) ++
    division.remainder = text
  known : ∀ piece ∈ division.pieces, piece.marker ∈ markers
  leads : ∀ piece ∈ division.pieces, FreeOf markers piece.lead
  remainder : FreeOf markers division.remainder

/-- A pattern within a text is a prefix of what stands at some place. -/
theorem exists_prefix_drop_of_infix {pattern text : Text} (occurs : pattern <:+: text) :
    ∃ place, place + pattern.length ≤ text.length ∧ pattern <+: text.drop place := by
  obtain ⟨front, back, rfl⟩ := occurs
  refine ⟨front.length, by simp, back, ?_⟩
  rw [List.append_assoc, List.drop_left]

/-- Whether a marker stands wherever a symbol stands in a text. -/
def MarkedAt (markers : List Marker) (symbol text : Text) : Prop :=
  ∀ place, symbol <+: text.drop place →
    ∃ marker ∈ markers, marker.pattern ≠ [] ∧ marker.pattern <+: text.drop place

theorem MarkedAt.of_mem {markers : List Marker} {marker : Marker} (member : marker ∈ markers)
    (nonempty : marker.pattern ≠ []) (text : Text) :
    MarkedAt markers marker.pattern text := by
  intro place occurs
  exact ⟨marker, member, nonempty, occurs⟩

theorem MarkedAt.drop {markers : List Marker} {symbol text : Text}
    (marked : MarkedAt markers symbol text) (count : Nat) :
    MarkedAt markers symbol (text.drop count) := by
  intro place occurs
  rw [List.drop_drop] at occurs ⊢
  exact marked (count + place) occurs

/-- A symbol that markers stand at does not occur in a text without markers. -/
theorem MarkedAt.not_occurs {markers : List Marker} {symbol text : Text}
    (marked : MarkedAt markers symbol text)
    (absent : ∀ (index : Nat) (marker : Marker) (place : Nat),
      markers[index]? = some marker → marker.pattern ≠ [] →
        ¬ marker.pattern <+: text.drop place) :
    ¬ symbol <:+: text := by
  intro inside
  obtain ⟨place, _, occurs⟩ := exists_prefix_drop_of_infix inside
  obtain ⟨marker, member, nonempty, found⟩ := marked place occurs
  obtain ⟨index, named⟩ := List.mem_iff_getElem?.mp member
  exact absent index marker place named nonempty found

/-- A symbol that markers stand at does not occur before the foremost one. -/
theorem Foremost.not_infix_lead {markers : List Marker} {text symbol : Text} {best : Sighting}
    (foremost : Foremost markers text best) (marked : MarkedAt markers symbol text)
    (symbolWritten : symbol ≠ []) :
    ¬ symbol <:+: text.take best.ahead := by
  intro inside
  obtain ⟨place, fits, occurs⟩ := exists_prefix_drop_of_infix inside
  rw [List.drop_take] at occurs
  obtain ⟨marker, member, nonempty, found⟩ :=
    marked place (occurs.trans (List.take_prefix _ _))
  obtain ⟨index, named⟩ := List.mem_iff_getElem?.mp member
  have near : best.ahead ≤ place := foremost.leftmost index marker place named nonempty found
  have := List.length_pos_iff.mpr symbolWritten
  rw [List.length_take] at fits
  omega

/-- Before its foremost occurrence no marker occurs in a text. -/
theorem Foremost.freeOf_lead {markers : List Marker} {text : Text} {best : Sighting}
    (foremost : Foremost markers text best) :
    FreeOf markers (text.take best.ahead) := by
  intro marker member nonempty
  exact foremost.not_infix_lead (.of_mem member nonempty text) nonempty

theorem MarkerSet.cuts_divide (set : MarkerSet) (text : Text) :
    (set.divide text).Cuts set.markers text := by
  apply set.divide_induction (motive := Division.Cuts set.markers)
  · intro text absent
    refine ⟨by simp, by simp, by simp, ?_⟩
    intro marker member nonempty
    exact (MarkedAt.of_mem member nonempty text).not_occurs absent
  · intro text best behind foremost cuts
    have marked : best.marker ∈ set.markers := List.mem_of_getElem? foremost.known
    refine ⟨?_, ?_, ?_, cuts.remainder⟩
    · rw [List.flatMap_cons, List.append_assoc, cuts.joined, List.append_assoc]
      exact foremost.split.symm
    · exact List.forall_mem_cons.mpr ⟨marked, cuts.known⟩
    · exact List.forall_mem_cons.mpr ⟨foremost.freeOf_lead, cuts.leads⟩

/-- A symbol that markers stand at does not occur in the literal text of a
division. -/
theorem MarkerSet.not_infix_divide (set : MarkerSet) {symbol : Text}
    (symbolWritten : symbol ≠ []) (text : Text) (marked : MarkedAt set.markers symbol text) :
    (∀ piece ∈ (set.divide text).pieces, ¬ symbol <:+: piece.lead) ∧
      ¬ symbol <:+: (set.divide text).remainder := by
  revert marked
  apply set.divide_induction (motive := fun text division =>
    MarkedAt set.markers symbol text →
      (∀ piece ∈ division.pieces, ¬ symbol <:+: piece.lead) ∧ ¬ symbol <:+: division.remainder)
  · intro text absent marked
    exact ⟨by simp, marked.not_occurs absent⟩
  · intro text best behind foremost inductionHypothesis marked
    obtain ⟨leads, remainder⟩ := inductionHypothesis (marked.drop best.reach)
    have lead := foremost.not_infix_lead marked symbolWritten
    exact ⟨List.forall_mem_cons.mpr ⟨lead, leads⟩, remainder⟩

/-! ## The tokens of a division -/

/-- The token of a mark is not literal text. -/
theorem Mark.isText_token (mark : Mark) : mark.token.isText = false := by
  cases mark <;> rfl

namespace Token

theorem flatMap_written_ofLiteral (symbols : Symbols) (stretch : Text) :
    (ofLiteral stretch).flatMap (written symbols) = stretch := by
  unfold ofLiteral
  split
  · next empty => exact empty.symm
  · simp [written]

/-- A stretch gives a token only if it is not empty. -/
theorem mem_ofLiteral_iff {token : Token} {stretch : Text} :
    token ∈ ofLiteral stretch ↔ stretch ≠ [] ∧ token = .text stretch := by
  unfold ofLiteral
  split
  · next empty => simp [empty]
  · next nonempty => simp [nonempty]

end Token

namespace Division

variable {markers : List Marker} {text : Text} {division : Division}

theorem tokens_cons (piece : Piece) (pieces : List Piece) (remainder : Text) :
    tokens ⟨piece :: pieces, remainder⟩ =
      Token.ofLiteral piece.lead ++ piece.marker.mark.token :: tokens ⟨pieces, remainder⟩ := by
  simp [tokens, Piece.tokens]

theorem mem_tokens_iff {token : Token} :
    token ∈ division.tokens ↔
      (∃ piece ∈ division.pieces,
        token ∈ Token.ofLiteral piece.lead ∨ token = piece.marker.mark.token) ∨
      token ∈ Token.ofLiteral division.remainder := by
  simp only [tokens, Piece.tokens, List.mem_append, List.mem_flatMap, List.mem_singleton]

/-- The tokens are written as the text, if each mark is written as the pattern
of its marker. -/
theorem Cuts.flatMap_written (cuts : division.Cuts markers text) {symbols : Symbols}
    (spelled : ∀ marker ∈ markers, marker.mark.token.written symbols = marker.pattern) :
    division.tokens.flatMap (Token.written symbols) = text := by
  have pieces : (division.pieces.flatMap Piece.tokens).flatMap (Token.written symbols) =
      division.pieces.flatMap fun piece => piece.lead ++ piece.marker.pattern := by
    rw [List.flatMap_assoc]
    apply List.flatMap_congr
    intro piece member
    have pattern := spelled piece.marker (cuts.known piece member)
    simp [Piece.tokens, Token.flatMap_written_ofLiteral, pattern]
  rw [tokens, List.flatMap_append, pieces, Token.flatMap_written_ofLiteral]
  exact cuts.joined

/-- A token of literal text is a lead or the remainder. -/
theorem Cuts.text_of_mem (cuts : division.Cuts markers text) {literal : Text}
    (member : .text literal ∈ division.tokens) :
    literal ≠ [] ∧ FreeOf markers literal := by
  rcases mem_tokens_iff.mp member with ⟨piece, listed, lead | mark⟩ | last
  · obtain ⟨nonempty, same⟩ := Token.mem_ofLiteral_iff.mp lead
    rw [Token.text.inj same]
    exact ⟨nonempty, cuts.leads piece listed⟩
  · have textual := congrArg Token.isText mark
    rw [Mark.isText_token] at textual
    cases textual
  · obtain ⟨nonempty, same⟩ := Token.mem_ofLiteral_iff.mp last
    rw [Token.text.inj same]
    exact ⟨nonempty, cuts.remainder⟩

/-- A token of a mark comes from a marker. -/
theorem Cuts.exists_marker_of_mem (cuts : division.Cuts markers text) {token : Token}
    (member : token ∈ division.tokens) (marking : token.isText = false) :
    ∃ marker ∈ markers, token = marker.mark.token := by
  rcases mem_tokens_iff.mp member with ⟨piece, listed, lead | mark⟩ | last
  · rw [(Token.mem_ofLiteral_iff.mp lead).2] at marking
    cases marking
  · exact ⟨piece.marker, cuts.known piece listed, mark⟩
  · rw [(Token.mem_ofLiteral_iff.mp last).2] at marking
    cases marking

/-- Two tokens of literal text do not follow each other: the token of a mark
stands between two stretches. -/
theorem isChain_tokens (division : Division) :
    division.tokens.IsChain fun earlier later => ¬ (earlier.isText ∧ later.isText) := by
  obtain ⟨pieces, remainder⟩ := division
  induction pieces with
  | nil =>
      rw [tokens, List.flatMap_nil, List.nil_append, Token.ofLiteral]
      split
      · exact List.isChain_nil
      · exact List.isChain_singleton _
  | cons piece rest inductionHypothesis =>
      have marked : (piece.marker.mark.token :: tokens ⟨rest, remainder⟩).IsChain
          fun earlier later => ¬ (earlier.isText ∧ later.isText) := by
        rw [List.isChain_cons]
        refine ⟨?_, inductionHypothesis⟩
        intro next _
        simp [Mark.isText_token]
      rw [tokens_cons, Token.ofLiteral]
      split
      · exact marked
      · apply List.IsChain.cons_cons _ marked
        simp [Mark.isText_token]

end Division

/-! ## Tokens between locations -/

/-- The tokens that a cursor cuts from the bytes of a text when it goes from
one location to the next: the text between the cursor and the location, then
the mark of the marker. The text behind the last location is the last token.
Stretches without bytes give no token. -/
inductive CutTokens (set : MarkerSet) (bytes : List UInt8) :
    Nat → List Location → List Token → Prop where
  | last {cursor : Nat} {literal : Text}
      (cut : Text.encode literal = bytes.drop cursor) :
      CutTokens set bytes cursor [] (Token.ofLiteral literal)
  | next {cursor : Nat} {location : Location} {rest : List Location} {literal : Text}
      {mark : Mark} {tokens : List Token}
      (cut : Text.encode literal = (bytes.take location.start).drop cursor)
      (known : set.mark? location.marker = some mark)
      (behind : CutTokens set bytes location.resume rest tokens) :
      CutTokens set bytes cursor (location :: rest)
        (Token.ofLiteral literal ++ mark.token :: tokens)

/-- A cursor cuts one list of tokens at most. -/
theorem CutTokens.unique {set : MarkerSet} {bytes : List UInt8} {cursor : Nat}
    {locations : List Location} {tokens others : List Token}
    (first : CutTokens set bytes cursor locations tokens)
    (second : CutTokens set bytes cursor locations others) :
    tokens = others := by
  induction first generalizing others with
  | last cut =>
      cases second with
      | last otherCut => rw [Text.encode_injective (cut.trans otherCut.symm)]
  | next cut known _ inductionHypothesis =>
      cases second with
      | next otherCut otherKnown behind =>
          rw [Text.encode_injective (cut.trans otherCut.symm),
            Option.some.inj (known.symm.trans otherKnown), inductionHypothesis behind]

/-- The tokens of a text are what a cursor cuts at the locations of markers. -/
theorem MarkerSet.cutTokens_locate (set : MarkerSet) (text : Text) :
    CutTokens set (Text.encode text) 0 (set.locate text) (set.tokenize text) := by
  suffices behind : ∀ front : Text,
      CutTokens set (Text.encode (front ++ text)) (Text.byteCount front)
        (Piece.locations (Text.byteCount front) (set.divide text).pieces)
        (set.divide text).tokens from behind []
  refine set.divide_induction (motive := fun text division => ∀ front : Text,
    CutTokens set (Text.encode (front ++ text)) (Text.byteCount front)
      (Piece.locations (Text.byteCount front) division.pieces) division.tokens) ?_ ?_ text
  · intro text _ front
    refine .last ?_
    exact (Text.drop_byteCount_encode front text 0).symm
  · intro text best behind foremost inductionHypothesis front
    have cut := Text.drop_take_encode front (text.take best.ahead)
      (best.marker.pattern ++ text.drop best.reach)
    have known : set.mark? best.index = some best.marker.mark := by
      rw [mark?, foremost.known]
      rfl
    have next := inductionHypothesis (front ++ (text.take best.ahead ++ best.marker.pattern))
    rw [List.append_assoc, List.append_assoc, ← foremost.split, Text.byteCount_append,
      Text.byteCount_append, ← Nat.add_assoc] at next
    rw [← foremost.split] at cut
    rw [Division.tokens_cons]
    exact .next cut.symm known next

/-! ## Tokenization -/

/-- Every text can be written back from its tokens. A token of literal text is
not empty, contains no marker that has a pattern, and does not stand next to
another one; an opening token has one of the names given. The markers are those
of the closing symbol, of the reset symbol and of each name behind the opening
symbol, and the tokens are what a cursor cuts from the bytes of the text at the
locations of the markers. -/
theorem MarkerSet.tokenize_lossless (symbols : Symbols) (names : List Text) (text : Text) :
    ((build symbols names).tokenize text).flatMap (Token.written symbols) = text ∧
    (∀ literal, .text literal ∈ (build symbols names).tokenize text →
      literal ≠ [] ∧ ∀ marker ∈ (build symbols names).markers,
        marker.pattern ≠ [] → ¬ marker.pattern <:+: literal) ∧
    (((build symbols names).tokenize text).IsChain fun earlier later =>
      ¬ (earlier.isText ∧ later.isText)) ∧
    (∀ name, .opening name ∈ (build symbols names).tokenize text →
      name ∈ names ∧ name ≠ []) ∧
    (∀ marker, marker ∈ (build symbols names).markers ↔
      marker = ⟨symbols.closing, .closing⟩ ∨ marker = ⟨symbols.reset, .reset⟩ ∨
        ∃ name ∈ names, name ≠ [] ∧ marker = ⟨symbols.opening ++ name, .opening name⟩) ∧
    ∀ tokens, CutTokens (build symbols names) (Text.encode text) 0
        ((build symbols names).locate text) tokens ↔
      tokens = (build symbols names).tokenize text := by
  have cuts := (build symbols names).cuts_divide text
  have located := (build symbols names).cutTokens_locate text
  refine ⟨?_, ?_, ?_, ?_, fun _ => mem_build_iff, ?_⟩
  · apply cuts.flatMap_written
    intro marker member
    exact written_of_mem_build member
  · intro literal member
    exact cuts.text_of_mem member
  · exact Division.isChain_tokens _
  · intro name member
    obtain ⟨marker, known, same⟩ := cuts.exists_marker_of_mem member rfl
    apply opening_of_mem_build known
    cases mark : marker.mark with
    | closing => rw [mark] at same; cases same
    | reset => rw [mark] at same; cases same
    | opening other =>
        rw [mark] at same
        rw [Token.opening.inj same]
  · intro tokens
    constructor
    · intro cut
      exact cut.unique located
    · rintro rfl
      exact located

end TerminalMarkup
