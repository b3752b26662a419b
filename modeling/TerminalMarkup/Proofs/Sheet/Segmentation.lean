import TerminalMarkup.Proofs.Text.Runs
import TerminalMarkup.Sheet.Source

/-!
Contract: the segments of a source, and what is left of them without comments.

A source is a sequence of quoted strings, comments and stretches of other
characters. A string or a comment goes on to the first closing mark behind its
opening mark, or to the end of the source; a stretch goes on to the next
opening mark. So there is one way to cut a source into segments, and removing
comments keeps each segment but the comments, of which it keeps the line feeds
(`stripComments_keeps_segments`).

The zones of `stripFrom` enter in one place: `stripFrom_cons` says what happens
to a character that is no mark of its zone, and `stripFrom_opener` and
`stripFrom_closer` say which zone a mark leads to.
-/

set_option autoImplicit false

namespace TerminalMarkup.Sheet

open Text (IsRun Separate)

/-! ## Segments -/

/-- What stands between an opening and a closing mark. -/
inductive Enclosure where
  | quotes
  | comment
deriving DecidableEq, Repr

namespace Enclosure

def opener : Enclosure → Text
  | quotes => ['"']
  | comment => ['/', '*']

def closer : Enclosure → Text
  | quotes => ['"']
  | comment => ['*', '/']

/-- What ends an enclosure: its closing mark, or nothing if it is left open. -/
def ending (kind : Enclosure) : Bool → Text
  | true => kind.closer
  | false => []

end Enclosure

/-- A quoted string or a comment, which may be left open, or a stretch of other
characters. -/
inductive Segment where
  | enclosed (kind : Enclosure) (contents : Text) (closed : Bool)
  | stretch (characters : Text)
deriving DecidableEq, Repr

namespace Segment

/-- The text of a segment, with its marks. -/
def written : Segment → Text
  | enclosed kind contents closed => kind.opener ++ (contents ++ kind.ending closed)
  | stretch characters => characters

/-- The text that stays of a segment: of a comment its line feeds, and of any
other segment all of it. -/
def kept : Segment → Text
  | enclosed .comment contents closed =>
    (enclosed .comment contents closed).written.filter (· = '\n')
  | segment => segment.written

/-- Whether a segment ends in front of a rest. There is no closing mark within
an enclosure, and one that is left open goes on to the end of the source. There
is no opening mark within a stretch, and one stands behind it unless the source
ends there. -/
def EndsBefore (rest : Text) : Segment → Prop
  | enclosed kind contents closed =>
    ¬ kind.closer <:+: contents ∧ (closed = false → rest = [])
  | stretch characters =>
    characters ≠ [] ∧ (∀ kind : Enclosure, ¬ kind.opener <:+: characters) ∧
      (rest = [] ∨ ∃ kind : Enclosure, kind.opener <+: rest)

end Segment

/-- A source is a sequence of segments, each of which ends in front of the text
of the others. -/
inductive Segmented : Text → List Segment → Prop where
  | nil : Segmented [] []
  | cons {source rest : Text} {segment : Segment} {others : List Segment}
      (split : source = segment.written ++ rest) (ends : segment.EndsBefore rest)
      (behind : Segmented rest others) :
      Segmented source (segment :: others)

/-! ## Marks -/

/-- The marks that end a stretch. -/
def openers : List Text :=
  [Enclosure.quotes.opener, Enclosure.comment.opener]

theorem mem_openers_iff {mark : Text} :
    mark ∈ openers ↔ ∃ kind : Enclosure, kind.opener = mark := by
  simp only [openers, List.mem_cons, List.not_mem_nil, or_false]
  constructor
  · rintro (rfl | rfl)
    · exact ⟨.quotes, rfl⟩
    · exact ⟨.comment, rfl⟩
  · rintro ⟨kind, rfl⟩
    cases kind <;> simp

theorem exists_opener_prefix_iff {text : Text} :
    (∃ mark ∈ openers, mark <+: text) ↔ ∃ kind : Enclosure, kind.opener <+: text := by
  constructor
  · rintro ⟨mark, member, starts⟩
    obtain ⟨kind, rfl⟩ := mem_openers_iff.mp member
    exact ⟨kind, starts⟩
  · rintro ⟨kind, starts⟩
    exact ⟨kind.opener, mem_openers_iff.mpr ⟨kind, rfl⟩, starts⟩

theorem separate_openers : Separate openers := by
  decide

theorem separate_closer (kind : Enclosure) : Separate [kind.closer] := by
  cases kind <;> decide

theorem Enclosure.opener_ne_nil (kind : Enclosure) : kind.opener ≠ [] := by
  cases kind <;> decide

/-- No text starts with both opening marks. -/
theorem Enclosure.eq_of_opener_prefix {kind other : Enclosure} {text : Text}
    (first : kind.opener <+: text) (second : other.opener <+: text) :
    kind = other := by
  obtain ⟨_, rfl⟩ := first
  cases kind <;> cases other <;> simp_all [Enclosure.opener]

namespace Segment

variable {rest : Text}

theorem written_enclosed_append (kind : Enclosure) (contents : Text) (closed : Bool) :
    (enclosed kind contents closed).written ++ rest =
      kind.opener ++ (contents ++ (kind.ending closed ++ rest)) := by
  rw [written, List.append_assoc, List.append_assoc]

theorem opener_prefix_written (kind : Enclosure) (contents : Text) (closed : Bool)
    (behind : Text) : kind.opener <+: (enclosed kind contents closed).written ++ behind := by
  rw [written_enclosed_append]
  exact List.prefix_append _ _

theorem EndsBefore.written_ne_nil {segment : Segment} (ends : segment.EndsBefore rest) :
    segment.written ≠ [] := by
  cases segment with
  | enclosed kind contents closed =>
      intro empty
      exact kind.opener_ne_nil (List.append_eq_nil_iff.mp empty).1
  | stretch characters => exact ends.1

/-! ## Segments as runs -/

/-- The contents of an enclosure are a run up to its closing mark. -/
theorem EndsBefore.isRun_contents {kind : Enclosure} {contents : Text} {closed : Bool}
    (ends : (enclosed kind contents closed).EndsBefore rest) :
    IsRun [kind.closer] contents (kind.ending closed ++ rest) where
  free := by
    intro mark member
    obtain rfl := List.mem_singleton.mp member
    exact ends.1
  stops := by
    cases closed with
    | false => exact .inl (ends.2 rfl)
    | true => exact .inr ⟨kind.closer, List.mem_singleton.mpr rfl, List.prefix_append _ _⟩

/-- A stretch is a run up to the next opening mark. -/
theorem EndsBefore.isRun_stretch {characters : Text}
    (ends : (stretch characters).EndsBefore rest) :
    IsRun openers characters rest where
  free := by
    intro mark member
    obtain ⟨kind, rfl⟩ := mem_openers_iff.mp member
    exact ends.2.1 kind
  stops := ends.2.2.imp_right exists_opener_prefix_iff.mpr

/-! ## One way to cut -/

/-- A stretch does not start with an opening mark. -/
theorem EndsBefore.not_opener_prefix {characters : Text}
    (ends : (stretch characters).EndsBefore rest) (kind : Enclosure) :
    ¬ kind.opener <+: characters ++ rest :=
  ends.isRun_stretch.not_prefix separate_openers ends.1 (mem_openers_iff.mpr ⟨kind, rfl⟩)

/-- An enclosure is closed if its closing mark stands behind its contents, and
left open if the source ends there. -/
theorem eq_of_ending_append {kind : Enclosure} {closed otherClosed : Bool} {tail : Text}
    (atEnd : closed = false → rest = []) (otherAtEnd : otherClosed = false → tail = [])
    (same : kind.ending closed ++ rest = kind.ending otherClosed ++ tail) :
    closed = otherClosed ∧ rest = tail := by
  have written : kind.closer ≠ [] := by cases kind <;> decide
  cases closed with
  | false =>
      obtain rfl := atEnd rfl
      cases otherClosed with
      | false => exact ⟨rfl, (otherAtEnd rfl).symm⟩
      | true => exact absurd (List.append_eq_nil_iff.mp same.symm).1 written
  | true =>
      cases otherClosed with
      | false =>
          obtain rfl := otherAtEnd rfl
          exact absurd (List.append_eq_nil_iff.mp same).1 written
      | true => exact ⟨rfl, List.append_cancel_left same⟩

/-- A text starts with one segment only. -/
theorem eq_of_written_append {segment other : Segment} {tail : Text}
    (ends : segment.EndsBefore rest) (otherEnds : other.EndsBefore tail)
    (same : segment.written ++ rest = other.written ++ tail) :
    segment = other ∧ rest = tail := by
  cases segment with
  | enclosed kind contents closed =>
      have opens := opener_prefix_written kind contents closed rest
      rw [same] at opens
      cases other with
      | enclosed otherKind otherContents otherClosed =>
          obtain rfl : kind = otherKind :=
            Enclosure.eq_of_opener_prefix opens (opener_prefix_written _ _ _ _)
          rw [written_enclosed_append, written_enclosed_append] at same
          obtain ⟨rfl, behind⟩ := ends.isRun_contents.unique otherEnds.isRun_contents
            (separate_closer kind) (List.append_cancel_left same)
          obtain ⟨rfl, rfl⟩ := eq_of_ending_append ends.2 otherEnds.2 behind
          exact ⟨rfl, rfl⟩
      | stretch characters => exact absurd opens (otherEnds.not_opener_prefix kind)
  | stretch characters =>
      cases other with
      | enclosed kind contents closed =>
          have opens := opener_prefix_written kind contents closed tail
          rw [← same] at opens
          exact absurd opens (ends.not_opener_prefix kind)
      | stretch others =>
          obtain ⟨rfl, rfl⟩ :=
            ends.isRun_stretch.unique otherEnds.isRun_stretch separate_openers same
          exact ⟨rfl, rfl⟩

end Segment

namespace Segmented

variable {source : Text} {segments others : List Segment}

/-- A source can be cut into segments in one way only. -/
theorem unique (cut : Segmented source segments) (otherCut : Segmented source others) :
    segments = others := by
  induction cut generalizing others with
  | nil =>
      cases otherCut with
      | nil => rfl
      | cons split ends behind =>
          exact absurd (List.append_eq_nil_iff.mp split.symm).1 ends.written_ne_nil
  | @cons source rest segment more split ends behind inductionHypothesis =>
      cases otherCut with
      | nil => exact absurd (List.append_eq_nil_iff.mp split.symm).1 ends.written_ne_nil
      | cons otherSplit otherEnds otherBehind =>
          obtain ⟨rfl, rfl⟩ :=
            Segment.eq_of_written_append ends otherEnds (split.symm.trans otherSplit)
          rw [inductionHypothesis otherBehind]

end Segmented

/-- A text that is not empty starts with a segment. -/
theorem exists_segment {source : Text} (nonempty : source ≠ []) :
    ∃ (segment : Segment) (rest : Text), source = segment.written ++ rest ∧
      segment.EndsBefore rest := by
  by_cases opens : ∃ kind : Enclosure, kind.opener <+: source
  · obtain ⟨kind, body, rfl⟩ := opens
    obtain ⟨contents, behind, rfl, run⟩ := Text.exists_run (separate_closer kind) body
    have unclosed : ¬ kind.closer <:+: contents :=
      run.free kind.closer (List.mem_singleton.mpr rfl)
    rcases run.stops with rfl | ⟨mark, member, rest, rfl⟩
    · exact ⟨.enclosed kind contents false, [],
        (Segment.written_enclosed_append kind contents false).symm, unclosed, fun _ => rfl⟩
    · obtain rfl := List.mem_singleton.mp member
      exact ⟨.enclosed kind contents true, rest,
        (Segment.written_enclosed_append kind contents true).symm, unclosed,
        fun isOpen => absurd isOpen (by decide)⟩
  · obtain ⟨characters, rest, rfl, run⟩ := Text.exists_run separate_openers source
    have stops := run.stops.imp_right exists_opener_prefix_iff.mp
    refine ⟨.stretch characters, rest, rfl, ?_, ?_, stops⟩
    · rintro rfl
      exact stops.elim nonempty opens
    · intro kind
      exact run.free kind.opener (mem_openers_iff.mpr ⟨kind, rfl⟩)

/-- Every source can be cut into segments. -/
theorem exists_segmented (source : Text) : ∃ segments, Segmented source segments := by
  induction bound : source.length using Nat.strongRecOn generalizing source with
  | ind length inductionHypothesis =>
      by_cases empty : source = []
      · exact ⟨[], empty ▸ .nil⟩
      · obtain ⟨segment, rest, split, ends⟩ := exists_segment empty
        have shorter : rest.length < length := by
          have := List.length_pos_iff.mpr ends.written_ne_nil
          rw [← bound, split, List.length_append]
          omega
        obtain ⟨others, behind⟩ := inductionHypothesis rest.length shorter rest rfl
        exact ⟨segment :: others, .cons split ends behind⟩

/-! ## Zones -/

/-- The zone that an opening mark leads to. -/
def Enclosure.zone : Enclosure → Zone
  | quotes => .quoted
  | comment => .comment

namespace Zone

/-- The marks that lead from a zone to another. -/
def marks : Zone → List Text
  | plain => openers
  | quoted => [Enclosure.quotes.closer]
  | comment => [Enclosure.comment.closer]

/-- What stays of a text in a zone. -/
def keep : Zone → Text → Text
  | comment, text => text.filter (· = '\n')
  | _, text => text

theorem keep_append (zone : Zone) (front back : Text) :
    zone.keep (front ++ back) = zone.keep front ++ zone.keep back := by
  cases zone with
  | comment => exact List.filter_append front back
  | plain => rfl
  | quoted => rfl

theorem separate_marks (zone : Zone) : Separate zone.marks := by
  cases zone <;> decide

end Zone

/-- Where no mark of its zone stands, a character stays as the zone has it. -/
theorem stripFrom_cons {zone : Zone} {character : Char} {rest : Text}
    (inside : ∀ mark ∈ zone.marks, ¬ mark <+: character :: rest) :
    stripFrom zone (character :: rest) = zone.keep [character] ++ stripFrom zone rest := by
  cases zone with
  | plain =>
      have noQuote := inside Enclosure.quotes.opener (by decide)
      have noComment := inside Enclosure.comment.opener (by decide)
      rw [stripFrom]
      · rfl
      · rintro rfl
        exact noQuote ⟨rest, rfl⟩
      · rintro behind rfl rfl
        exact noComment ⟨behind, rfl⟩
  | quoted =>
      have noQuote := inside Enclosure.quotes.closer (by decide)
      rw [stripFrom]
      · rfl
      · rintro rfl
        exact noQuote ⟨rest, rfl⟩
  | comment =>
      have noClosing := inside Enclosure.comment.closer (by decide)
      by_cases feed : character = '\n'
      · subst feed
        rw [stripFrom]
        rfl
      · rw [stripFrom]
        · simp [Zone.keep, feed]
        · rintro behind rfl rfl
          exact noClosing ⟨behind, rfl⟩
        · exact feed

theorem stripFrom_opener (kind : Enclosure) (rest : Text) :
    stripFrom .plain (kind.opener ++ rest) =
      kind.zone.keep kind.opener ++ stripFrom kind.zone rest := by
  cases kind with
  | quotes => rfl
  | comment => rfl

theorem stripFrom_closer (kind : Enclosure) (rest : Text) :
    stripFrom kind.zone (kind.closer ++ rest) =
      kind.zone.keep kind.closer ++ stripFrom .plain rest := by
  cases kind with
  | quotes => rfl
  | comment => rfl

/-- A run in a zone stays as the zone has it. -/
theorem stripFrom_run {zone : Zone} {front back : Text} (run : IsRun zone.marks front back) :
    stripFrom zone (front ++ back) = zone.keep front ++ stripFrom zone back := by
  induction front with
  | nil => cases zone <;> rfl
  | cons character front inductionHypothesis =>
      have inside : ∀ mark ∈ zone.marks, ¬ mark <+: character :: (front ++ back) :=
        fun _ => run.not_prefix zone.separate_marks (List.cons_ne_nil character front)
      have behind : IsRun zone.marks front back := run.of_suffix (List.suffix_cons character front)
      rw [List.cons_append, stripFrom_cons inside, inductionHypothesis behind,
        ← List.append_assoc, ← Zone.keep_append, List.singleton_append]

/-! ## Sources without comments -/

namespace Segment

theorem kept_enclosed (kind : Enclosure) (contents : Text) (closed : Bool) :
    (enclosed kind contents closed).kept =
      kind.zone.keep (enclosed kind contents closed).written := by
  cases kind <;> rfl

/-- Of a segment that ends in front of a rest there is left what is kept of it. -/
theorem EndsBefore.stripFrom_eq {segment : Segment} {rest : Text}
    (ends : segment.EndsBefore rest) :
    stripFrom .plain (segment.written ++ rest) = segment.kept ++ stripFrom .plain rest := by
  cases segment with
  | stretch characters => exact stripFrom_run ends.isRun_stretch
  | enclosed kind contents closed =>
      have run : IsRun kind.zone.marks contents (kind.ending closed ++ rest) := by
        cases kind <;> exact ends.isRun_contents
      have ending : stripFrom kind.zone (kind.ending closed ++ rest) =
          kind.zone.keep (kind.ending closed) ++ stripFrom .plain rest := by
        cases closed with
        | true => exact stripFrom_closer kind rest
        | false =>
            obtain rfl := ends.2 rfl
            cases kind <;> rfl
      rw [written_enclosed_append, stripFrom_opener, stripFrom_run run, ending, kept_enclosed,
        written, Zone.keep_append, Zone.keep_append, List.append_assoc, List.append_assoc]

end Segment

theorem stripComments_of_segmented {source : Text} {segments : List Segment}
    (cut : Segmented source segments) :
    stripComments source = segments.flatMap Segment.kept := by
  unfold stripComments
  induction cut with
  | nil => rfl
  | cons split ends behind inductionHypothesis =>
      rw [split, ends.stripFrom_eq, inductionHypothesis, List.flatMap_cons]

/-- Every source is in one way a sequence of quoted strings, comments and
stretches of other characters, and removing comments keeps the line feeds of
each comment and all of every other segment. -/
theorem stripComments_keeps_segments (source : Text) :
    ∃ segments, (∀ others, Segmented source others ↔ others = segments) ∧
      stripComments source = segments.flatMap Segment.kept := by
  obtain ⟨segments, cut⟩ := exists_segmented source
  refine ⟨segments, ?_, stripComments_of_segmented cut⟩
  intro others
  constructor
  · intro otherCut
    exact otherCut.unique cut
  · rintro rfl
    exact cut

/-- The star of an opening mark closes nothing, a quotation mark in a comment
opens nothing, and a comment mark in a string is text. -/
example : stripComments "a/*/ \"\n*/ \"/*\" //**/".toList = "a\n \"/*\" /".toList := by
  decide

end TerminalMarkup.Sheet
