import TerminalMarkup.Text.Basic
import Mathlib.Data.List.Basic
import Mathlib.Data.List.Forall2
import Mathlib.Data.List.Infix

/-!
Contract: the line ends of a text and the numbers of its lines.

To split a text into lines and to end each of them with a line feed unifies
the line ends: carriage returns that stand directly before a line feed are
lost, and a last line without an end gets one (`endLines_lines`). Everything
else stays, so a text can be taken apart at any place but within a line end.

The number of a line is the number of line feeds before it. Deleting other
characters keeps the number of every character that stays
(`KeepsLines.exists_place`), and each line of the result comes from the line of
the source with its number (`KeepsLines.forall₂_splitOn`). A text that is made
of ended lines has its lines where they were put (`exists_line_of_endLines`).
Where the last line has no end, the lines are what line feeds split off
(`eq_splitOn_of_endLines`).
-/

set_option autoImplicit false

namespace TerminalMarkup.Text

/-! ## Line ends -/

/-- Some lines, each with a line feed behind it. -/
def endLines (lines : List Text) : Text :=
  lines.flatMap (· ++ ['\n'])

/-- A text without the carriage returns that stand directly before a line
feed. -/
def unifyLineEnds : Text → Text
  | [] => []
  | '\r' :: '\n' :: rest => '\n' :: unifyLineEnds rest
  | character :: rest => character :: unifyLineEnds rest

/-- Either nothing, or the line feed of a last line that lacked one. -/
def IsLastEnd (tail : Text) : Prop :=
  tail = [] ∨ tail = ['\n']

theorem lines_eq_nil_iff {text : Text} : lines text = [] ↔ text = [] := by
  constructor
  · intro noLines
    unfold lines at noLines
    split at noLines
    · rfl
    · cases noLines
    · cases noLines
    · split at noLines <;> cases noLines
  · rintro rfl
    rfl

/-- Ending each line anew unifies the line ends. -/
theorem endLines_lines (text : Text) :
    ∃ tail, IsLastEnd tail ∧ endLines (lines text) = unifyLineEnds text ++ tail := by
  fun_induction lines text with
  | case1 => exact ⟨[], .inl rfl, rfl⟩
  | case2 rest inductionHypothesis =>
      obtain ⟨tail, last, same⟩ := inductionHypothesis
      refine ⟨tail, last, ?_⟩
      show '\n' :: endLines (lines rest) = _
      rw [same]
      rfl
  | case3 rest inductionHypothesis =>
      obtain ⟨tail, last, same⟩ := inductionHypothesis
      refine ⟨tail, last, ?_⟩
      show '\n' :: endLines (lines rest) = _
      rw [same]
      rfl
  | case4 character rest notFeed notReturn noLines inductionHypothesis =>
      obtain rfl := lines_eq_nil_iff.mp noLines
      refine ⟨['\n'], .inr rfl, ?_⟩
      simp [endLines, unifyLineEnds]
  | case5 character rest notFeed notReturn line others found inductionHypothesis =>
      obtain ⟨tail, last, same⟩ := inductionHypothesis
      refine ⟨tail, last, ?_⟩
      have step : unifyLineEnds (character :: rest) = character :: unifyLineEnds rest := by
        rw [unifyLineEnds]
        exact notReturn
      rw [step, List.cons_append, ← same, found]
      rfl

/-- Line ends are unified piece by piece where no piece ends between a carriage
return and its line feed. -/
theorem unifyLineEnds_append {front back : Text}
    (apart : front.getLast? = some '\r' → back.head? ≠ some '\n') :
    unifyLineEnds (front ++ back) = unifyLineEnds front ++ unifyLineEnds back := by
  fun_induction unifyLineEnds front with
  | case1 => rfl
  | case2 rest inductionHypothesis =>
      have next : rest.getLast? = some '\r' → back.head? ≠ some '\n' := by
        intro last
        apply apart
        rw [List.getLast?_cons_cons, List.getLast?_cons, last]
        rfl
      rw [List.cons_append, List.cons_append, unifyLineEnds, inductionHypothesis next,
        List.cons_append]
  | case3 character rest notPair inductionHypothesis =>
      have next : rest.getLast? = some '\r' → back.head? ≠ some '\n' := by
        intro last
        apply apart
        rw [List.getLast?_cons, last]
        rfl
      rw [List.cons_append, List.cons_append, ← inductionHypothesis next, unifyLineEnds]
      intro behind isReturn isFeed
      cases rest with
      | nil => exact apart (by rw [isReturn]; rfl) (by rw [← List.nil_append back, isFeed]; rfl)
      | cons second others => exact notPair others isReturn (by simp_all)

/-- A text has unified line ends exactly if no carriage return stands directly
before a line feed. -/
theorem unifyLineEnds_eq_self_iff {text : Text} :
    unifyLineEnds text = text ↔ ¬ ['\r', '\n'] <:+: text := by
  fun_induction unifyLineEnds text with
  | case1 => simp
  | case2 rest inductionHypothesis =>
      have pair : ['\r', '\n'] <:+: '\r' :: '\n' :: rest := ⟨[], rest, rfl⟩
      simp [pair]
  | case3 character rest notPair inductionHypothesis =>
      have elsewhere : ¬ ['\r', '\n'] <+: character :: rest := by
        rintro ⟨behind, same⟩
        obtain ⟨first, later⟩ := List.cons.inj same
        exact notPair behind first.symm later.symm
      rw [List.infix_cons_iff, or_iff_right elsewhere, ← inductionHypothesis, List.cons.injEq]
      exact and_iff_right rfl

theorem unifyLineEnds_of_no_feed {text : Text} (oneLine : '\n' ∉ text) :
    unifyLineEnds text = text :=
  unifyLineEnds_eq_self_iff.mpr fun pair => oneLine (pair.subset (by simp))

/-- Unifying line ends only deletes characters. -/
theorem sublist_unifyLineEnds (text : Text) : (unifyLineEnds text).Sublist text := by
  fun_induction unifyLineEnds text with
  | case1 => exact List.Sublist.refl []
  | case2 rest inductionHypothesis => exact (inductionHypothesis.cons_cons '\n').cons '\r'
  | case3 character rest notPair inductionHypothesis =>
      exact inductionHypothesis.cons_cons character

/-- Unifying line ends changes the first character only to a line feed. -/
theorem head?_unifyLineEnds {text : Text} {first : Char}
    (member : first ∈ (unifyLineEnds text).head?) :
    first = '\n' ∨ first ∈ text.head? := by
  unfold unifyLineEnds at member
  split at member
  · exact .inr member
  · exact .inl (Option.some.inj member).symm
  · exact .inr member

theorem not_mem_of_mem_lines {text line : Text} (member : line ∈ lines text) :
    '\n' ∉ line := by
  fun_induction lines text generalizing line with
  | case1 => cases member
  | case2 rest inductionHypothesis =>
      rcases List.mem_cons.mp member with rfl | later
      · exact List.not_mem_nil
      · exact inductionHypothesis later
  | case3 rest inductionHypothesis =>
      rcases List.mem_cons.mp member with rfl | later
      · exact List.not_mem_nil
      · exact inductionHypothesis later
  | case4 character rest notFeed notReturn noLines inductionHypothesis =>
      obtain rfl := List.mem_singleton.mp member
      rw [List.mem_singleton]
      exact fun same => notFeed same.symm
  | case5 character rest notFeed notReturn first others found inductionHypothesis =>
      rw [found] at inductionHypothesis
      rcases List.mem_cons.mp member with rfl | later
      · rw [List.mem_cons, not_or]
        exact ⟨fun same => notFeed same.symm, inductionHypothesis List.mem_cons_self⟩
      · exact inductionHypothesis (List.mem_cons_of_mem first later)

/-! ## Deletion within lines -/

/-- A source and what is left of it after characters other than line feeds were
deleted. -/
inductive KeepsLines : Text → Text → Prop where
  | nil : KeepsLines [] []
  | keep {character : Char} {source result : Text} (behind : KeepsLines source result) :
      KeepsLines (character :: source) (character :: result)
  | drop {character : Char} {source result : Text} (inLine : character ≠ '\n')
      (behind : KeepsLines source result) :
      KeepsLines (character :: source) result

theorem lineFeeds_cons (character : Char) (rest : Text) :
    lineFeeds (character :: rest) = lineFeeds rest + if character = '\n' then 1 else 0 := by
  simp [lineFeeds, List.count_cons]

theorem lineFeeds_eq_zero {text : Text} (oneLine : '\n' ∉ text) : lineFeeds text = 0 :=
  List.count_eq_zero.mpr oneLine

theorem lineFeeds_append (front back : Text) :
    lineFeeds (front ++ back) = lineFeeds front + lineFeeds back :=
  List.count_append

theorem splitOn_feed_cons (character : Char) (rest : Text) :
    (character :: rest).splitOn '\n' =
      if character = '\n' then [] :: rest.splitOn '\n'
      else (rest.splitOn '\n').modifyHead (character :: ·) := by
  unfold List.splitOn
  rw [List.splitOnP_cons_eq_if_modifyHead]
  simp only [beq_iff_eq]

theorem exists_splitOn_feed (text : Text) :
    ∃ line others, text.splitOn '\n' = line :: others :=
  List.exists_cons_of_ne_nil (List.splitOn_ne_nil _ _)

namespace KeepsLines

variable {source result : Text}

theorem lineFeeds_eq (kept : KeepsLines source result) :
    lineFeeds source = lineFeeds result := by
  induction kept with
  | nil => rfl
  | keep behind inductionHypothesis =>
      rw [lineFeeds_cons, lineFeeds_cons, inductionHypothesis]
  | drop inLine behind inductionHypothesis =>
      rw [lineFeeds_cons, if_neg inLine, inductionHypothesis]
      rfl

/-- Each character of the result stands in the source too, and lines are kept
before it and behind it. -/
theorem exists_place (kept : KeepsLines source result) {front back : Text}
    {character : Char} (whole : result = front ++ character :: back) :
    ∃ before behind, source = before ++ character :: behind ∧
      KeepsLines before front ∧ KeepsLines behind back := by
  induction kept generalizing front with
  | nil => simp at whole
  | @keep first rest left kept inductionHypothesis =>
      cases front with
      | nil =>
          obtain ⟨rfl, rfl⟩ := List.cons.inj whole
          exact ⟨[], rest, rfl, .nil, kept⟩
      | cons other others =>
          obtain ⟨rfl, later⟩ := List.cons.inj whole
          obtain ⟨before, behind, rfl, keptBefore, keptBehind⟩ := inductionHypothesis later
          exact ⟨first :: before, behind, rfl, .keep keptBefore, keptBehind⟩
  | @drop first rest left inLine kept inductionHypothesis =>
      obtain ⟨before, behind, rfl, keptBefore, keptBehind⟩ := inductionHypothesis whole
      exact ⟨first :: before, behind, rfl, .drop inLine keptBefore, keptBehind⟩

/-- Each line of the result is what is left of the line of the source with its
number. -/
theorem forall₂_splitOn (kept : KeepsLines source result) :
    List.Forall₂ List.Sublist (result.splitOn '\n') (source.splitOn '\n') := by
  induction kept with
  | nil => exact .cons (List.Sublist.refl []) .nil
  | @keep first rest left kept inductionHypothesis =>
      obtain ⟨line, others, split⟩ := exists_splitOn_feed left
      obtain ⟨original, further, originalSplit⟩ := exists_splitOn_feed rest
      rw [split, originalSplit, List.forall₂_cons] at inductionHypothesis
      rw [splitOn_feed_cons, splitOn_feed_cons, split, originalSplit]
      split_ifs
      · exact .cons (List.Sublist.refl []) (List.forall₂_cons.mpr inductionHypothesis)
      · exact .cons (inductionHypothesis.1.cons_cons first) inductionHypothesis.2
  | @drop first rest left inLine kept inductionHypothesis =>
      obtain ⟨line, others, split⟩ := exists_splitOn_feed left
      obtain ⟨original, further, originalSplit⟩ := exists_splitOn_feed rest
      rw [split, originalSplit, List.forall₂_cons] at inductionHypothesis
      rw [splitOn_feed_cons, if_neg inLine, split, originalSplit]
      exact .cons (inductionHypothesis.1.cons first) inductionHypothesis.2

end KeepsLines

/-- A line of a text is the line with its number between the line feeds, perhaps
without a carriage return at its end. -/
theorem exists_splitOn_of_lines {text line : Text} {number : Nat}
    (found : (lines text)[number]? = some line) :
    ∃ original, (text.splitOn '\n')[number]? = some original ∧
      (original = line ∨ original = line ++ ['\r']) := by
  fun_induction lines text generalizing line number with
  | case1 => simp at found
  | case2 rest inductionHypothesis =>
      rw [splitOn_feed_cons, if_pos rfl]
      cases number with
      | zero => exact ⟨[], rfl, .inl (Option.some.inj found)⟩
      | succ number => exact inductionHypothesis found
  | case3 rest inductionHypothesis =>
      rw [splitOn_feed_cons, if_neg (by decide), splitOn_feed_cons, if_pos rfl]
      cases number with
      | zero =>
          refine ⟨['\r'], rfl, .inr ?_⟩
          rw [← Option.some.inj found]
          rfl
      | succ number => exact inductionHypothesis found
  | case4 character rest notFeed notReturn noLines inductionHypothesis =>
      obtain rfl := lines_eq_nil_iff.mp noLines
      rw [splitOn_feed_cons, if_neg notFeed]
      cases number with
      | zero => exact ⟨[character], rfl, .inl (Option.some.inj found)⟩
      | succ number => simp at found
  | case5 character rest notFeed notReturn first others split inductionHypothesis =>
      obtain ⟨original, further, originalSplit⟩ := exists_splitOn_feed rest
      rw [splitOn_feed_cons, if_neg notFeed, originalSplit]
      rw [split, originalSplit] at inductionHypothesis
      cases number with
      | zero =>
          obtain ⟨_, shown, ends⟩ := @inductionHypothesis first 0 rfl
          refine ⟨character :: original, rfl, ?_⟩
          rw [← Option.some.inj found, Option.some.inj shown, List.cons_append, List.cons.injEq,
            List.cons.injEq]
          simpa using ends
      | succ number => exact @inductionHypothesis line (number + 1) found

/-- In ended lines, a character other than a line feed stands in the line whose
number is that of the line feeds before it. -/
theorem exists_line_of_endLines {ended : List Text} (oneLine : ∀ line ∈ ended, '\n' ∉ line)
    {before rest : Text} {first : Char} (inLine : first ≠ '\n')
    (whole : endLines ended = before ++ first :: rest) :
    ∃ front, front <:+ before ∧
      ended[lineFeeds before]? = some (front ++ (first :: rest).takeWhile (· ≠ '\n')) := by
  induction ended generalizing before with
  | nil => simp [endLines] at whole
  | cons line others inductionHypothesis =>
      obtain ⟨one, later⟩ := List.forall_mem_cons.mp oneLine
      rw [endLines, List.flatMap_cons, List.append_assoc, List.singleton_append,
        ← endLines] at whole
      rcases List.append_eq_append_iff.mp whole with
        ⟨skipped, rfl, following⟩ | ⟨back, rfl, following⟩
      · cases skipped with
        | nil => exact absurd (List.cons.inj following).1.symm inLine
        | cons feed more =>
            obtain ⟨rfl, further⟩ := List.cons.inj following
            obtain ⟨front, atEnd, found⟩ := inductionHypothesis later further
            refine ⟨front, atEnd.trans ?_, ?_⟩
            · exact (List.suffix_cons _ _).trans (List.suffix_append line _)
            · rw [lineFeeds_append, lineFeeds_eq_zero one, lineFeeds_cons, if_pos rfl,
                Nat.zero_add, List.getElem?_cons_succ, found]
      · cases back with
        | nil => exact absurd (List.cons.inj following).1 inLine
        | cons other tail =>
            obtain ⟨rfl, further⟩ := List.cons.inj following
            rw [List.mem_append, not_or] at one
            have inside : ∀ character ∈ first :: tail, decide (character ≠ '\n') = true := by
              intro character member
              exact decide_eq_true fun same => one.2 (same ▸ member)
            refine ⟨before, List.suffix_refl before, ?_⟩
            rw [lineFeeds_eq_zero one.1, following, List.takeWhile_append_of_pos inside]
            simp

/-! ## Lines between line feeds -/

/-- What stands behind a text and has no line feed continues its last line. -/
theorem exists_splitOn_append (text : Text) :
    ∃ front last, text.splitOn '\n' = front ++ [last] ∧
      ∀ back : Text, '\n' ∉ back → (text ++ back).splitOn '\n' = front ++ [last ++ back] := by
  suffices continued : ∃ front last, ∀ back : Text, '\n' ∉ back →
      (text ++ back).splitOn '\n' = front ++ [last ++ back] by
    obtain ⟨front, last, split⟩ := continued
    exact ⟨front, last, by simpa using split [] List.not_mem_nil, split⟩
  induction text with
  | nil => exact ⟨[], [], fun back oneLine => List.splitOn_eq_singleton oneLine⟩
  | cons character rest inductionHypothesis =>
      obtain ⟨front, last, split⟩ := inductionHypothesis
      by_cases feed : character = '\n'
      · refine ⟨[] :: front, last, ?_⟩
        intro back oneLine
        rw [List.cons_append, splitOn_feed_cons, if_pos feed, split back oneLine,
          List.cons_append]
      · cases front with
        | nil =>
            refine ⟨[], character :: last, ?_⟩
            intro back oneLine
            rw [List.cons_append, splitOn_feed_cons, if_neg feed, split back oneLine]
            rfl
        | cons line others =>
            refine ⟨(character :: line) :: others, last, ?_⟩
            intro back oneLine
            rw [List.cons_append, splitOn_feed_cons, if_neg feed, split back oneLine]
            rfl

theorem mem_splitOn_append {text back line : Text} (oneLine : '\n' ∉ back)
    (listed : line ∈ (text ++ back).splitOn '\n') :
    line ∈ text.splitOn '\n' ∨ ∃ last ∈ text.splitOn '\n', line = last ++ back := by
  obtain ⟨front, last, lines, split⟩ := exists_splitOn_append text
  rw [split back oneLine, List.mem_append, List.mem_singleton] at listed
  rw [lines]
  rcases listed with inside | rfl
  · exact .inl (List.mem_append_left _ inside)
  · exact .inr ⟨last, by simp, rfl⟩

theorem exists_mem_splitOn_append {text back line : Text} (oneLine : '\n' ∉ back)
    (listed : line ∈ text.splitOn '\n') :
    ∃ rest, line ++ rest ∈ (text ++ back).splitOn '\n' := by
  obtain ⟨front, last, lines, split⟩ := exists_splitOn_append text
  rw [lines, List.mem_append, List.mem_singleton] at listed
  rw [split back oneLine]
  rcases listed with inside | rfl
  · exact ⟨[], by simp [inside]⟩
  · exact ⟨back, by simp⟩

theorem length_splitOn (text : Text) :
    (text.splitOn '\n').length = lineFeeds text + 1 := by
  induction text with
  | nil => rfl
  | cons character rest inductionHypothesis =>
      rw [splitOn_feed_cons, lineFeeds_cons]
      split_ifs
      · rw [List.length_cons, inductionHypothesis]
      · rw [List.length_modifyHead, inductionHypothesis, Nat.add_zero]

theorem length_lines_le (text : Text) : (lines text).length ≤ lineFeeds text + 1 := by
  rw [← length_splitOn]
  by_contra more
  have found := List.getElem?_eq_getElem (Nat.lt_of_not_le more)
  obtain ⟨original, place, _⟩ := exists_splitOn_of_lines found
  rw [List.getElem?_eq_none (Nat.le_refl _)] at place
  cases place

theorem mem_of_mem_splitOn {text line : Text} {character : Char}
    (listed : line ∈ text.splitOn '\n') (member : character ∈ line) :
    character ∈ text := by
  induction text generalizing line with
  | nil =>
      rw [List.splitOn_nil, List.mem_singleton] at listed
      rwa [listed] at member
  | cons first rest inductionHypothesis =>
      obtain ⟨head, others, split⟩ := exists_splitOn_feed rest
      rw [splitOn_feed_cons] at listed
      split_ifs at listed with feed
      · rcases List.mem_cons.mp listed with rfl | later
        · cases member
        · exact List.mem_cons_of_mem first (inductionHypothesis later member)
      · rw [split, List.modifyHead_cons, List.mem_cons] at listed
        rcases listed with rfl | later
        · rcases List.mem_cons.mp member with rfl | behind
          · exact List.mem_cons_self
          · exact List.mem_cons_of_mem first
              (inductionHypothesis (split ▸ List.mem_cons_self) behind)
        · exact List.mem_cons_of_mem first
            (inductionHypothesis (split ▸ List.mem_cons_of_mem head later) member)

/-- Line feeds split ended lines into the lines and nothing. -/
theorem splitOn_endLines {ended : List Text} (oneLine : ∀ line ∈ ended, '\n' ∉ line) :
    (endLines ended).splitOn '\n' = ended ++ [[]] := by
  induction ended with
  | nil => rfl
  | cons line others inductionHypothesis =>
      obtain ⟨first, later⟩ := List.forall_mem_cons.mp oneLine
      have whole : endLines (line :: others) = line ++ '\n' :: endLines others := by
        simp [endLines]
      rw [whole, List.splitOn_append_cons_self_of_not_mem first, inductionHypothesis later]
      rfl

theorem getLast?_endLines {ended : List Text} (nonempty : ended ≠ []) :
    (endLines ended).getLast? = some '\n' := by
  rw [← List.dropLast_append_getLast nonempty]
  simp [endLines]

/-- Line feeds split a text into the lines whose ends make it, without the last
end. -/
theorem eq_splitOn_of_endLines {ended : List Text} (oneLine : ∀ line ∈ ended, '\n' ∉ line)
    {text : Text} (whole : endLines ended = text ++ ['\n']) :
    ended = text.splitOn '\n' := by
  have split := splitOn_endLines oneLine
  rw [whole, List.splitOn_append_cons_self, List.splitOn_nil] at split
  exact (List.append_cancel_right split).symm

/-- Lines that are no more than a text in them has are the lines of that text,
with something before it and behind it in the first and the last line. -/
theorem exists_splitOn_of_few {ended : List Text} (oneLine : ∀ line ∈ ended, '\n' ∉ line)
    {front text between rest : Text} {mark : Char} (inLine : mark ≠ '\n')
    (whole : endLines ended = front ++ (text ++ (between ++ mark :: rest)))
    (few : ended.length ≤ lineFeeds text + 1) :
    ∃ back, '\n' ∉ front ∧ '\n' ∉ back ∧
      endLines ended = (front ++ (text ++ back)) ++ ['\n'] := by
  have nonempty : ended ≠ [] := by
    rintro rfl
    simp [endLines] at whole
  have last := getLast?_endLines nonempty
  rcases rest.eq_nil_or_concat with rfl | ⟨inner, final, rfl⟩
  · rw [whole] at last
    exact absurd (by simpa using last) inLine
  · obtain rfl : final = '\n' := by
      rw [whole] at last
      simpa [List.getLast?_cons] using last
    have split : endLines ended =
        (front ++ (text ++ (between ++ mark :: inner))) ++ ['\n'] := by
      rw [whole]
      simp
    have count := length_splitOn (front ++ (text ++ (between ++ mark :: inner)))
    rw [← eq_splitOn_of_endLines oneLine split, lineFeeds_append, lineFeeds_append] at count
    refine ⟨between ++ mark :: inner, ?_, ?_, split⟩
    · exact List.count_eq_zero.mp (show lineFeeds front = 0 by omega)
    · exact List.count_eq_zero.mp (show lineFeeds (between ++ mark :: inner) = 0 by omega)

/-- Where line ends are unified and the last line has none, to end each line adds
one line feed. -/
theorem endLines_lines_of_unended {text : Text} {final : Char}
    (unified : unifyLineEnds text = text) (last : text.getLast? = some final)
    (unended : final ≠ '\n') :
    endLines (lines text) = text ++ ['\n'] := by
  obtain ⟨tail, ending, whole⟩ := endLines_lines text
  rw [unified] at whole
  rcases ending with rfl | rfl
  · have nonempty : lines text ≠ [] := by
      intro noLines
      rw [lines_eq_nil_iff.mp noLines] at last
      cases last
    have feed := getLast?_endLines nonempty
    rw [whole, List.append_nil, last] at feed
    exact absurd (Option.some.inj feed) unended
  · exact whole

end TerminalMarkup.Text
