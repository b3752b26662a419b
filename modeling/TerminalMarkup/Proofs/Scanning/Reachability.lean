import TerminalMarkup.Proofs.RuleSet.LastDefinition
import TerminalMarkup.Proofs.Scanning.Watching

/-!
Contract: what a scan finds where a marker stands alone.

A text that is the pattern of a marker is cut at once and as a whole, because
no marker can stand before this one or be longer. Markers of one pattern are
not told apart: the first of them is found (`MarkerSet.tokenize_pattern`).

In a rule set the closing and the reset symbol are the first two markers and
differ, so each of them is found. An opening symbol with the name of a rule
behind it is found exactly if this does not spell one of the two
(`RuleSet.scan_marker_alone`). Construction compares the symbols with one
another and not with the names behind the opening symbol, so a rule can be out
of reach (`RuleSet.rule_out_of_reach`).
-/

set_option autoImplicit false

namespace TerminalMarkup

/-! ## Patterns as texts -/

namespace MarkerSet

section Pattern

variable {set : MarkerSet} {marker : Marker}

/-- The foremost marker in the pattern of a marker starts with it and takes all
of it. -/
theorem pattern_eq_of_foremost {best : Sighting} (member : marker ∈ set.markers)
    (nonempty : marker.pattern ≠ []) (foremost : Foremost set.markers marker.pattern best) :
    best.ahead = 0 ∧ best.marker.pattern = marker.pattern := by
  obtain ⟨index, named⟩ := List.mem_iff_getElem?.mp member
  have here : marker.pattern <+: marker.pattern.drop 0 := List.prefix_refl _
  have atStart : best.ahead = 0 :=
    Nat.le_zero.mp (foremost.leftmost index marker 0 named nonempty here)
  rw [← atStart] at here
  have covers := foremost.longest index marker named nonempty here
  have occurs := foremost.occurs
  rw [atStart, List.drop_zero] at occurs
  exact ⟨atStart, occurs.eq_of_length_le covers⟩

/-- The pattern of a marker is cut into the foremost marker alone. -/
theorem divide_pattern (member : marker ∈ set.markers) (nonempty : marker.pattern ≠ []) :
    ∃ best : Sighting, Foremost set.markers marker.pattern best ∧
      set.divide marker.pattern = ⟨[⟨[], best.index, best.marker⟩], []⟩ := by
  have general := set.divide_induction (motive := fun text division =>
    (text = [] → division = ⟨[], []⟩) ∧
      (text = marker.pattern → ∃ best : Sighting, Foremost set.markers text best ∧
        division = ⟨[⟨[], best.index, best.marker⟩], []⟩)) ?_ ?_ marker.pattern
  · exact general.2 rfl
  · intro text absent
    refine ⟨?_, ?_⟩
    · rintro rfl
      rfl
    · rintro rfl
      obtain ⟨index, named⟩ := List.mem_iff_getElem?.mp member
      exact absurd (List.prefix_refl _) (absent index marker 0 named nonempty)
  · intro text best behind foremost inductionHypothesis
    refine ⟨?_, ?_⟩
    · rintro rfl
      have occurs := foremost.occurs
      rw [List.drop_nil, List.prefix_nil] at occurs
      exact absurd occurs best.occurs
    · rintro rfl
      obtain ⟨atStart, same⟩ := pattern_eq_of_foremost member nonempty foremost
      have nothing : marker.pattern.drop best.reach = [] := by
        rw [Sighting.reach, atStart, same, Nat.zero_add, List.drop_length]
      refine ⟨best, foremost, ?_⟩
      rw [inductionHypothesis.1 nothing, atStart, List.take_zero]

/-- The pattern of a marker, as a text, is one mark: that of the first marker
with this pattern. -/
theorem tokenize_pattern (member : marker ∈ set.markers) (nonempty : marker.pattern ≠ []) :
    ∃ (index : Nat) (first : Marker), set.markers[index]? = some first ∧
      first.pattern = marker.pattern ∧
      (∀ (other : Nat) (alike : Marker), set.markers[other]? = some alike →
        alike.pattern = marker.pattern → index ≤ other) ∧
      set.tokenize marker.pattern = [first.mark.token] := by
  obtain ⟨best, foremost, cut⟩ := divide_pattern member nonempty
  obtain ⟨_, same⟩ := pattern_eq_of_foremost member nonempty foremost
  refine ⟨best.index, best.marker, foremost.known, same, ?_, ?_⟩
  · intro other alike named spelled
    exact foremost.lowest other alike named (spelled.trans same.symm)
  · rw [tokenize, cut]
    rfl

end Pattern

/-! ## The markers of symbols and names -/

section Build

variable {symbols : Symbols} {names : List Text}

/-- The closing symbol hides every other marker that is spelled like it. -/
theorem tokenize_closing (filled : symbols.closing ≠ []) :
    (build symbols names).tokenize symbols.closing = [.closing] := by
  have member : ⟨symbols.closing, .closing⟩ ∈ (build symbols names).markers :=
    List.mem_cons_self
  obtain ⟨index, first, named, _, lowest, tokens⟩ := tokenize_pattern member filled
  have isFirst : index = 0 := Nat.le_zero.mp (lowest 0 _ rfl rfl)
  subst isFirst
  obtain rfl : _ = first := Option.some.inj named
  exact tokens

/-- The reset symbol hides every opening symbol with a name that is spelled like
it. -/
theorem tokenize_reset (filled : symbols.reset ≠ [])
    (differs : symbols.closing ≠ symbols.reset) :
    (build symbols names).tokenize symbols.reset = [.reset] := by
  have member : ⟨symbols.reset, .reset⟩ ∈ (build symbols names).markers :=
    List.mem_cons_of_mem _ List.mem_cons_self
  obtain ⟨index, first, named, spelled, lowest, tokens⟩ := tokenize_pattern member filled
  have early : index ≤ 1 := lowest 1 _ rfl rfl
  cases index with
  | zero =>
      obtain rfl : _ = first := Option.some.inj named
      exact absurd spelled differs
  | succ index =>
      obtain rfl : index = 0 := by omega
      obtain rfl : _ = first := Option.some.inj named
      exact tokens

/-- An opening symbol with a name behind it is found if neither symbol is
spelled like it. -/
theorem tokenize_opening {name : Text} (given : name ∈ names) (filled : name ≠ [])
    (notClosing : symbols.opening ++ name ≠ symbols.closing)
    (notReset : symbols.opening ++ name ≠ symbols.reset) :
    (build symbols names).tokenize (symbols.opening ++ name) = [.opening name] := by
  have member : ⟨symbols.opening ++ name, .opening name⟩ ∈ (build symbols names).markers := by
    refine List.mem_cons_of_mem _ (List.mem_cons_of_mem _ (List.mem_map.mpr ⟨name, ?_, rfl⟩))
    rw [SortedNames.mem_ofList, List.mem_filter]
    exact ⟨given, decide_eq_true filled⟩
  have nonempty : symbols.opening ++ name ≠ [] := fun empty =>
    filled (List.append_eq_nil_iff.mp empty).2
  obtain ⟨index, first, named, spelled, _, tokens⟩ := tokenize_pattern member nonempty
  have known : first ∈ (build symbols names).markers := List.mem_of_getElem? named
  simp only [build, List.mem_cons, List.mem_map] at known
  rcases known with rfl | rfl | ⟨other, _, rfl⟩
  · exact absurd spelled.symm notClosing
  · exact absurd spelled.symm notReset
  · rw [List.append_cancel_left spelled] at tokens
    exact tokens

end Build

end MarkerSet

/-! ## The markers of a rule set -/

namespace RuleSet

/-- In every rule set that can be built, each of the two symbols that stand
alone is scanned as its mark, and the opening symbol with the name of a rule is
scanned as the opening of this rule exactly if it is spelled like neither of the
two. -/
theorem scan_marker_alone {definitions : List (Text × Definition)} {settings : Settings}
    {rules : RuleSet} (built : build definitions settings = .ok rules) :
    rules.scan rules.settings.symbols.closing = [.closing] ∧
      rules.scan rules.settings.symbols.reset = [.reset] ∧
      ∀ name ∈ rules.names,
        rules.scan (rules.settings.symbols.opening ++ name) = [.opening name] ↔
          rules.settings.symbols.opening ++ name ≠ rules.settings.symbols.closing ∧
            rules.settings.symbols.opening ++ name ≠ rules.settings.symbols.reset := by
  obtain ⟨rfl, named⟩ := named_of_build built
  obtain ⟨faultless, _⟩ := build_eq_ok_iff.mp built
  obtain ⟨filled, distinct, _⟩ := (faults_eq_nil_iff definitions rules.settings).mp faultless
  have closing : rules.scan rules.settings.symbols.closing = [.closing] :=
    MarkerSet.tokenize_closing (filled .closing)
  have reset : rules.scan rules.settings.symbols.reset = [.reset] :=
    MarkerSet.tokenize_reset (filled .reset) (distinct .closing .reset (by decide))
  refine ⟨closing, reset, ?_⟩
  intro name member
  constructor
  · intro found
    refine ⟨?_, ?_⟩
    · intro hidden
      rw [hidden, closing] at found
      cases found
    · intro hidden
      rw [hidden, reset] at found
      cases found
  · rintro ⟨notClosing, notReset⟩
    exact MarkerSet.tokenize_opening member (named name member) notClosing notReset

/-- Symbols that begin what opens a rule, without being spelled like it. -/
def overlappingSymbols : Symbols :=
  { opening := "<".toList, closing := "<b".toList, reset := "<res".toList }

theorem overlapping_markers_alone :
    ∃ rules, build [("bold".toList, {})] { symbols := overlappingSymbols } = .ok rules ∧
      rules.scan "<b".toList = [.closing] ∧ rules.scan "<res".toList = [.reset] ∧
      rules.scan "<bold".toList = [.opening "bold".toList] ∧
      rules.scan "<reset".toList = [.opening resetName] := by
  obtain ⟨rules, built⟩ : ∃ rules,
    build [("bold".toList, {})] { symbols := overlappingSymbols } = .ok rules := ⟨_, rfl⟩
  obtain ⟨closing, reset, opening⟩ := scan_marker_alone built
  obtain ⟨settings, _⟩ := named_of_build built
  rw [settings] at closing reset opening
  refine ⟨rules, built, closing, reset, ?_, ?_⟩
  · exact (opening "bold".toList (by cases built; decide)).mpr (by decide)
  · exact (opening resetName (by cases built; decide)).mpr (by decide)

/-- Symbols that are spelled like what opens a rule: the closing symbol like the
rule `b`, the reset symbol like the reset rule. -/
def hidingSymbols : Symbols :=
  { opening := "<".toList, closing := "<b".toList, reset := "<reset".toList }

/-- A rule set can have rules that no text opens, since what opens them is
scanned as a symbol. -/
theorem rule_out_of_reach :
    ¬ ∀ (definitions : List (Text × Definition)) (settings : Settings) (rules : RuleSet),
      build definitions settings = .ok rules →
        rules.scan rules.settings.symbols.closing = [.closing] ∧
          rules.scan rules.settings.symbols.reset = [.reset] ∧
          ∀ name ∈ rules.names,
            rules.scan (rules.settings.symbols.opening ++ name) = [.opening name] := by
  intro reached
  obtain ⟨rules, built⟩ : ∃ rules,
    build [("b".toList, {})] { symbols := hidingSymbols } = .ok rules := ⟨_, rfl⟩
  obtain ⟨_, _, opening⟩ := reached _ _ rules built
  have found : rules.scan (rules.settings.symbols.opening ++ "b".toList) =
      [.opening "b".toList] := opening "b".toList (by cases built; decide)
  have hidden : rules.scan (rules.settings.symbols.opening ++ "b".toList) = [.closing] := by
    cases built
    decide +kernel
  rw [hidden] at found
  cases found

end RuleSet

end TerminalMarkup
