import TerminalMarkup.Markup.Division
import Mathlib.Data.List.Basic

/-!
Contract: the watch over markers between two cuts.

A division keeps the place of the next occurrence of each marker instead of
looking it up at every step. `Watching` is what makes this right: a place that
is known is that of the first occurrence in the text still to be divided, and a
marker that is no longer watched does not occur any more. A step looks up what
is not known (`Watching.sighted`) and forgets what a cut has passed
(`Sighted.watching`). `Sighted.foremost` says which occurrence a step takes.
-/

set_option autoImplicit false

namespace TerminalMarkup

/-! ## First occurrences -/

section Occurrence

variable {pattern text : Text} {ahead : Nat}

/-- The first occurrence of a pattern is where it occurs and does not occur
before. -/
theorem firstOccurrence_eq_some_iff (nonempty : pattern ≠ []) :
    firstOccurrence pattern text = some ahead ↔
      pattern <+: text.drop ahead ∧ ∀ earlier < ahead, ¬ pattern <+: text.drop earlier := by
  induction text generalizing ahead with
  | nil => simp [firstOccurrence, nonempty]
  | cons character rest inductionHypothesis =>
      unfold firstOccurrence
      by_cases here : pattern <+: character :: rest
      · rw [if_pos (List.isPrefixOf_iff_prefix.mpr here), Option.some.injEq]
        constructor
        · rintro rfl
          exact ⟨here, by simp⟩
        · rintro ⟨_, first⟩
          by_contra differs
          exact first 0 (by omega) here
      · rw [if_neg (by rwa [List.isPrefixOf_iff_prefix])]
        cases ahead with
        | zero => simp [here]
        | succ ahead =>
            rw [Option.map_eq_some_iff]
            simp only [Nat.add_right_cancel_iff, exists_eq_right, inductionHypothesis,
              List.drop_succ_cons]
            constructor
            · rintro ⟨occurs, first⟩
              refine ⟨occurs, ?_⟩
              intro earlier below
              cases earlier with
              | zero => exact here
              | succ earlier => exact first earlier (by omega)
            · rintro ⟨occurs, first⟩
              exact ⟨occurs, fun earlier below => first (earlier + 1) (by omega)⟩

theorem prefix_of_firstOccurrence (nonempty : pattern ≠ [])
    (found : firstOccurrence pattern text = some ahead) :
    pattern <+: text.drop ahead :=
  ((firstOccurrence_eq_some_iff nonempty).mp found).1

/-- No occurrence stands before the first one. -/
theorem le_of_firstOccurrence (nonempty : pattern ≠ [])
    (found : firstOccurrence pattern text = some ahead) {place : Nat}
    (occurs : pattern <+: text.drop place) :
    ahead ≤ place := by
  by_contra before
  exact ((firstOccurrence_eq_some_iff nonempty).mp found).2 place (by omega) occurs

/-- A pattern that occurs has a first occurrence. -/
theorem exists_firstOccurrence (nonempty : pattern ≠ []) {place : Nat}
    (occurs : pattern <+: text.drop place) :
    ∃ ahead, firstOccurrence pattern text = some ahead := by
  induction place using Nat.strongRecOn with
  | ind place inductionHypothesis =>
      by_cases first : ∀ earlier < place, ¬ pattern <+: text.drop earlier
      · exact ⟨place, (firstOccurrence_eq_some_iff nonempty).mpr ⟨occurs, first⟩⟩
      · push Not at first
        obtain ⟨earlier, below, occursEarlier⟩ := first
        exact inductionHypothesis earlier below occursEarlier

/-- Behind a cut that does not pass it, the first occurrence is the same. -/
theorem firstOccurrence_drop (nonempty : pattern ≠ []) {cut : Nat}
    (found : firstOccurrence pattern text = some ahead) (behind : cut ≤ ahead) :
    firstOccurrence pattern (text.drop cut) = some (ahead - cut) := by
  rw [firstOccurrence_eq_some_iff nonempty] at found ⊢
  rw [List.drop_drop, Nat.add_sub_cancel' behind]
  refine ⟨found.1, ?_⟩
  intro earlier below
  rw [List.drop_drop]
  exact found.2 (cut + earlier) (by omega)

end Occurrence

/-! ## The earliest sighting -/

namespace Sighting

/-- The order in which occurrences are taken: the leftmost, then the longest,
then the one of the lowest index. -/
def Beats (best other : Sighting) : Prop :=
  best.ahead < other.ahead ∨ best.ahead = other.ahead ∧
    (other.reach < best.reach ∨ other.reach = best.reach ∧ best.index ≤ other.index)

/-- Whether markers stand in ascending order of their indices. -/
def Ascending (sightings : List Sighting) : Prop :=
  sightings.Pairwise (·.index < ·.index)

theorem precedes_eq_true_iff (first second : Sighting) :
    first.precedes second = true ↔
      first.ahead < second.ahead ∨
        (first.ahead = second.ahead ∧ second.reach < first.reach) := by
  simp [precedes]

theorem earliest_eq_none_iff {sightings : List Sighting} :
    earliest sightings = none ↔ sightings = [] := by
  cases sightings with
  | nil => simp [earliest]
  | cons first others =>
      cases found : earliest others with
      | none => simp [earliest, found]
      | some best =>
          cases ahead : best.precedes first <;> simp [earliest, found, ahead]

theorem mem_of_earliest {sightings : List Sighting} {best : Sighting}
    (chosen : earliest sightings = some best) :
    best ∈ sightings := by
  induction sightings generalizing best with
  | nil => simp [earliest] at chosen
  | cons first others inductionHypothesis =>
      unfold earliest at chosen
      cases found : earliest others with
      | none =>
          rw [found] at chosen
          rw [Option.some.inj chosen]
          exact List.mem_cons_self
      | some candidate =>
          rw [found] at chosen
          dsimp only at chosen
          split at chosen
          · rw [← Option.some.inj chosen]
            exact List.mem_cons_of_mem first (inductionHypothesis found)
          · rw [← Option.some.inj chosen]
            exact List.mem_cons_self

/-- The earliest of the sightings beats each of them. -/
theorem beats_of_earliest {sightings : List Sighting} (ascending : Ascending sightings)
    {best : Sighting} (chosen : earliest sightings = some best) {other : Sighting}
    (member : other ∈ sightings) :
    best.Beats other := by
  induction sightings generalizing best other with
  | nil => cases member
  | cons first others inductionHypothesis =>
      obtain ⟨firstLowest, othersAscending⟩ := List.pairwise_cons.mp ascending
      unfold earliest at chosen
      cases found : earliest others with
      | none =>
          rw [found] at chosen
          rw [earliest_eq_none_iff] at found
          subst found
          rw [List.mem_singleton] at member
          rw [member, Option.some.inj chosen]
          exact .inr ⟨rfl, .inr ⟨rfl, Nat.le_refl _⟩⟩
      | some candidate =>
          rw [found] at chosen
          dsimp only at chosen
          have candidateBeats : ∀ sighting ∈ others, candidate.Beats sighting :=
            fun sighting known => inductionHypothesis othersAscending found known
          split at chosen <;> rename_i order <;> rw [precedes_eq_true_iff] at order
          · rw [← Option.some.inj chosen]
            rcases List.mem_cons.mp member with rfl | member
            · unfold Beats
              omega
            · exact candidateBeats other member
          · rw [← Option.some.inj chosen]
            rcases List.mem_cons.mp member with rfl | member
            · exact .inr ⟨rfl, .inr ⟨rfl, Nat.le_refl _⟩⟩
            · -- The first sighting is not behind the candidate and has a lower index.
              have beats := candidateBeats other member
              have lower := firstLowest other member
              unfold Beats at beats ⊢
              omega

end Sighting

/-! ## Knowing where the markers are -/

/-- The sightings of a text: where each marker that occurs in it occurs first. -/
structure Sighted (markers : List Marker) (text : Text) (sightings : List Sighting) :
    Prop where
  known : ∀ sighting ∈ sightings, markers[sighting.index]? = some sighting.marker
  current : ∀ sighting ∈ sightings,
    firstOccurrence sighting.marker.pattern text = some sighting.ahead
  complete : ∀ (index : Nat) (marker : Marker) (place : Nat),
    markers[index]? = some marker → marker.pattern ≠ [] →
      marker.pattern <+: text.drop place → ∃ sighting ∈ sightings, sighting.index = index
  ascending : Sighting.Ascending sightings

/-- The watches over a text: a place that is known is that of the first
occurrence, and every marker that still occurs is watched. -/
structure Watching (markers : List Marker) (text : Text) (watches : List Watch) : Prop where
  known : ∀ watch ∈ watches, markers[watch.index]? = some watch.marker
  current : ∀ watch ∈ watches, ∀ ahead, watch.ahead = some ahead →
    firstOccurrence watch.marker.pattern text = some ahead
  complete : ∀ (index : Nat) (marker : Marker) (place : Nat),
    markers[index]? = some marker → marker.pattern ≠ [] →
      marker.pattern <+: text.drop place → ∃ watch ∈ watches, watch.index = index
  ascending : watches.Pairwise (·.index < ·.index)

section Step

variable {markers : List Marker} {text : Text}

/-- Looking up a watched marker gives its first occurrence, whether its place
was known or not. -/
theorem Watching.sight_eq {watches : List Watch}
    (watching : Watching markers text watches) {watch : Watch} (member : watch ∈ watches) :
    watch.sight text = (firstOccurrence watch.marker.pattern text).map fun ahead =>
      ⟨watch.index, watch.marker, watch.occurs, ahead⟩ := by
  unfold Watch.sight
  cases place : watch.ahead with
  | none => rw [Option.none_or]
  | some ahead => rw [Option.some_or, watching.current watch member ahead place]

theorem Watching.sighted {watches : List Watch}
    (watching : Watching markers text watches) :
    Sighted markers text (watches.filterMap (Watch.sight text)) where
  known := by
    intro sighting member
    obtain ⟨watch, watched, seen⟩ := List.mem_filterMap.mp member
    rw [watching.sight_eq watched, Option.map_eq_some_iff] at seen
    obtain ⟨ahead, _, rfl⟩ := seen
    exact watching.known watch watched
  current := by
    intro sighting member
    obtain ⟨watch, watched, seen⟩ := List.mem_filterMap.mp member
    rw [watching.sight_eq watched, Option.map_eq_some_iff] at seen
    obtain ⟨ahead, found, rfl⟩ := seen
    exact found
  complete := by
    intro index marker place named nonempty occurs
    obtain ⟨watch, watched, rfl⟩ := watching.complete index marker place named nonempty occurs
    obtain rfl : watch.marker = marker :=
      Option.some.inj ((watching.known watch watched).symm.trans named)
    obtain ⟨ahead, found⟩ := exists_firstOccurrence nonempty occurs
    refine ⟨⟨watch.index, watch.marker, watch.occurs, ahead⟩, ?_, rfl⟩
    refine List.mem_filterMap.mpr ⟨watch, watched, ?_⟩
    rw [watching.sight_eq watched, found]
    rfl
  ascending := by
    unfold Sighting.Ascending
    rw [List.pairwise_filterMap]
    refine watching.ascending.imp ?_
    intro earlier later below first firstSeen second secondSeen
    unfold Watch.sight at firstSeen secondSeen
    obtain ⟨_, _, rfl⟩ := Option.map_eq_some_iff.mp firstSeen
    obtain ⟨_, _, rfl⟩ := Option.map_eq_some_iff.mp secondSeen
    exact below

theorem Sighted.watching {sightings : List Sighting}
    (sighted : Sighted markers text sightings) (cut : Nat) :
    Watching markers (text.drop cut) (sightings.map (Sighting.passing cut)) where
  known := by
    intro watch member
    obtain ⟨sighting, seen, rfl⟩ := List.mem_map.mp member
    exact sighted.known sighting seen
  current := by
    intro watch member ahead place
    obtain ⟨sighting, seen, rfl⟩ := List.mem_map.mp member
    unfold Sighting.passing at place
    dsimp only at place
    split at place
    · rename_i behind
      rw [← Option.some.inj place]
      exact firstOccurrence_drop sighting.occurs (sighted.current sighting seen) behind
    · cases place
  complete := by
    intro index marker place named nonempty occurs
    rw [List.drop_drop] at occurs
    obtain ⟨sighting, seen, rfl⟩ :=
      sighted.complete index marker (cut + place) named nonempty occurs
    exact ⟨sighting.passing cut, List.mem_map.mpr ⟨sighting, seen, rfl⟩, rfl⟩
  ascending := by
    rw [List.pairwise_map]
    exact sighted.ascending

/-- Before anything was looked up, every marker with a pattern is watched. -/
theorem watching_watches (set : MarkerSet) (text : Text) :
    Watching set.markers text set.watches := by
  have watched : ∀ (index : Nat) (marker : Marker) (watch : Watch),
      marker.watch? index = some watch →
        watch.index = index ∧ watch.marker = marker ∧ watch.ahead = none := by
    intro index marker watch made
    unfold Marker.watch? at made
    split at made
    · cases made
      exact ⟨rfl, rfl, rfl⟩
    · cases made
  constructor
  · intro watch member
    obtain ⟨⟨marker, index⟩, listed, made⟩ := List.mem_filterMap.mp member
    obtain ⟨rfl, rfl, _⟩ := watched index marker watch made
    exact List.mk_mem_zipIdx_iff_getElem?.mp listed
  · intro watch member ahead place
    obtain ⟨⟨marker, index⟩, _, made⟩ := List.mem_filterMap.mp member
    obtain ⟨_, _, unknown⟩ := watched index marker watch made
    rw [unknown] at place
    cases place
  · intro index marker place named nonempty _
    refine ⟨⟨index, marker, nonempty, none⟩, ?_, rfl⟩
    refine List.mem_filterMap.mpr ⟨(marker, index), ?_, ?_⟩
    · exact List.mk_mem_zipIdx_iff_getElem?.mpr named
    · exact dif_pos nonempty
  · unfold MarkerSet.watches
    rw [List.pairwise_filterMap]
    have indices : (set.markers.zipIdx.map Prod.snd).Pairwise (· < ·) := by
      rw [List.zipIdx_map_snd]
      exact List.pairwise_lt_range'
    rw [List.pairwise_map] at indices
    refine indices.imp ?_
    intro earlier later below first firstMade second secondMade
    rw [(watched _ _ _ firstMade).1, (watched _ _ _ secondMade).1]
    exact below

end Step

/-! ## The occurrence that a step takes -/

/-- The leftmost occurrence of a marker in a text; of several at one place the
longest, and of equal patterns the one of the lowest index. -/
structure Foremost (markers : List Marker) (text : Text) (best : Sighting) : Prop where
  known : markers[best.index]? = some best.marker
  occurs : best.marker.pattern <+: text.drop best.ahead
  leftmost : ∀ (index : Nat) (marker : Marker) (place : Nat),
    markers[index]? = some marker → marker.pattern ≠ [] →
      marker.pattern <+: text.drop place → best.ahead ≤ place
  longest : ∀ (index : Nat) (marker : Marker),
    markers[index]? = some marker → marker.pattern ≠ [] →
      marker.pattern <+: text.drop best.ahead →
        marker.pattern.length ≤ best.marker.pattern.length
  lowest : ∀ (index : Nat) (marker : Marker),
    markers[index]? = some marker → marker.pattern = best.marker.pattern →
      best.index ≤ index

namespace Sighted

variable {markers : List Marker} {text : Text} {sightings : List Sighting}

/-- Where nothing was sighted, no marker occurs. -/
theorem not_prefix_of_earliest (sighted : Sighted markers text sightings)
    (nothing : Sighting.earliest sightings = none) {index : Nat} {marker : Marker}
    (named : markers[index]? = some marker) (nonempty : marker.pattern ≠ []) (place : Nat) :
    ¬ marker.pattern <+: text.drop place := by
  intro occurs
  obtain ⟨sighting, member, _⟩ := sighted.complete index marker place named nonempty occurs
  rw [Sighting.earliest_eq_none_iff.mp nothing] at member
  cases member

/-- The earliest sighting beats a first occurrence of any marker that occurs. -/
private theorem exists_beaten (sighted : Sighted markers text sightings)
    {best : Sighting} (chosen : Sighting.earliest sightings = some best) {index : Nat}
    {marker : Marker} (named : markers[index]? = some marker)
    (nonempty : marker.pattern ≠ []) {place : Nat}
    (occurs : marker.pattern <+: text.drop place) :
    ∃ sighting : Sighting, best.Beats sighting ∧ sighting.index = index ∧
      sighting.marker = marker ∧ sighting.ahead ≤ place := by
  obtain ⟨sighting, member, rfl⟩ :=
    sighted.complete index marker place named nonempty occurs
  obtain rfl : sighting.marker = marker :=
    Option.some.inj ((sighted.known sighting member).symm.trans named)
  exact ⟨sighting, Sighting.beats_of_earliest sighted.ascending chosen member, rfl, rfl,
    le_of_firstOccurrence nonempty (sighted.current sighting member) occurs⟩

theorem foremost (sighted : Sighted markers text sightings) {best : Sighting}
    (chosen : Sighting.earliest sightings = some best) :
    Foremost markers text best := by
  have member := Sighting.mem_of_earliest chosen
  have occurs : best.marker.pattern <+: text.drop best.ahead :=
    prefix_of_firstOccurrence best.occurs (sighted.current best member)
  have leftmost : ∀ (index : Nat) (marker : Marker) (place : Nat),
      markers[index]? = some marker → marker.pattern ≠ [] →
        marker.pattern <+: text.drop place → best.ahead ≤ place := by
    intro index marker place named nonempty found
    obtain ⟨sighting, beats, _, _, near⟩ :=
      sighted.exists_beaten chosen named nonempty found
    unfold Sighting.Beats at beats
    omega
  refine ⟨sighted.known best member, occurs, leftmost, ?_, ?_⟩
  · intro index marker named nonempty found
    obtain ⟨sighting, beats, _, rfl, near⟩ :=
      sighted.exists_beaten chosen named nonempty found
    unfold Sighting.Beats Sighting.reach at beats
    omega
  · intro index marker named same
    rw [← same] at occurs
    obtain ⟨sighting, beats, rfl, rfl, near⟩ :=
      sighted.exists_beaten chosen named (same ▸ best.occurs) occurs
    unfold Sighting.Beats Sighting.reach at beats
    rw [same] at beats
    omega

end Sighted

theorem Foremost.reach_le {markers : List Marker} {text : Text} {best : Sighting}
    (foremost : Foremost markers text best) :
    best.reach ≤ text.length := by
  have fits := foremost.occurs.length_le
  have written := List.length_pos_iff.mpr best.occurs
  rw [List.length_drop] at fits
  unfold Sighting.reach
  omega

/-- The text before the foremost occurrence, the occurrence, and the text
behind it. -/
theorem Foremost.split {markers : List Marker} {text : Text} {best : Sighting}
    (foremost : Foremost markers text best) :
    text = text.take best.ahead ++ (best.marker.pattern ++ text.drop best.reach) := by
  obtain ⟨rest, same⟩ := foremost.occurs
  have behind : text.drop best.reach = rest := by
    rw [Sighting.reach, ← List.drop_drop, ← same, List.drop_left]
  rw [behind, same, List.take_append_drop]

/-! ## Divisions -/

namespace Division

variable {watches : List Watch} {text : Text}

theorem ofWatches_of_none
    (nothing : Sighting.earliest (watches.filterMap (Watch.sight text)) = none) :
    ofWatches watches text = ⟨[], text⟩ := by
  cases text with
  | nil => rw [ofWatches]
  | cons character rest =>
      rw [ofWatches]
      simp only [nothing]

theorem ofWatches_of_some {best : Sighting} (nonempty : text ≠ [])
    (chosen : Sighting.earliest (watches.filterMap (Watch.sight text)) = some best) :
    ofWatches watches text =
      let behind := ofWatches
        ((watches.filterMap (Watch.sight text)).map (Sighting.passing best.reach))
        (text.drop best.reach)
      ⟨⟨text.take best.ahead, best.index, best.marker⟩ :: behind.pieces,
        behind.remainder⟩ := by
  cases text with
  | nil => contradiction
  | cons character rest =>
      rw [ofWatches]
      simp only [chosen]

end Division

/-- A property of divisions holds of the division of every text if it holds
where no marker occurs, and passes from the text behind the foremost occurrence
to the whole text. -/
theorem Watching.induction {markers : List Marker} {motive : Text → Division → Prop}
    (stop : ∀ text, (∀ (index : Nat) (marker : Marker) (place : Nat),
      markers[index]? = some marker → marker.pattern ≠ [] →
        ¬ marker.pattern <+: text.drop place) → motive text ⟨[], text⟩)
    (cut : ∀ text best behind, Foremost markers text best →
      motive (text.drop best.reach) behind →
        motive text ⟨⟨text.take best.ahead, best.index, best.marker⟩ :: behind.pieces,
          behind.remainder⟩)
    {watches : List Watch} {text : Text} (watching : Watching markers text watches) :
    motive text (Division.ofWatches watches text) := by
  induction bound : text.length using Nat.strongRecOn generalizing watches text with
  | ind length inductionHypothesis =>
      cases chosen : Sighting.earliest (watches.filterMap (Watch.sight text)) with
      | none =>
          rw [Division.ofWatches_of_none chosen]
          apply stop
          intro index marker place named nonempty
          exact watching.sighted.not_prefix_of_earliest chosen named nonempty place
      | some best =>
          have foremost := watching.sighted.foremost chosen
          have nonempty : text ≠ [] := by
            rintro rfl
            simpa [best.occurs] using foremost.occurs
          rw [Division.ofWatches_of_some nonempty chosen]
          apply cut text best _ foremost
          apply inductionHypothesis (text.drop best.reach).length _ _ rfl
          · have := best.reach_pos
            have := List.length_pos_iff.mpr nonempty
            rw [List.length_drop]
            omega
          · exact watching.sighted.watching best.reach

/-- The division of a text at the markers of a set takes the foremost
occurrence and then divides the text behind it. -/
theorem MarkerSet.divide_induction (set : MarkerSet) {motive : Text → Division → Prop}
    (stop : ∀ text, (∀ (index : Nat) (marker : Marker) (place : Nat),
      set.markers[index]? = some marker → marker.pattern ≠ [] →
        ¬ marker.pattern <+: text.drop place) → motive text ⟨[], text⟩)
    (cut : ∀ text best behind, Foremost set.markers text best →
      motive (text.drop best.reach) behind →
        motive text ⟨⟨text.take best.ahead, best.index, best.marker⟩ :: behind.pieces,
          behind.remainder⟩)
    (text : Text) :
    motive text (set.divide text) :=
  Watching.induction stop cut (watching_watches set text)

end TerminalMarkup
