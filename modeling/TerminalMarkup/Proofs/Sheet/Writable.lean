import Mathlib.Data.List.Forall2
import Mathlib.Tactic.Choose
import TerminalMarkup.Proofs.Sheet.Writing

/-!
Contract: what is written for a sheet consists of well-formed lexemes, and
something is written for every sheet.

Names of rules and symbols are the author's, so a sheet must be writable for its
lexemes to be well formed (`WritesSheet.allFormed`). Everything else that is
written comes from fixed words and from numbers below 256. No such condition is
needed for a source to exist (`exists_written`).
-/

set_option autoImplicit false

namespace TerminalMarkup

namespace Sheet

open Lexeme

/-! ## Words of sheets -/

theorem isWord_attribute {style : Attribute} {text : Text} (member : text ∈ style.words) :
    IsWord text := by
  have each : ∀ style ∈ Attribute.all, ∀ text ∈ style.words, IsWord text := by
    decide +kernel
  exact each style style.mem_all text member

theorem isWord_target (target : Target) : IsWord target.word := by
  have each : ∀ target ∈ Target.members, IsWord target.word := by decide +kernel
  cases target <;> exact each _ (by decide)

theorem isWord_resetEntry {entry : ResetEntry} {text : Text} (member : text ∈ entry.words) :
    IsWord text := by
  cases entry with
  | target target =>
      rw [ResetEntry.words, List.mem_singleton] at member
      exact member ▸ isWord_target target
  | style single => exact isWord_attribute member

theorem isWord_baseColor (color : BaseColor) : IsWord color.name := by
  have each : ∀ color ∈ BaseColor.all, IsWord color.name := by decide +kernel
  cases color <;> exact each _ (by decide)

theorem isWord_property (property : Property) : IsWord property.name := by
  have each : ∀ property ∈ Property.all, IsWord property.name := by decide +kernel
  cases property <;> exact each _ (by decide)

theorem isWord_symbolRole (role : SymbolRole) : IsWord role.name := by
  have each : ∀ role ∈ SymbolRole.all, IsWord role.name := by decide +kernel
  cases role <;> exact each _ (by decide)

theorem isWord_policy {policy : Policy} {text : Text} (name : policy.word? = some text) :
    IsWord text := by
  have each : ∀ text ∈ ["auto".toList, "reset".toList, "keep".toList], IsWord text := by
    decide +kernel
  cases policy with
  | override baseline => cases name
  | auto | reset | keep =>
      rw [← Option.some.inj name]
      exact each _ (by decide)

theorem isWord_byte (value : UInt8) : IsWord (Text.ofNat value.toNat) := by
  refine ⟨Text.ofNat_ne_nil _, ?_⟩
  intro digit member
  exact Text.isWordChar_of_isDigit (Text.isDigit_of_mem_ofNat member)

/-! ## Lexemes of sheets are well formed -/

/-- Whether every lexeme of a list is well formed. -/
def AllFormed (lexemes : List Lexeme) : Prop :=
  ∀ lexeme ∈ lexemes, lexeme.WellFormed

namespace AllFormed

variable {lexemes front behind : List Lexeme}

theorem nil : AllFormed [] := by
  simp [AllFormed]

theorem cons {lexeme : Lexeme} (first : lexeme.WellFormed) (others : AllFormed lexemes) :
    AllFormed (lexeme :: lexemes) :=
  List.forall_mem_cons.mpr ⟨first, others⟩

theorem append (left : AllFormed front) (right : AllFormed behind) :
    AllFormed (front ++ behind) :=
  List.forall_mem_append.mpr ⟨left, right⟩

theorem mark {character : Char} (among : character ∈ marks) (others : AllFormed lexemes) :
    AllFormed (.mark character :: lexemes) :=
  cons among others

theorem closed {closer : Char} (inner : AllFormed lexemes) (closing : closer ∈ marks) :
    AllFormed (lexemes ++ [.mark closer]) :=
  inner.append (nil.mark closing)

theorem assign {name : Text} (isWord : IsWord name) (value : AllFormed lexemes) :
    AllFormed (assign name lexemes) :=
  cons isWord (mark (by decide) (value.closed (by decide)))

theorem block {opening : Lexeme} (first : opening.WellFormed) (inner : AllFormed lexemes) :
    AllFormed (block opening lexemes) :=
  cons first (mark (by decide) (inner.closed (by decide)))

theorem flatten {pieces : List (List Lexeme)} (each : ∀ piece ∈ pieces, AllFormed piece) :
    AllFormed pieces.flatten := by
  intro lexeme member
  obtain ⟨piece, inPieces, inPiece⟩ := List.mem_flatten.mp member
  exact each piece inPieces lexeme inPiece

end AllFormed

/-- Whether a lexeme can stand in a bare value. -/
def Lexeme.IsBare : Lexeme → Prop
  | .mark character => character ∈ [',', '[', ']']
  | .word text => IsWord text
  | .title _ => False
  | .string _ => False

theorem Lexeme.IsBare.wellFormed {lexeme : Lexeme} (bare : lexeme.IsBare) :
    lexeme.WellFormed := by
  cases lexeme with
  | mark character =>
      have among : ∀ mark ∈ [',', '[', ']'], mark ∈ marks := by decide
      exact among character bare
  | word text => exact bare
  | title name => exact bare.elim
  | string contents => exact bare.elim

/-- Whether every lexeme of a list can stand in a bare value. -/
def AllBare (lexemes : List Lexeme) : Prop :=
  ∀ lexeme ∈ lexemes, lexeme.IsBare

namespace AllBare

variable {lexemes : List Lexeme}

theorem nil : AllBare [] := by
  simp [AllBare]

theorem mark {character : Char} (among : character ∈ [',', '[', ']'])
    (others : AllBare lexemes) :
    AllBare (.mark character :: lexemes) :=
  List.forall_mem_cons.mpr ⟨among, others⟩

theorem word {text : Text} (isWord : IsWord text) (others : AllBare lexemes) :
    AllBare (.word text :: lexemes) :=
  List.forall_mem_cons.mpr ⟨isWord, others⟩

theorem append {behind : List Lexeme} (left : AllBare lexemes) (right : AllBare behind) :
    AllBare (lexemes ++ behind) :=
  List.forall_mem_append.mpr ⟨left, right⟩

theorem allFormed (bare : AllBare lexemes) : AllFormed lexemes :=
  fun lexeme member => (bare lexeme member).wellFormed

end AllBare

/-- What holds of everything related to the items of a list. -/
theorem forall_right_of_forall₂ {Left Right : Type} {related : Left → Right → Prop}
    {holds : Right → Prop} {lefts : List Left} {rights : List Right}
    (each : ∀ left ∈ lefts, ∀ right, related left right → holds right)
    (pairs : List.Forall₂ related lefts rights) :
    ∀ right ∈ rights, holds right := by
  induction pairs with
  | nil => simp
  | cons pair others inductionHypothesis =>
      obtain ⟨first, behind⟩ := List.forall_mem_cons.mp each
      exact List.forall_mem_cons.mpr ⟨first _ pair, inductionHypothesis behind⟩

section Formed

variable {lexemes : List Lexeme} {part : Part}

theorem WritesWords.allBare {texts : List Text} (written : WritesWords texts lexemes)
    (isWord : ∀ text ∈ texts, IsWord text) :
    AllBare lexemes := by
  induction written with
  | single => exact .word (isWord _ List.mem_cons_self) .nil
  | comma others inductionHypothesis =>
      obtain ⟨first, behind⟩ := List.forall_mem_cons.mp isWord
      exact .word first (.mark (by decide) (inductionHypothesis behind))
  | space others inductionHypothesis =>
      obtain ⟨first, behind⟩ := List.forall_mem_cons.mp isWord
      exact .word first (inductionHypothesis behind)

theorem WritesNames.allBare {Item : Type} {words : Item → List Text} {items : List Item}
    (isWord : ∀ {item text}, text ∈ words item → IsWord text)
    (written : WritesNames words items lexemes) :
    AllBare lexemes := by
  obtain ⟨texts, named, listed⟩ := written
  apply listed.allBare
  exact forall_right_of_forall₂ (fun _ _ _ => isWord) named

theorem forall_mem_map_isWord (values : List UInt8) :
    ∀ text ∈ values.map fun value => Text.ofNat value.toNat, IsWord text :=
  List.forall_mem_map.mpr fun value _ => isWord_byte value

theorem WritesColor.allBare {color : Color} (written : WritesColor color lexemes) :
    AllBare lexemes := by
  cases written with
  | base => exact .word (isWord_baseColor _) .nil
  | indexed => exact .word (isWord_byte _) .nil
  | bracketed named listed =>
      apply AllBare.mark (by decide)
      apply AllBare.append _ (.mark (by decide) .nil)
      exact listed.allBare (forall_mem_map_isWord _)

/-- Values are written without the characters that end bare text. -/
theorem WritesValue.allBare {property : Property}
    (written : WritesValue part property lexemes) :
    AllBare lexemes := by
  cases written with
  | fg given written | bg given written => exact written.allBare
  | enable named | disable named => exact named.allBare isWord_attribute
  | reset styles targets named => exact named.allBare isWord_resetEntry
  | keep exactly named =>
      apply named.allBare
      intro target text member
      exact List.mem_singleton.mp member ▸ isWord_target target

theorem WritesWords.ne_nil {texts : List Text} (written : WritesWords texts lexemes) :
    lexemes ≠ [] := by
  cases written <;> exact List.cons_ne_nil _ _

theorem WritesColor.ne_nil {color : Color} (written : WritesColor color lexemes) :
    lexemes ≠ [] := by
  cases written <;> exact List.cons_ne_nil _ _

theorem WritesNames.ne_nil {Item : Type} {words : Item → List Text} {items : List Item}
    (written : WritesNames words items lexemes) :
    lexemes ≠ [] := by
  obtain ⟨texts, named, listed⟩ := written
  exact listed.ne_nil

theorem WritesValue.ne_nil {property : Property}
    (written : WritesValue part property lexemes) :
    lexemes ≠ [] := by
  cases written with
  | fg given written | bg given written => exact written.ne_nil
  | enable named | disable named => exact named.ne_nil
  | reset styles targets named => exact named.ne_nil
  | keep exactly named => exact named.ne_nil

theorem WritesDeclarations.allFormed {properties : List Property}
    (written : WritesDeclarations part properties lexemes) :
    AllFormed lexemes := by
  induction written with
  | nil => exact .nil
  | cons value others inductionHypothesis =>
      have formed := value.allBare.allFormed
      exact (AllFormed.assign (isWord_property _) formed).append inductionHypothesis

theorem WritesPart.allFormed (written : WritesPart part lexemes) : AllFormed lexemes := by
  obtain ⟨properties, distinct, exactly, declarations⟩ := written
  exact declarations.allFormed

theorem WritesBlock.allFormed {name : Text} {part : Option Part} (isWord : IsWord name)
    (written : WritesBlock name part lexemes) :
    AllFormed lexemes := by
  cases written with
  | absent => exact .nil
  | present written => exact .block isWord written.allFormed

theorem WritesRule.allFormed {name : Text} {definition : Definition} (isWord : IsWord name)
    (written : WritesRule name definition lexemes) :
    AllFormed lexemes := by
  cases written with
  | intro fields inside after =>
      apply AllFormed.block
      · exact isWord
      · apply fields.allFormed.append
        exact (inside.allFormed (by decide)).append (after.allFormed (by decide))

theorem WritesPolicy.allFormed {policy : Policy} (written : WritesPolicy policy lexemes) :
    AllFormed lexemes := by
  cases written with
  | named name =>
      apply AllFormed.cons
      · exact (by decide : IsWord "after".toList)
      · exact .mark (by decide) (.cons (isWord_policy name) (.mark (by decide) .nil))
  | given written =>
      apply AllFormed.block
      · exact (by decide : IsWord "after".toList)
      · exact written.allFormed

theorem WritesSymbols.allFormed {symbols : Symbols} (written : WritesSymbols symbols lexemes)
    (plain : ∀ role, '"' ∉ symbols.get role ∧ '\n' ∉ symbols.get role) :
    AllFormed lexemes := by
  cases written with
  | @intro roles each =>
      apply AllFormed.block
      · exact (by decide : IsWord "symbols".toList)
      · rw [List.flatMap]
        apply AllFormed.flatten
        intro piece member
        obtain ⟨role, _, rfl⟩ := List.mem_map.mp member
        exact .assign (isWord_symbolRole role) (.cons (plain role) .nil)

end Formed

/-- The lexemes of a sheet that can be written are well formed. -/
theorem WritesSheet.allFormed {sheet : Sheet} {lexemes : List Lexeme}
    (written : WritesSheet sheet lexemes) (writable : Writable sheet) :
    AllFormed lexemes := by
  cases written with
  | intro rules policy symbols written =>
      apply AllFormed.flatten
      refine forall_right_of_forall₂ ?_ written
      intro entry member piece writes
      cases entry with
      | policy => exact WritesPolicy.allFormed writes
      | symbols => exact WritesSymbols.allFormed writes writable.symbols
      | rule name definition =>
          apply WritesRule.allFormed _ writes
          apply writable.named (name, definition)
          rw [← rules]
          exact List.mem_filterMap.mpr ⟨_, member, rfl⟩

/-! ## Every sheet is written by some source -/

theorem exists_writesWords {texts : List Text} (present : texts ≠ []) :
    ∃ lexemes, WritesWords texts lexemes := by
  induction texts with
  | nil => exact absurd rfl present
  | cons text others inductionHypothesis =>
      cases others with
      | nil => exact ⟨_, .single⟩
      | cons next behind =>
          obtain ⟨lexemes, written⟩ := inductionHypothesis (List.cons_ne_nil _ _)
          exact ⟨_, .space written⟩

private theorem exists_forall₂ {Left Right : Type} {related : Left → Right → Prop}
    (lefts : List Left) (each : ∀ left, ∃ right, related left right) :
    ∃ rights, List.Forall₂ related lefts rights := by
  choose ofLeft pair using each
  refine ⟨lefts.map ofLeft, List.forall₂_map_right_iff.mpr ?_⟩
  exact List.forall₂_same.mpr fun left _ => pair left

theorem exists_writesNames {Item : Type} {words : Item → List Text} {items : List Item}
    (present : items ≠ []) (named : ∀ item, ∃ text, text ∈ words item) :
    ∃ lexemes, WritesNames words items lexemes := by
  obtain ⟨texts, each⟩ := exists_forall₂ items named
  have nonempty : texts ≠ [] := by
    intro empty
    rw [empty, List.forall₂_nil_right_iff] at each
    exact present each
  obtain ⟨lexemes, written⟩ := exists_writesWords nonempty
  exact ⟨lexemes, texts, each, written⟩

theorem exists_writesColor (color : Color) : ∃ lexemes, WritesColor color lexemes := by
  cases color with
  | base color => exact ⟨_, .base⟩
  | indexed index => exact ⟨_, .indexed⟩
  | rgb red green blue =>
      have named : Color.ofComponents [red, green, blue] = .ok (.rgb red green blue) := rfl
      exact ⟨_, .bracketed named (.comma (.comma .single))⟩

theorem exists_word (style : Attribute) : ∃ text, text ∈ style.words := by
  cases style <;> exact ⟨_, List.mem_cons_self⟩

/-- The entries of a reset list for the targets and attributes of a part. -/
def resetEntries (part : Part) : List ResetEntry :=
  (Target.members.filter part.reset.has).map .target ++ part.resetAttributes.map .style

theorem filterMap_target?_resetEntries (part : Part) :
    (resetEntries part).filterMap ResetEntry.target? =
      Target.members.filter part.reset.has := by
  have first : ResetEntry.target? ∘ ResetEntry.target = some := rfl
  have second : ResetEntry.target? ∘ ResetEntry.style = fun _ => none := rfl
  rw [resetEntries, List.filterMap_append, List.filterMap_map, List.filterMap_map, first,
    second]
  simp

theorem filterMap_style?_resetEntries (part : Part) :
    (resetEntries part).filterMap ResetEntry.style? = part.resetAttributes := by
  have first : ResetEntry.style? ∘ ResetEntry.target = fun _ => none := rfl
  have second : ResetEntry.style? ∘ ResetEntry.style = some := rfl
  rw [resetEntries, List.filterMap_append, List.filterMap_map, List.filterMap_map, first,
    second]
  simp

theorem mem_filter_members {targets : Targets} {target : Target} :
    target ∈ Target.members.filter targets.has ↔ targets.has target := by
  rw [List.mem_filter]
  exact and_iff_right target.mem_members

theorem resetEntries_ne_nil {part : Part} (given : Gives part .reset) :
    resetEntries part ≠ [] := by
  intro empty
  rcases given with targets | styles
  · obtain ⟨target, has⟩ := Targets.exists_has targets
    have member := mem_filter_members.mpr has
    rw [← filterMap_target?_resetEntries, empty] at member
    cases member
  · rw [← filterMap_style?_resetEntries, empty] at styles
    exact styles rfl

theorem exists_writesValue {part : Part} {property : Property} (given : Gives part property) :
    ∃ lexemes, WritesValue part property lexemes := by
  cases property with
  | fg =>
      obtain ⟨color, given⟩ := Option.isSome_iff_exists.mp given
      obtain ⟨lexemes, written⟩ := exists_writesColor color
      exact ⟨lexemes, .fg given written⟩
  | bg =>
      obtain ⟨color, given⟩ := Option.isSome_iff_exists.mp given
      obtain ⟨lexemes, written⟩ := exists_writesColor color
      exact ⟨lexemes, .bg given written⟩
  | enable =>
      obtain ⟨lexemes, named⟩ := exists_writesNames given exists_word
      exact ⟨lexemes, .enable named⟩
  | disable =>
      obtain ⟨lexemes, named⟩ := exists_writesNames given exists_word
      exact ⟨lexemes, .disable named⟩
  | reset =>
      have named : ∀ entry : ResetEntry, ∃ text, text ∈ entry.words := by
        intro entry
        cases entry with
        | target member => exact ⟨member.word, List.mem_cons_self⟩
        | style single => exact exists_word single
      obtain ⟨lexemes, written⟩ := exists_writesNames (resetEntries_ne_nil given) named
      refine ⟨lexemes, .reset (filterMap_style?_resetEntries part) ?_ written⟩
      intro target
      rw [filterMap_target?_resetEntries, mem_filter_members]
  | keep =>
      obtain ⟨target, has⟩ := Targets.exists_has given
      have nonempty := List.ne_nil_of_mem (mem_filter_members.mpr has)
      have named : ∀ target : Target, ∃ text, text ∈ [target.word] :=
        fun target => ⟨target.word, List.mem_cons_self⟩
      obtain ⟨lexemes, written⟩ := exists_writesNames nonempty named
      exact ⟨lexemes, .keep (fun _ => mem_filter_members) written⟩

theorem exists_writesDeclarations {part : Part} {properties : List Property}
    (given : ∀ property ∈ properties, Gives part property) :
    ∃ lexemes, WritesDeclarations part properties lexemes := by
  induction properties with
  | nil => exact ⟨[], .nil⟩
  | cons property others inductionHypothesis =>
      obtain ⟨first, behind⟩ := List.forall_mem_cons.mp given
      obtain ⟨value, written⟩ := exists_writesValue first
      obtain ⟨lexemes, declarations⟩ := inductionHypothesis behind
      exact ⟨_, .cons written declarations⟩

theorem exists_writesPart (part : Part) : ∃ lexemes, WritesPart part lexemes := by
  have every : ∀ property, property ∈ Property.all.filter (Gives part ·) ↔
      Gives part property := by
    intro property
    rw [List.mem_filter, decide_eq_true_iff]
    apply and_iff_right
    cases property <;> decide
  obtain ⟨lexemes, written⟩ := exists_writesDeclarations fun property => (every property).mp
  have distinct : Property.all.Nodup := by decide
  exact ⟨lexemes, _, distinct.filter _, every, written⟩

theorem exists_writesBlock (name : Text) (part : Option Part) :
    ∃ lexemes, WritesBlock name part lexemes := by
  cases part with
  | none => exact ⟨[], .absent⟩
  | some part =>
      obtain ⟨lexemes, written⟩ := exists_writesPart part
      exact ⟨_, .present written⟩

theorem exists_writesEntry (settings : Settings) (entry : Entry) :
    ∃ lexemes, WritesEntry settings entry lexemes := by
  cases entry with
  | policy =>
      cases policy : settings.policy with
      | override baseline =>
          obtain ⟨lexemes, written⟩ := exists_writesPart baseline
          exact ⟨_, by rw [WritesEntry, policy]; exact .given written⟩
      | auto | reset | keep => exact ⟨_, by rw [WritesEntry, policy]; exact .named rfl⟩
  | symbols => exact ⟨_, .intro (List.Perm.refl _)⟩
  | rule name definition =>
      obtain ⟨fields, fieldsWritten⟩ := exists_writesPart definition.fields
      obtain ⟨inside, insideWritten⟩ := exists_writesBlock "inside".toList definition.inside
      obtain ⟨after, afterWritten⟩ := exists_writesBlock "after".toList definition.after
      exact ⟨_, .intro fieldsWritten insideWritten afterWritten⟩

/-- Every sheet is written by some source. -/
theorem exists_written (sheet : Sheet) : ∃ source, Written sheet source := by
  let rule := fun entry : Text × Definition => Entry.rule entry.1 entry.2
  obtain ⟨pieces, written⟩ := exists_forall₂ (.policy :: .symbols :: sheet.rules.entries.map rule)
    (exists_writesEntry sheet.settings)
  have rules : Entry.rule? ∘ rule = some := rfl
  have other : ∀ entry ∈ [Entry.policy, Entry.symbols],
      entry ∉ sheet.rules.entries.map rule := by
    intro entry among member
    obtain ⟨_, _, rfl⟩ := List.mem_map.mp member
    simp [rule] at among
  refine ⟨_, _, .intro ?_ ?_ ?_ written, spelled_join _⟩
  · rw [List.filterMap_cons_none rfl, List.filterMap_cons_none rfl, List.filterMap_map, rules,
      List.filterMap_some]
  · rw [List.count_cons_self, List.count_cons_of_ne (by decide),
      List.count_eq_zero.mpr (other .policy (by decide))]
  · rw [List.count_cons_of_ne (by decide), List.count_cons_self,
      List.count_eq_zero.mpr (other .symbols (by decide))]

end Sheet

end TerminalMarkup
