import TerminalMarkup.Proofs.Sheet.Unreadable
import TerminalMarkup.Proofs.Sheet.ValueGrammar

/-!
Contract: sheets without their unreadable constructs.

What cannot be read is taken out, from at-rules down to the words of keyword
lists. A list that loses words is written anew, which can be done in many ways:
`Rewording` asks of a way only that the words that are left are read from it,
and `Rewording.joined` writes them with commas. Everything else stays as it is,
blocks that are left empty included, so nothing is taken from a sheet that is
readable throughout (`erase_of_readable`).
-/

set_option autoImplicit false

namespace TerminalMarkup.Sheet

open Phrase Reader

/-- A way to write the words that are left of a keyword list. -/
structure Rewording where
  text : Text → List Text → Text
  whole?_words : ∀ {original : Text} {words kept : List Text},
    whole? Reader.words original = some words → kept.Sublist words → kept ≠ [] →
      whole? Reader.words (text original kept) = some kept

/-! ## Words with commas -/

theorem isWord_of_lists {text : Text} {words : List Text}
    (listed : Lists WrittenWord text words) :
    ∀ word ∈ words, IsWord word := by
  induction listed with
  | single first => exact List.forall_mem_singleton.mpr (first.1 ▸ first.2)
  | more first separates others inductionHypothesis =>
      exact List.forall_mem_cons.mpr ⟨first.1 ▸ first.2, inductionHypothesis⟩

/-- Words with a comma and a space before each. -/
def commaTail (words : List Text) : Text :=
  words.flatMap fun word => ',' :: ' ' :: word

/-- Words with a comma and a space between them. -/
def joinWords : List Text → Text
  | [] => []
  | word :: others => word ++ commaTail others

/-- Joined words list the words. -/
theorem lists_joinWords {word : Text} {others : List Text} (first : IsWord word)
    (behind : ∀ other ∈ others, IsWord other) :
    Lists WrittenWord (joinWords (word :: others)) (word :: others) := by
  induction others generalizing word with
  | nil =>
      have alone : joinWords [word] = word := List.append_nil word
      rw [alone]
      exact .single ⟨rfl, first⟩
  | cons next rest inductionHypothesis =>
      obtain ⟨nextIsWord, restAreWords⟩ := List.forall_mem_cons.mp behind
      have separates : IsSeparator [',', ' '] :=
        @IsSeparator.comma [] [' '] (by simp [IsSpacing]) (by simp [IsSpacing, Text.isSpace])
      have whole : joinWords (word :: next :: rest) =
          word ++ ([',', ' '] ++ joinWords (next :: rest)) := rfl
      rw [whole]
      exact .more ⟨rfl, first⟩ separates (inductionHypothesis nextIsWord restAreWords)

/-- The words that are left, with commas between them. -/
def Rewording.joined : Rewording where
  text := fun _ kept => joinWords kept
  whole?_words := by
    intro original words kept read sublist nonempty
    have isWord := isWord_of_lists (readsRuns_identifier.whole?_separated_iff.mp read)
    obtain ⟨word, others, rfl⟩ := List.exists_cons_of_ne_nil nonempty
    obtain ⟨first, behind⟩ := List.forall_mem_cons.mp fun word member =>
      isWord word (sublist.subset member)
    exact readsRuns_identifier.whole?_separated_iff.mpr (lists_joinWords first behind)

/-! ## What is left -/

/-- What is left of a declaration with a keyword list when the words that name no
value are taken out. -/
def Rewording.eraseWords (rewording : Rewording) (property : Property) (words : List Text)
    (declaration : Declaration) : Option Declaration :=
  let kept := words.filter property.names
  if kept = [] then none
  else if kept = words then some declaration
  else some { declaration with value := .bare (rewording.text declaration.value.text kept) }

/-- What is left of a declaration. Nothing is left of a keyword list without any
readable word. -/
def Rewording.eraseDeclaration (rewording : Rewording) (declaration : Declaration) :
    Option Declaration :=
  if (Construct.declaration [] declaration).isReadable then
    declaration.list?.elim (some declaration) fun (property, words) =>
      rewording.eraseWords property words declaration
  else none

def Rewording.eraseEntry (rewording : Rewording) : BodyEntry → Option BodyEntry
  | .declaration given => (rewording.eraseDeclaration given).map .declaration
  | .block name declarations =>
    if (Construct.block [] name).isReadable then
      some (.block name (declarations.filterMap rewording.eraseDeclaration))
    else none

/-- What is left of the at-rule for the policy. -/
def Rewording.erasePolicy (rewording : Rewording) : AtBody → Option AtBody
  | .value given => if (Construct.policy given).isReadable then some (.value given) else none
  | .block declarations => some (.block (declarations.filterMap rewording.eraseDeclaration))

/-- What is left of the at-rule for the symbols. -/
def eraseSymbols : AtBody → Option AtBody
  | .value _ => none
  | .block declarations => some (.block (declarations.filter (Construct.symbol · |>.isReadable)))

def Rewording.eraseItem (rewording : Rewording) : Item → Option Item
  | .rule name body => some (.rule name (body.filterMap rewording.eraseEntry))
  | .atRule name body =>
    if (Construct.atRule name).isReadable then
      (if name = "after".toList then rewording.erasePolicy body else eraseSymbols body).map
        (.atRule name)
    else none

/-- A sheet without what cannot be read. Blocks that are left empty stay. -/
def Rewording.erase (rewording : Rewording) (items : List Item) : List Item :=
  items.filterMap rewording.eraseItem

/-! ## Sheets without unreadable constructs -/

theorem filterMap_eq_self {Item : Type} {left? : Item → Option Item} {items : List Item}
    (each : ∀ item ∈ items, left? item = some item) :
    items.filterMap left? = items := by
  rw [List.filterMap_congr each, List.filterMap_some]

theorem Construct.orNested_eq_nil_iff {construct : Construct} {nested : List Construct} :
    construct.orNested nested = [] ↔ construct.isReadable ∧ nested = [] := by
  unfold Construct.orNested
  split_ifs with readable <;> simp [readable]

theorem words_ne_nil {text : Text} {words : List Text}
    (read : Reader.whole? Reader.words text = some words) :
    words ≠ [] := by
  unfold Reader.whole? at read
  split at read
  · next listed =>
    obtain rfl := Option.some.inj read
    obtain ⟨_, _, behind⟩ := Option.bind_eq_some_iff.mp listed
    rw [← (Prod.mk.inj (Option.some.inj behind)).1]
    exact List.cons_ne_nil _ _
  · cases read

theorem Declaration.words_ne_nil_of_list? {declaration : Declaration} {property : Property}
    {words : List Text} (listed : declaration.list? = some (property, words)) :
    words ≠ [] := by
  unfold Declaration.list? at listed
  split at listed
  · split_ifs at listed
    obtain ⟨_, read, same⟩ := Option.map_eq_some_iff.mp listed
    obtain ⟨_, rfl⟩ := Prod.mk.inj same
    exact words_ne_nil read
  · cases listed

namespace Rewording

variable (rewording : Rewording)

theorem eraseDeclaration_of_readable {context : Text} {declaration : Declaration}
    (readable : declaration.unreadable context = []) :
    rewording.eraseDeclaration declaration = some declaration := by
  obtain ⟨whole, inside⟩ := Construct.orNested_eq_nil_iff.mp readable
  have anywhere : (Construct.declaration [] declaration).isReadable := by
    obtain ⟨name, value⟩ := declaration
    cases value with
    | quoted contents => exact whole
    | bare text => exact whole
  rw [eraseDeclaration, if_pos anywhere]
  cases listed : declaration.list? with
  | none => rfl
  | some list =>
      obtain ⟨property, words⟩ := list
      rw [listed] at inside
      have kept : words.filter property.names = words := by
        rw [List.filter_eq_self]
        intro word member
        exact (Construct.orNested_eq_nil_iff.mp (List.flatMap_eq_nil_iff.mp inside word member)).1
      show rewording.eraseWords property words declaration = some declaration
      rw [eraseWords, kept, if_neg (Declaration.words_ne_nil_of_list? listed), if_pos rfl]

theorem eraseDeclarations_of_readable {context : Text} {declarations : List Declaration}
    (readable : declarations.flatMap (·.unreadable context) = []) :
    declarations.filterMap rewording.eraseDeclaration = declarations :=
  filterMap_eq_self fun _ member =>
    rewording.eraseDeclaration_of_readable (List.flatMap_eq_nil_iff.mp readable _ member)

theorem eraseEntry_of_readable {rule : Text} {entry : BodyEntry}
    (readable : entry.unreadable rule = []) :
    rewording.eraseEntry entry = some entry := by
  cases entry with
  | declaration given =>
      rw [eraseEntry, rewording.eraseDeclaration_of_readable readable]
      rfl
  | block name declarations =>
      obtain ⟨whole, inside⟩ := Construct.orNested_eq_nil_iff.mp readable
      have anywhere : (Construct.block [] name).isReadable := whole
      rw [eraseEntry, if_pos anywhere, rewording.eraseDeclarations_of_readable inside]

theorem erasePolicy_of_readable {body : AtBody} (readable : body.unreadablePolicy = []) :
    rewording.erasePolicy body = some body := by
  cases body with
  | value given => exact if_pos (Construct.orNested_eq_nil_iff.mp readable).1
  | block declarations => rw [erasePolicy, rewording.eraseDeclarations_of_readable readable]

theorem eraseSymbols_of_readable {body : AtBody} (readable : body.unreadableSymbols = []) :
    eraseSymbols body = some body := by
  obtain ⟨whole, inside⟩ := Construct.orNested_eq_nil_iff.mp readable
  cases body with
  | value given => exact absurd whole Bool.false_ne_true
  | block declarations =>
      have kept : declarations.filter (Construct.symbol · |>.isReadable) = declarations := by
        rw [List.filter_eq_self]
        intro declaration member
        exact (Construct.orNested_eq_nil_iff.mp
          (List.flatMap_eq_nil_iff.mp inside declaration member)).1
      rw [eraseSymbols, kept]

theorem eraseItem_of_readable {item : Item} (readable : item.unreadable = []) :
    rewording.eraseItem item = some item := by
  cases item with
  | rule name body =>
      rw [eraseItem, filterMap_eq_self]
      intro entry member
      exact rewording.eraseEntry_of_readable (List.flatMap_eq_nil_iff.mp readable entry member)
  | atRule name body =>
      obtain ⟨whole, inside⟩ := Construct.orNested_eq_nil_iff.mp readable
      rw [eraseItem, if_pos whole]
      split_ifs at inside ⊢
      · rw [rewording.erasePolicy_of_readable inside]
        rfl
      · rw [eraseSymbols_of_readable inside]
        rfl

/-- Nothing is erased from a sheet that is readable throughout. -/
theorem erase_of_readable {items : List Item} (readable : unreadable items = []) :
    rewording.erase items = items :=
  filterMap_eq_self fun item member =>
    rewording.eraseItem_of_readable (List.flatMap_eq_nil_iff.mp readable item member)

end Rewording

end TerminalMarkup.Sheet
