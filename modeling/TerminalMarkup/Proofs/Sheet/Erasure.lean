import TerminalMarkup.Proofs.Sheet.Erasing
import TerminalMarkup.Proofs.Sheet.Forgetting

/-!
Contract: to ignore what cannot be read is to erase it.

A sheet without its unreadable constructs reads as the sheet itself, and quietly
so; the warnings of the sheet are one for each construct that is erased
(`ofItems_erase`). From words to items, the reading of each construct forgets
what is lost of it.
-/

set_option autoImplicit false

namespace TerminalMarkup.Sheet

/-! ## Words and declarations -/

theorem name_of_ofName? {name : Text} {property : Property}
    (found : Property.ofName? name = some property) :
    property.name = name := by
  simpa using List.find?_some found

section Words

variable {Result : Type} {ofWord : Text → Except ValueError Result} {property : Property}

/-- A word of a keyword list makes its edit if it names a value, and is left out
if it does not. -/
theorem forgets_readWord (names : ∀ word, property.names word = (ofWord word).isOk)
    (refuses : ∀ word cause, ofWord word = .error cause → cause = property.refusal word)
    (context : Text) (edit : Result → Edit) (word : Text) :
    Forgets (readWord context property.name ofWord edit word)
      ((Option.guard property.names word).elim ⟨[], []⟩
        (readWord context property.name ofWord edit))
      ((Construct.word context property word).orNested []) := by
  have readable : (Construct.word context property word).isReadable = (ofWord word).isOk :=
    names word
  rw [Construct.orNested, readable, Option.guard, names]
  cases given : ofWord word with
  | ok value =>
      show Forgets _ (readWord context property.name ofWord edit word) []
      rw [readWord, given]
      exact .silent [edit value]
  | error cause =>
      show Forgets _ ⟨[], []⟩ [Construct.word context property word]
      rw [readWord, given, refuses word cause given]
      exact .construct rfl

end Words

/-- The reading of a word in the keyword list of a property. -/
def Property.readWord (property : Property) (context word : Text) : Reported (List Edit) :=
  match property with
  | .fg | .bg => ⟨[], []⟩
  | .enable => Sheet.readWord context property.name Attribute.ofWord .enable word
  | .disable => Sheet.readWord context property.name Attribute.ofWord .disable word
  | .reset => Sheet.readWord context property.name Operand.ofWord .reset word
  | .keep => Sheet.readWord context property.name Targets.ofWord .keep word

theorem refusal_attribute (word : Text) (cause : ValueError)
    (refused : Attribute.ofWord word = .error cause) :
    cause = .unknownAttribute word := by
  unfold Attribute.ofWord at refused
  split at refused
  · cases refused
  · exact (Except.error.inj refused).symm

theorem refusal_operand (word : Text) (cause : ValueError)
    (refused : Operand.ofWord word = .error cause) :
    cause = .unknownReset word := by
  unfold Operand.ofWord at refused
  split at refused
  · cases refused
  · split at refused
    · cases refused
    · exact (Except.error.inj refused).symm

theorem refusal_targets (word : Text) (cause : ValueError)
    (refused : Targets.ofWord word = .error cause) :
    cause = .unknownReset word := by
  unfold Targets.ofWord at refused
  dsimp only at refused
  split_ifs at refused
  exact (Except.error.inj refused).symm

theorem Property.forgets_readWord {property : Property} (list : property.isList)
    (context word : Text) :
    Forgets (property.readWord context word)
      ((Option.guard property.names word).elim ⟨[], []⟩ (property.readWord context))
      ((Construct.word context property word).orNested []) := by
  cases property with
  | fg => cases list
  | bg => cases list
  | enable => exact Sheet.forgets_readWord (fun _ => rfl) refusal_attribute context _ word
  | disable => exact Sheet.forgets_readWord (fun _ => rfl) refusal_attribute context _ word
  | reset => exact Sheet.forgets_readWord (fun _ => rfl) refusal_operand context _ word
  | keep => exact Sheet.forgets_readWord (fun _ => rfl) refusal_targets context _ word

section Declarations

variable {name text : Text} {property : Property}

theorem readProperty_of_isList (list : property.isList) (context text : Text) :
    readProperty context text property =
      match Reader.whole? Reader.words text with
      | some words => .flatMap words (property.readWord context)
      | none => .warn [] (.malformedList context text property.name) := by
  cases property with
  | fg => cases list
  | bg => cases list
  | enable => rfl
  | disable => rfl
  | reset => rfl
  | keep => rfl

theorem readProperty_of_not_isList (color : ¬ property.isList) (context text : Text) :
    ∃ edit : Color → Edit,
      readProperty context text property = readColor context property.name text edit := by
  cases property with
  | fg => exact ⟨.fg, rfl⟩
  | bg => exact ⟨.bg, rfl⟩
  | enable => exact absurd rfl color
  | disable => exact absurd rfl color
  | reset => exact absurd rfl color
  | keep => exact absurd rfl color

theorem readDeclaration_of_words {words : List Text}
    (known : Property.ofName? name = some property) (list : property.isList)
    (listed : Reader.whole? Reader.words text = some words) (context : Text) :
    readDeclaration context ⟨name, .bare text⟩ =
      .flatMap words (property.readWord context) := by
  simp only [readDeclaration, known, readProperty_of_isList list, listed]

/-- A well-formed keyword list reads as what is left of it. -/
theorem forgets_words (rewording : Rewording) {words : List Text}
    (known : Property.ofName? name = some property) (list : property.isList)
    (listed : Reader.whole? Reader.words text = some words) (context : Text) :
    Forgets (readDeclaration context ⟨name, .bare text⟩)
      ((rewording.eraseWords property words ⟨name, .bare text⟩).elim ⟨[], []⟩
        (readDeclaration context))
      (words.flatMap fun word => (Construct.word context property word).orNested []) := by
  have forgets := Forgets.flatMap (property.forgets_readWord list context) words
  have same : (rewording.eraseWords property words ⟨name, .bare text⟩).elim ⟨[], []⟩
      (readDeclaration context) =
        .flatMap (words.filter property.names) (property.readWord context) := by
    unfold Rewording.eraseWords
    dsimp only
    split_ifs with noneLeft allLeft
    · rw [noneLeft]
      rfl
    · rw [allLeft]
      exact readDeclaration_of_words known list listed context
    · exact readDeclaration_of_words known list
        (rewording.whole?_words listed List.filter_sublist noneLeft) context
  rw [same, readDeclaration_of_words known list listed, ← List.filterMap_eq_filter]
  exact forgets

/-- A declaration whose property is known and whose value is bare reads as what is
left of it. -/
theorem forgets_known (rewording : Rewording) (known : Property.ofName? name = some property)
    (context : Text) :
    Forgets (readDeclaration context ⟨name, .bare text⟩)
      ((rewording.eraseDeclaration ⟨name, .bare text⟩).elim ⟨[], []⟩
        (readDeclaration context))
      (Declaration.unreadable context ⟨name, .bare text⟩) := by
  have readable : ∀ context, (Construct.declaration context ⟨name, .bare text⟩).isReadable =
      property.admits text := by
    intro context
    rw [Construct.isReadable, known, Option.any_some]
  have reads : readDeclaration context ⟨name, .bare text⟩ =
      readProperty context text property := by
    simp only [readDeclaration, known]
  rw [Rewording.eraseDeclaration, Declaration.unreadable, Construct.orNested, readable, readable,
    Property.admits, Declaration.list?]
  simp only [known]
  cases list : property.isList with
  | true =>
      simp only [if_true]
      cases listed : Reader.whole? Reader.words text with
      | none =>
          show Forgets _ ⟨[], []⟩ [_]
          rw [reads, readProperty_of_isList list, listed, name_of_ofName? known]
          exact .construct (by simp [Construct.warning, known, list])
      | some words => exact forgets_words rewording known list listed context
  | false =>
      have color : ¬ property.isList := by simp [list]
      obtain ⟨edit, colored⟩ := readProperty_of_not_isList color context text
      simp only [Bool.false_eq_true, if_false]
      cases given : Reader.whole? Reader.color text with
      | none =>
          show Forgets _ ⟨[], []⟩ [_]
          rw [reads, colored, readColor, given, name_of_ofName? known]
          exact .construct (by simp [Construct.warning, known, list])
      | some color =>
          show Forgets _ (readDeclaration context ⟨name, .bare text⟩) []
          rw [reads, colored, readColor, given]
          exact .silent [edit color]

/-- A declaration reads as what is left of it. -/
theorem forgets_readDeclaration (rewording : Rewording) (context : Text)
    (declaration : Declaration) :
    Forgets (readDeclaration context declaration)
      ((rewording.eraseDeclaration declaration).elim ⟨[], []⟩ (readDeclaration context))
      (declaration.unreadable context) := by
  obtain ⟨name, value⟩ := declaration
  cases value with
  | quoted contents => exact .construct rfl
  | bare text =>
      cases known : Property.ofName? name with
      | some property => exact forgets_known rewording known context
      | none =>
          have unreadable : ∀ context,
              (Construct.declaration context ⟨name, .bare text⟩).isReadable = false := by
            intro context
            rw [Construct.isReadable, known, Option.any_none]
          rw [Rewording.eraseDeclaration, Declaration.unreadable, Construct.orNested, unreadable,
            unreadable]
          show Forgets _ ⟨[], []⟩ [_]
          simp only [readDeclaration, known]
          exact .construct (by simp only [Construct.warning, known])

theorem forgets_readDeclarations (rewording : Rewording) (context : Text)
    (declarations : List Declaration) :
    Forgets (readDeclarations context declarations)
      (readDeclarations context (declarations.filterMap rewording.eraseDeclaration))
      (declarations.flatMap (·.unreadable context)) :=
  .flatMap (forgets_readDeclaration rewording context) declarations

end Declarations

/-! ## Rules -/

/-- An entry of a rule reads as what is left of it. -/
theorem forgets_readEntry (rewording : Rewording) (rule : Text) (definition : Definition)
    (entry : BodyEntry) :
    Forgets (readEntry rule definition entry)
      ((rewording.eraseEntry entry).elim ⟨definition, []⟩ (readEntry rule definition))
      (entry.unreadable rule) := by
  cases entry with
  | declaration given =>
      have forgets := (forgets_readDeclaration rewording rule given).map fun edits =>
        { definition with fields := definition.fields.editAll edits }
      rw [Reported.map_elim] at forgets
      rw [Rewording.eraseEntry, Option.elim_map]
      exact forgets
  | block name declarations =>
      have forgets := forgets_readDeclarations rewording rule declarations
      have readable : ∀ rule, (Construct.block rule name).isReadable =
          (name = "inside".toList || name = "after".toList) := fun _ => rfl
      rw [Rewording.eraseEntry, BodyEntry.unreadable, Construct.orNested, readable, readable]
      by_cases inside : name = "inside".toList
      · subst inside
        exact forgets.map fun edits =>
          { definition with inside := editBlock definition.inside edits }
      · by_cases after : name = "after".toList
        · subst after
          exact forgets.map fun edits =>
            { definition with after := editBlock definition.after edits }
        · rw [readEntry, if_neg inside, if_neg after, decide_eq_false inside,
            decide_eq_false after]
          exact .construct rfl

theorem forgets_readBody (rewording : Rewording) (rule : Text) (definition : Definition)
    (body : List BodyEntry) :
    Forgets (readBody rule definition body)
      (readBody rule definition (body.filterMap rewording.eraseEntry))
      (body.flatMap (·.unreadable rule)) :=
  .run (readEntry rule) (readBody rule) (fun _ => rfl) (fun _ _ _ => rfl)
    (forgets_readEntry rewording rule) definition body

theorem forgets_define (sheet : Sheet) (name : Text) (definition : Definition) :
    Forgets (sheet.define name definition) (sheet.define name definition) [] := by
  apply Forgets.nothing
  intro notice member
  unfold define at member
  split at member
  · rw [List.mem_singleton.mp member]
    rfl
  · cases member

/-! ## At-rules -/

theorem refusal_policy (word : Text) (cause : ValueError)
    (refused : Policy.ofWord word = .error cause) :
    cause = .unknownPolicy (Text.trim word) := by
  unfold Policy.ofWord at refused
  dsimp only at refused
  split_ifs at refused
  exact (Except.error.inj refused).symm

theorem forgets_readPolicy (rewording : Rewording) (body : AtBody) :
    Forgets (readPolicy body)
      ((rewording.erasePolicy body).elim ⟨none, []⟩ readPolicy) body.unreadablePolicy := by
  cases body with
  | block declarations =>
      exact (forgets_readDeclarations rewording policyContext declarations).map fun edits =>
        some (Policy.override (Part.empty.editAll edits))
  | value given =>
      cases given with
      | quoted contents => exact .construct rfl
      | bare text =>
          have readable : (Construct.policy (.bare text)).isReadable =
              (Policy.ofWord text).isOk := rfl
          rw [Rewording.erasePolicy, AtBody.unreadablePolicy, Construct.orNested, readable,
            readPolicy]
          cases given : Policy.ofWord text with
          | ok policy =>
              show Forgets _ (readPolicy (.value (.bare text))) []
              rw [readPolicy, given]
              exact .silent (some policy)
          | error cause =>
              show Forgets _ ⟨none, []⟩ [_]
              rw [refusal_policy text cause given]
              exact .construct rfl

theorem isReadable_symbol (declaration : Declaration) :
    (Construct.symbol declaration).isReadable =
      (SymbolRole.ofName? declaration.property).isSome := by
  rw [Bool.eq_iff_iff, SymbolRole.ofName?, List.find?_isSome, Construct.isReadable]
  simp only [Bool.or_eq_true, decide_eq_true_eq]
  constructor
  · rintro ((given | given) | given)
    · exact ⟨.opening, by decide, given.symm⟩
    · exact ⟨.closing, by decide, given.symm⟩
    · exact ⟨.reset, by decide, given.symm⟩
  · rintro ⟨role, _, given⟩
    cases role with
    | opening => exact .inl (.inl given.symm)
    | closing => exact .inl (.inr given.symm)
    | reset => exact .inr given.symm

theorem forgets_readSymbol (symbols : Symbols) (declaration : Declaration) :
    Forgets (readSymbol symbols declaration)
      ((Option.guard (Construct.symbol · |>.isReadable) declaration).elim ⟨symbols, []⟩
        (readSymbol symbols))
      ((Construct.symbol declaration).orNested []) := by
  have readable := isReadable_symbol declaration
  rw [Construct.orNested, Option.guard, readable, readSymbol]
  cases given : SymbolRole.ofName? declaration.property with
  | none => exact .construct rfl
  | some role =>
      show Forgets _ (readSymbol symbols declaration) []
      rw [readSymbol, given]
      exact .silent _

theorem forgets_readSymbols (symbols : Symbols) (declarations : List Declaration) :
    Forgets (readSymbols symbols declarations)
      (readSymbols symbols (declarations.filter (Construct.symbol · |>.isReadable)))
      (declarations.flatMap fun declaration => (Construct.symbol declaration).orNested []) := by
  rw [← List.filterMap_eq_filter]
  exact .run readSymbol readSymbols (fun _ => rfl) (fun _ _ _ => rfl) forgets_readSymbol symbols
    declarations

section AtRules

variable {name : Text} (sheet : Sheet)

theorem readAtRule_after (after : name = "after".toList) (body : AtBody) :
    sheet.readAtRule name body =
      (readPolicy body).map fun policy => policy.elim sheet sheet.withPolicy :=
  if_pos after

theorem readAtRule_symbols (symbols : name = "symbols".toList) (body : AtBody) :
    sheet.readAtRule name body =
      match body with
      | .block declarations =>
        (readSymbols sheet.settings.symbols declarations).map sheet.withSymbols
      | .value _ => .warn sheet .symbolsWithoutBlock := by
  subst symbols
  rfl

theorem readAtRule_other (after : name ≠ "after".toList) (symbols : name ≠ "symbols".toList)
    (body : AtBody) :
    sheet.readAtRule name body = .warn sheet (.unknownAtRule name) :=
  (if_neg after).trans (if_neg symbols)

theorem forgets_after (rewording : Rewording) (after : name = "after".toList) (body : AtBody) :
    Forgets (sheet.readAtRule name body)
      ((rewording.erasePolicy body).elim ⟨sheet, []⟩ (sheet.readAtRule name))
      body.unreadablePolicy := by
  have forgets := (forgets_readPolicy rewording body).map fun policy =>
    policy.elim sheet sheet.withPolicy
  rw [Reported.map_elim] at forgets
  rw [funext (readAtRule_after sheet after)]
  exact forgets

theorem forgets_symbols (symbols : name = "symbols".toList) (body : AtBody) :
    Forgets (sheet.readAtRule name body)
      ((eraseSymbols body).elim ⟨sheet, []⟩ (sheet.readAtRule name))
      body.unreadableSymbols := by
  cases body with
  | value given =>
      rw [readAtRule_symbols sheet symbols]
      exact .construct rfl
  | block declarations =>
      rw [eraseSymbols, Option.elim_some, readAtRule_symbols sheet symbols,
        readAtRule_symbols sheet symbols]
      exact (forgets_readSymbols sheet.settings.symbols declarations).map sheet.withSymbols

theorem forgets_readAtRule (rewording : Rewording) (name : Text) (body : AtBody) :
    Forgets (sheet.readItem (.atRule name body))
      ((rewording.eraseItem (.atRule name body)).elim ⟨sheet, []⟩ sheet.readItem)
      (Item.unreadable (.atRule name body)) := by
  have readable : (Construct.atRule name).isReadable =
      (name = "after".toList || name = "symbols".toList) := rfl
  rw [Rewording.eraseItem, Item.unreadable, Construct.orNested, readable]
  by_cases after : name = "after".toList
  · rw [if_pos after, if_pos after, decide_eq_true after, Bool.true_or, if_pos rfl, if_pos rfl,
      Option.elim_map]
    exact forgets_after sheet rewording after body
  · by_cases symbols : name = "symbols".toList
    · rw [if_neg after, if_neg after, decide_eq_true symbols, Bool.or_true, if_pos rfl, if_pos rfl,
        Option.elim_map]
      exact forgets_symbols sheet symbols body
    · rw [decide_eq_false after, decide_eq_false symbols]
      show Forgets (sheet.readAtRule name body) ⟨sheet, []⟩ [Construct.atRule name]
      rw [readAtRule_other sheet after symbols]
      exact .construct rfl

end AtRules

/-! ## Items -/

theorem forgets_readItem (rewording : Rewording) (sheet : Sheet) (item : Item) :
    Forgets (sheet.readItem item)
      ((rewording.eraseItem item).elim ⟨sheet, []⟩ sheet.readItem) item.unreadable := by
  cases item with
  | atRule name body => exact forgets_readAtRule sheet rewording name body
  | rule name body =>
      have forgets := (forgets_readBody rewording name {} body).andThen fun definition =>
        forgets_define sheet name definition
      rw [List.append_nil] at forgets
      exact forgets

theorem forgets_ofItems (rewording : Rewording) (items : List Item) :
    Forgets (ofItems items) (ofItems (rewording.erase items)) (unreadable items) :=
  .run readItem readItems (fun _ => rfl) (fun _ _ _ => rfl) (forgets_readItem rewording) {} items

/-! ## Sheets -/

/-- To ignore what cannot be read is to erase it, and it is never silent. A sheet
reads as what is left of it; the reading logs one warning for each construct that
is erased, in their order, and what is left logs everything else and no warning.
Nothing in what is left is unreadable, and nothing is taken from a sheet exactly
if all of it is readable. -/
theorem ofItems_erase (rewording : Rewording) (items : List Item) :
    (ofItems (rewording.erase items)).result = (ofItems items).result ∧
    (ofItems items).records.filter (·.level = .warn) =
      (unreadable items).map Construct.record ∧
    (ofItems (rewording.erase items)).records.filter (·.level = .warn) = [] ∧
    (ofItems (rewording.erase items)).records =
      (ofItems items).records.filter (·.level ≠ .warn) ∧
    unreadable (rewording.erase items) = [] ∧
    (rewording.erase items = items ↔ unreadable items = []) := by
  have forgets := forgets_ofItems rewording items
  have quiet := forgets.left_warns_not
  have readable : unreadable (rewording.erase items) = [] := by
    have again := (forgets_ofItems rewording (rewording.erase items)).warnings
    rw [quiet] at again
    exact List.map_eq_nil_iff.mp again.symm
  refine ⟨forgets.result, forgets.warn_records, ?_, forgets.other_records, readable, ?_, ?_⟩
  · rw [Reported.records, filter_warn_records, quiet]
    rfl
  · intro whole
    rwa [whole] at readable
  · exact rewording.erase_of_readable

/-- An unknown at-rule that holds more of the kind, a keyword list with one word
too many, one without any readable word, and a block that is left empty. -/
def flawedItems : List Item := [
  .atRule "import".toList (.block [⟨"fg".toList, .quoted []⟩]),
  .rule "warn".toList [
    .declaration ⟨"enable".toList, .bare "bold, blink dim".toList⟩,
    .declaration ⟨"keep".toList, .bare "nothing".toList⟩,
    .block "inside".toList [⟨"fg".toList, .bare "purple".toList⟩]]]

theorem flawedItems_erased :
    unreadable flawedItems = [
      .atRule "import".toList,
      .word "warn".toList .enable "blink".toList,
      .word "warn".toList .keep "nothing".toList,
      .declaration "warn".toList ⟨"fg".toList, .bare "purple".toList⟩] ∧
    Rewording.joined.erase flawedItems = [
      .rule "warn".toList [
        .declaration ⟨"enable".toList, .bare "bold, dim".toList⟩,
        .block "inside".toList []]] ∧
    (ofItems (Rewording.joined.erase flawedItems)).result = (ofItems flawedItems).result ∧
    (ofItems flawedItems).records.filter (·.level = .warn) =
      (unreadable flawedItems).map Construct.record := by
  have erased := ofItems_erase Rewording.joined flawedItems
  exact ⟨by decide +kernel, by decide +kernel, erased.1, erased.2.1⟩

end TerminalMarkup.Sheet
