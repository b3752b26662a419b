import TerminalMarkup.Proofs.Sheet.PartReading
import TerminalMarkup.Sheet.Document

/-!
Contract: each written item of a sheet has its effect, and gives no notice.

The body of a written rule takes the definition without fields to the given one,
block by block. A written policy and written symbols replace what the sheet has.
`WritesEntry.yields` collects the three kinds of items.
-/

set_option autoImplicit false

namespace TerminalMarkup

/-! ## Tables -/

namespace Table

variable {Value : Type} {name : Text}

theorem find_eq_none {entries : List (Text × Value)} (absent : name ∉ entries.map Prod.fst) :
    find name entries = none := by
  induction entries with
  | nil => rfl
  | cons entry others inductionHypothesis =>
      rw [List.map_cons, List.mem_cons, not_or] at absent
      rw [find, if_neg (Ne.symm absent.1), inductionHypothesis absent.2]

theorem place_eq_append {entries : List (Text × Value)} (absent : name ∉ entries.map Prod.fst)
    (value : Value) :
    place name value entries = entries ++ [(name, value)] := by
  induction entries with
  | nil => rfl
  | cons entry others inductionHypothesis =>
      rw [List.map_cons, List.mem_cons, not_or] at absent
      rw [place, if_neg (Ne.symm absent.1), inductionHypothesis absent.2, List.cons_append]

end Table

namespace Sheet

open Lexeme Phrase

/-! ## Bodies of rules -/

theorem Reported.andThen_assoc {First Second Third : Type} (first : Reported First)
    (second : First → Reported Second) (third : Second → Reported Third) :
    (first.andThen second).andThen third =
      first.andThen fun result => (second result).andThen third := by
  simp only [Reported.andThen, List.append_assoc]

theorem readBody_append (rule : Text) (definition : Definition) (front back : List BodyEntry) :
    readBody rule definition (front ++ back) =
      (readBody rule definition front).andThen fun next => readBody rule next back := by
  induction front generalizing definition with
  | nil => rfl
  | cons entry others inductionHypothesis =>
      simp only [List.cons_append, readBody, Reported.andThen_assoc, inductionHypothesis]

/-- Top-level declarations of a body edit the fields of the definition. -/
theorem readBody_declarations (rule : Text) (definition : Definition)
    (declarations : List Declaration) :
    readBody rule definition (declarations.map .declaration) =
      (readDeclarations rule declarations).map fun edits =>
        { definition with fields := definition.fields.editAll edits } := by
  induction declarations generalizing definition with
  | nil => rfl
  | cons declaration others inductionHypothesis =>
      simp only [List.map_cons, readBody, inductionHypothesis, readEntry, readDeclarations,
        Reported.andThen, Reported.map, Reported.flatMap, List.flatMap_cons, Part.editAll,
        List.foldl_append]

/-- Some entries take the definition of a rule to another one without notice. -/
def Turns (rule : Text) (definition next : Definition) (entries : List BodyEntry) : Prop :=
  readBody rule definition entries = ⟨next, []⟩

theorem Turns.append {rule : Text} {definition next last : Definition}
    {front back : List BodyEntry} (first : Turns rule definition next front)
    (second : Turns rule next last back) :
    Turns rule definition last (front ++ back) := by
  rw [Turns, readBody_append, first, ← second]
  rfl

section Bodies

variable {rule : Text} {lexemes : List Lexeme}

theorem WritesPart.yields_fields {fields : Part} (written : WritesPart fields lexemes)
    (unrepeated : Unrepeated fields) :
    YieldsSeries OfEntry (Turns rule {} { fields }) lexemes := by
  apply (written.yields unrepeated rule).map .declaration
  rintro declarations ⟨edits, read, made⟩
  rw [Turns, readBody_declarations, read, ← made]
  rfl

/-- A block is one entry if its part is present, and nothing otherwise. -/
theorem WritesBlock.yields {name : Text} {part : Option Part}
    (written : WritesBlock name part lexemes) (isWord : IsWord name)
    (unrepeated : ∀ given ∈ part, Unrepeated given) {definition next : Definition}
    (absent : part = none → next = definition)
    (present : ∀ given declarations, part = some given → Makes rule given declarations →
      Turns rule definition next [.block name declarations]) :
    YieldsSeries OfEntry (Turns rule definition next) lexemes := by
  cases written with
  | absent =>
      rw [absent rfl]
      exact .nil rfl
  | @present given inner written =>
      have titled := (written.yields (unrepeated given rfl) rule).titled isWord
      have entry : Yields OfEntry (fun entry => Turns rule definition next [entry])
          (block (word name) inner) := by
        apply titled.map .block
        rintro ⟨_, declarations⟩ ⟨rfl, makes⟩
        exact present given declarations rfl makes
      exact entry.single fun _ => id

theorem WritesBlock.yields_inside {fields : Part} {inside : Option Part}
    (written : WritesBlock "inside".toList inside lexemes)
    (unrepeated : ∀ part ∈ inside, Unrepeated part) :
    YieldsSeries OfEntry (Turns rule { fields } { fields, inside }) lexemes := by
  apply written.yields (by decide) unrepeated
  · rintro rfl
    rfl
  · rintro part declarations rfl ⟨edits, read, rfl⟩
    simp only [Turns, readBody, readEntry, read]
    rfl

theorem WritesBlock.yields_after {fields : Part} {inside after : Option Part}
    (written : WritesBlock "after".toList after lexemes)
    (unrepeated : ∀ part ∈ after, Unrepeated part) :
    YieldsSeries OfEntry (Turns rule { fields, inside } { fields, inside, after }) lexemes := by
  apply written.yields (by decide) unrepeated
  · rintro rfl
    rfl
  · rintro part declarations rfl ⟨edits, read, rfl⟩
    simp only [Turns, readBody, readEntry, read]
    rfl

end Bodies

/-! ## Items -/

/-- An item is read without notice, and then the sheet is another one. -/
def Leads (sheet next : Sheet) (item : Item) : Prop :=
  sheet.readItem item = ⟨next, []⟩

section Items

variable {lexemes : List Lexeme}

/-- A written rule is defined, unless its name is already taken. -/
theorem WritesRule.yields {name : Text} {definition : Definition}
    (written : WritesRule name definition lexemes) (isWord : IsWord name)
    (fieldsUnrepeated : Unrepeated definition.fields)
    (insideUnrepeated : ∀ part ∈ definition.inside, Unrepeated part)
    (afterUnrepeated : ∀ part ∈ definition.after, Unrepeated part) :
    Yields OfItem (fun item => ∀ sheet : Sheet, sheet.rules.contains name = false →
      Leads sheet { sheet with rules := sheet.rules.insert name definition } item) lexemes := by
  cases written with
  | @intro top opened closed fields inside after =>
      have blocks : YieldsSeries OfEntry
          (Turns name { fields := definition.fields } definition) (opened ++ closed) :=
        (inside.yields_inside insideUnrepeated).append (after.yields_after afterUnrepeated)
          fun _ _ => Turns.append
      have body : YieldsSeries OfEntry (Turns name {} definition) (top ++ (opened ++ closed)) :=
        (fields.yields_fields fieldsUnrepeated).append blocks fun _ _ => Turns.append
      apply (body.titled isWord).map OfItem.rule
      rintro ⟨_, entries⟩ ⟨rfl, turns⟩ sheet fresh
      rw [Leads, readItem, turns]
      simp [Reported.andThen, define, fresh]

theorem ofWord_policy {policy : Policy} {text : Text} (name : policy.word? = some text) :
    Policy.ofWord text = .ok policy := by
  cases policy with
  | override baseline => cases name
  | auto | reset | keep =>
      rw [← Option.some.inj name]
      rfl

theorem leads_of_readPolicy {sheet : Sheet} {policy : Policy} {body : AtBody}
    (read : readPolicy body = ⟨some policy, []⟩) :
    Leads sheet (sheet.withPolicy policy) (.atRule "after".toList body) := by
  show (readPolicy body).map (fun policy => policy.elim sheet sheet.withPolicy) = _
  rw [read]
  rfl

/-- A written policy is the policy of the sheet from then on. -/
theorem WritesPolicy.yields {policy : Policy} (written : WritesPolicy policy lexemes)
    (unrepeated : ∀ part, policy = .override part → Unrepeated part) :
    Yields OfItem (fun item => ∀ sheet : Sheet, Leads sheet (sheet.withPolicy policy) item)
      lexemes := by
  cases written with
  | @named policy text name =>
      have isWord := isWord_policy name
      have value := yields_assigned (.word isWord .nil) (List.cons_ne_nil (word text) [])
      have given : Yields OfAtBody (fun body => readPolicy body = ⟨some policy, []⟩)
          [mark ':', word text, mark ';'] := by
        apply value.map OfAtBody.value
        rintro _ ⟨front, rfl, series, bare⟩
        obtain ⟨start, behind, gap, found, ended⟩ := series.behind_word isWord
        cases ended
        rw [bare.eq_of_gap gap] at found
        have whole : front = text := by rw [found.2.1, List.append_nil]
        rw [whole, readPolicy, ofWord_policy name]
      apply (given.titled (by decide)).imp
      rintro _ ⟨body, rfl, read⟩ sheet
      exact leads_of_readPolicy read
  | @given baseline lexemes written =>
      have declared := (written.yields (unrepeated _ rfl) policyContext).braced
      have given : Yields OfAtBody (fun body => readPolicy body = ⟨some (.override baseline), []⟩)
          (mark '\x7b' :: (lexemes ++ [mark '\x7d'])) := by
        apply declared.map OfAtBody.block
        rintro declarations ⟨edits, read, rfl⟩
        rw [readPolicy, read]
        rfl
      apply (given.titled (by decide)).imp
      rintro _ ⟨body, rfl, read⟩ sheet
      exact leads_of_readPolicy read

/-- The declaration of one of some symbols. -/
def declarationOf (symbols : Symbols) (role : SymbolRole) : Declaration :=
  ⟨role.name, .quoted (symbols.get role)⟩

theorem get_set (symbols : Symbols) (role other : SymbolRole) (text : Text) :
    (symbols.set role text).get other = if other = role then text else symbols.get other := by
  cases role <;> cases other <;> rfl

theorem ext_get {left right : Symbols} (same : ∀ role, left.get role = right.get role) :
    left = right := by
  obtain ⟨opening, closing, reset⟩ := left
  have sameOpening : opening = right.opening := same .opening
  have sameClosing : closing = right.closing := same .closing
  have sameReset : reset = right.reset := same .reset
  rw [sameOpening, sameClosing, sameReset]

theorem readSymbol_declarationOf (base symbols : Symbols) (role : SymbolRole) :
    readSymbol base (declarationOf symbols role) = ⟨base.set role (symbols.get role), []⟩ := by
  cases role <;> rfl

/-- Declarations of some symbols replace these symbols. -/
theorem readSymbols_declarationOf (base symbols : Symbols) (roles : List SymbolRole) :
    ∃ read, readSymbols base (roles.map (declarationOf symbols)) = ⟨read, []⟩ ∧
      ∀ role, read.get role = if role ∈ roles then symbols.get role else base.get role := by
  induction roles generalizing base with
  | nil => exact ⟨base, rfl, fun role => (if_neg List.not_mem_nil).symm⟩
  | cons first others inductionHypothesis =>
      obtain ⟨read, found, gets⟩ := inductionHypothesis (base.set first (symbols.get first))
      refine ⟨read, ?_, ?_⟩
      · rw [List.map_cons, readSymbols, readSymbol_declarationOf, Reported.andThen, found]
        rfl
      · intro role
        rw [gets role, get_set]
        by_cases same : role = first
        · simp [same]
        · simp [same]

theorem yields_declarationOf {symbols : Symbols} (unquoted : ∀ role, '"' ∉ symbols.get role)
    (roles : List SymbolRole) :
    YieldsSeries OfDeclaration (· = roles.map (declarationOf symbols))
      (roles.flatMap fun role => assign role.name [string (symbols.get role)]) := by
  induction roles with
  | nil => exact .nil rfl
  | cons role others inductionHypothesis =>
      have first : Yields OfDeclaration (· = declarationOf symbols role)
          (assign role.name [string (symbols.get role)]) := by
        apply ((yields_assigned_string (unquoted role)).declaration (isWord_symbolRole role)).imp
        rintro ⟨name, value⟩ ⟨rfl, rfl⟩
        rfl
      have alone : YieldsSeries OfDeclaration (· = [declarationOf symbols role])
          (assign role.name [string (symbols.get role)]) :=
        first.single fun _ same => same ▸ rfl
      apply alone.append inductionHypothesis
      rintro _ _ rfl rfl
      rfl

/-- A block of quoted symbols is the at-rule with their declarations. -/
theorem yields_symbolsBlock {symbols : Symbols} (unquoted : ∀ role, '"' ∉ symbols.get role)
    (roles : List SymbolRole) :
    Yields OfItem
      (· = .atRule "symbols".toList (.block (roles.map (declarationOf symbols))))
      (block (title "symbols".toList)
        (roles.flatMap fun role => assign role.name [string (symbols.get role)])) := by
  have given : Yields OfAtBody (· = .block (roles.map (declarationOf symbols)))
      (mark '\x7b' :: ((roles.flatMap fun role =>
        assign role.name [string (symbols.get role)]) ++ [mark '\x7d'])) := by
    apply (yields_declarationOf unquoted roles).braced.map OfAtBody.block
    rintro _ rfl
    rfl
  apply (given.titled (by decide)).imp
  rintro _ ⟨_, rfl, rfl⟩
  rfl

/-- Written symbols are the symbols of the sheet from then on. -/
theorem WritesSymbols.yields {symbols : Symbols} (written : WritesSymbols symbols lexemes)
    (unquoted : ∀ role, '"' ∉ symbols.get role) :
    Yields OfItem (fun item => ∀ sheet : Sheet, Leads sheet (sheet.withSymbols symbols) item)
      lexemes := by
  cases written with
  | @intro roles each =>
      apply (yields_symbolsBlock unquoted roles).imp
      rintro _ rfl sheet
      obtain ⟨read, found, gets⟩ := readSymbols_declarationOf sheet.settings.symbols symbols roles
      have every : ∀ role, role ∈ SymbolRole.all := by
        intro role
        cases role <;> decide
      have whole : read = symbols := by
        apply ext_get
        intro role
        rw [gets role, if_pos (each.mem_iff.mpr (every role))]
      show (readSymbols sheet.settings.symbols _).map sheet.withSymbols = _
      rw [found, whole]
      rfl

end Items

/-! ## Entries -/

/-- What an entry changes in a sheet. -/
def Entry.change (settings : Settings) (sheet : Sheet) : Entry → Sheet
  | policy => sheet.withPolicy settings.policy
  | symbols => sheet.withSymbols settings.symbols
  | rule name definition => { sheet with rules := sheet.rules.insert name definition }

/-- What an entry needs to be read back. -/
def Entry.Readable (settings : Settings) : Entry → Prop
  | policy => ∀ part, settings.policy = .override part → Unrepeated part
  | symbols => ∀ role, '"' ∉ settings.symbols.get role
  | rule name definition => IsWord name ∧ Unrepeated definition.fields ∧
      (∀ part ∈ definition.inside, Unrepeated part) ∧
      ∀ part ∈ definition.after, Unrepeated part

/-- Whether a sheet has no rule under the name of an entry. -/
def Entry.Fresh (sheet : Sheet) (entry : Entry) : Prop :=
  ∀ rule ∈ entry.rule?, rule.1 ∉ sheet.rules.names

/-- A written entry changes the sheet, unless it is a rule whose name is already
taken. -/
theorem WritesEntry.yields {settings : Settings} {entry : Entry} {lexemes : List Lexeme}
    (written : WritesEntry settings entry lexemes) (readable : entry.Readable settings) :
    Yields OfItem (fun item => ∀ sheet : Sheet, entry.Fresh sheet →
      Leads sheet (entry.change settings sheet) item) lexemes := by
  cases entry with
  | policy => exact (WritesPolicy.yields written readable).imp fun _ leads sheet _ => leads sheet
  | symbols => exact (WritesSymbols.yields written readable).imp fun _ leads sheet _ => leads sheet
  | rule name definition =>
      obtain ⟨isWord, fields, inside, after⟩ := readable
      apply (WritesRule.yields written isWord fields inside after).imp
      intro item leads sheet fresh
      apply leads sheet
      rw [Table.contains, Table.get?, Table.find_eq_none (fresh _ rfl)]
      rfl

end Sheet

end TerminalMarkup
