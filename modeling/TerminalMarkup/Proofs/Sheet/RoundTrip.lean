import TerminalMarkup.Proofs.Sheet.ItemReading

/-!
Contract: a sheet that is written is read back unchanged.

The items of a source are read one after another, and the sheets on the way are
the given sheet with only what the items so far give (`upTo`). So the policy and
the symbols may stand anywhere among the rules. The main theorem joins this with
preprocessing, which keeps the lexemes of a source, and with the grammar, which
gives the items that the lexemes yield.
-/

set_option autoImplicit false

namespace TerminalMarkup.Sheet

open Lexeme Phrase

/-! ## Sheets on the way -/

/-- The names of the rules among some entries. -/
def ruleNames (entries : List Entry) : List Text :=
  (entries.filterMap Entry.rule?).map Prod.fst

/-- A sheet with only what some of its entries give. -/
def upTo (sheet : Sheet) (entries : List Entry) : Sheet where
  rules := ⟨entries.filterMap Entry.rule?⟩
  settings := {
    policy := if .policy ∈ entries then sheet.settings.policy else .auto
    symbols := if .symbols ∈ entries then sheet.settings.symbols else {} }

theorem upTo_nil (sheet : Sheet) : sheet.upTo [] = {} := rfl

/-- One more entry makes its own change. -/
theorem change_upTo {sheet : Sheet} {entry : Entry} {done : List Entry}
    (fresh : entry.Fresh (sheet.upTo done)) :
    entry.change sheet.settings (sheet.upTo done) = sheet.upTo (done ++ [entry]) := by
  cases entry with
  | policy => simp [Entry.change, withPolicy, upTo, Entry.rule?]
  | symbols => simp [Entry.change, withSymbols, upTo, Entry.rule?]
  | rule name definition =>
      have added : Table.place name definition (done.filterMap Entry.rule?) =
          done.filterMap Entry.rule? ++ [(name, definition)] :=
        Table.place_eq_append (fresh (name, definition) rfl) definition
      simp [Entry.change, Table.insert, added, upTo, Entry.rule?]

/-- All entries give the whole sheet. -/
theorem upTo_eq {sheet : Sheet} {entries : List Entry}
    (rules : entries.filterMap Entry.rule? = sheet.rules.entries)
    (policy : .policy ∈ entries) (symbols : .symbols ∈ entries) :
    sheet.upTo entries = sheet := by
  rw [upTo, rules, if_pos policy, if_pos symbols]

/-! ## Items -/

theorem readItems_append (sheet : Sheet) (front back : List Item) :
    sheet.readItems (front ++ back) =
      (sheet.readItems front).andThen fun next => next.readItems back := by
  induction front generalizing sheet with
  | nil => rfl
  | cons item others inductionHypothesis =>
      simp only [List.cons_append, readItems, Reported.andThen_assoc, inductionHypothesis]

/-- Some items are read without notice, and they supply what some entries of a
sheet give. -/
def Supplies (sheet : Sheet) (entries : List Entry) (items : List Item) : Prop :=
  ∀ done, (ruleNames (done ++ entries)).Nodup →
    (sheet.upTo done).readItems items = ⟨sheet.upTo (done ++ entries), []⟩

theorem Supplies.nil {sheet : Sheet} : Supplies sheet [] [] := by
  intro done _
  rw [List.append_nil]
  rfl

theorem Supplies.append {sheet : Sheet} {entries others : List Entry} {front back : List Item}
    (first : Supplies sheet entries front) (second : Supplies sheet others back) :
    Supplies sheet (entries ++ others) (front ++ back) := by
  intro done nodup
  rw [← List.append_assoc] at nodup ⊢
  have early : (ruleNames (done ++ entries)).Nodup := by
    rw [ruleNames, List.filterMap_append, List.map_append] at nodup
    exact (List.nodup_append.mp nodup).1
  rw [readItems_append, first done early, ← second (done ++ entries) nodup]
  rfl

/-- A rule whose name differs from the names before it is new. -/
theorem fresh_of_nodup {sheet : Sheet} {entry : Entry} {done : List Entry}
    (nodup : (ruleNames (done ++ [entry])).Nodup) :
    entry.Fresh (sheet.upTo done) := by
  intro rule member taken
  rw [ruleNames, List.filterMap_append, List.map_append] at nodup
  apply (List.nodup_append.mp nodup).2.2 rule.1 taken rule.1 _ rfl
  apply List.mem_map_of_mem
  exact List.mem_filterMap.mpr ⟨entry, List.mem_singleton_self entry, member⟩

/-- Written entries are items that supply what the entries give. -/
theorem yields_items {sheet : Sheet} {entries : List Entry} {pieces : List (List Lexeme)}
    (written : List.Forall₂ (WritesEntry sheet.settings) entries pieces)
    (readable : ∀ entry ∈ entries, entry.Readable sheet.settings) :
    YieldsSeries OfItem (Supplies sheet entries) pieces.flatten := by
  induction written with
  | nil => exact .nil .nil
  | @cons entry piece _ _ writes others inductionHypothesis =>
      obtain ⟨firstReadable, othersReadable⟩ := List.forall_mem_cons.mp readable
      have first : YieldsSeries OfItem (Supplies sheet [entry]) piece := by
        apply (writes.yields firstReadable).single
        intro item leads done nodup
        have fresh : entry.Fresh (sheet.upTo done) := fresh_of_nodup nodup
        rw [← change_upTo fresh, readItems, leads _ fresh]
        rfl
      exact first.append (inductionHypothesis othersReadable) fun _ _ => Supplies.append

/-! ## Sheets -/

theorem Writable.readable {sheet : Sheet} (writable : Writable sheet) {entry : Entry}
    (given : ∀ rule ∈ entry.rule?, rule ∈ sheet.rules.entries) :
    entry.Readable sheet.settings := by
  cases entry with
  | policy => exact writable.baseline
  | symbols => exact fun role => (writable.symbols role).1
  | rule name definition =>
      have member := given (name, definition) rfl
      exact ⟨writable.named _ member, writable.fields _ member, writable.inside _ member,
        writable.after _ member⟩

/-- Where the lexemes of a sheet stand, there are items from which the sheet is
read. -/
theorem WritesSheet.yields {sheet : Sheet} {lexemes : List Lexeme}
    (written : WritesSheet sheet lexemes) (writable : Writable sheet) :
    YieldsSeries OfItem (fun items => ofItems items = ⟨sheet, []⟩) lexemes := by
  cases written with
  | @intro entries pieces rules policy symbols written =>
      have readable : ∀ entry ∈ entries, entry.Readable sheet.settings := by
        intro entry member
        apply writable.readable
        intro rule given
        rw [← rules]
        exact List.mem_filterMap.mpr ⟨entry, member, given⟩
      have distinct : (ruleNames ([] ++ entries)).Nodup := by
        rw [List.nil_append, ruleNames, rules]
        exact writable.distinct
      apply (yields_items written readable).imp
      intro items supplies
      have whole : sheet.upTo entries = sheet :=
        upTo_eq rules (List.one_le_count_iff.mp policy.ge) (List.one_le_count_iff.mp symbols.ge)
      have read := supplies [] distinct
      rwa [upTo_nil, List.nil_append, whole] at read

/-- A sheet whose rules have distinct words as names, whose parts list nothing
twice and whose symbols have no quotation mark and no line feed can be written,
and everything that is written for it is read as this sheet, without a warning. -/
theorem written_sheet_reads_back {sheet : Sheet} (writable : Writable sheet) :
    (∃ source, Written sheet source) ∧
      ∀ source, Written sheet source →
        parse source = .ok ⟨sheet, [.finished sheet.rules.size 0]⟩ := by
  refine ⟨exists_written sheet, ?_⟩
  rintro source ⟨lexemes, written, spelled⟩
  obtain ⟨undefined, resolved, resolves, rest, series, space⟩ :=
    spelled.preprocess (written.allFormed writable)
  obtain ⟨found, derived, read⟩ := written.yields writable _ _ series
  have derives : Derives resolved found :=
    ⟨rest, derived, fun character member => Text.isBlank_of_isSpace (space character member)⟩
  have grammar : items resolved = .ok found := items_eq_ok_iff.mpr derives
  rw [parse, resolves]
  simp only [bind, Except.bind, grammar, read, undefined]
  rfl

example :
    parse "@after:keep; warn\n\x7b fg : [1 2,3]; after \x7b\x7d \x7d".toList =
      .ok ⟨{
        rules := ⟨[("warn".toList,
          { fields := { fg := some (.rgb 1 2 3) }, after := some {} })]⟩
        settings := { policy := .keep } }, [.finished 1 0]⟩ := by
  decide +kernel

/-- A sheet with a given policy, with symbols that look like other syntax, and
with a rule whose parts are present and empty. -/
def sampleSheet : Sheet where
  rules := ⟨[
    ("warn".toList, {
      fields := { fg := some (.base .red), enable := [.underline, .bold] }
      after := some { reset := { fg := true }, resetAttributes := [.bold] } }),
    ("plain-2".toList, { inside := some {}, after := some {} })]⟩
  settings := {
    policy := .override { bg := some (.rgb 1 20 255), keep := { style := true } }
    symbols := { opening := "$a".toList, closing := "/*;\x7d".toList, reset := [] } }

theorem writable_sampleSheet : Writable sampleSheet where
  distinct := by decide
  named := by decide +kernel
  fields := by decide
  inside := by decide
  after := by decide
  baseline := by
    intro part same
    rw [← Policy.override.inj same]
    decide
  symbols := by
    intro role
    cases role <;> decide

/-- The sample sheet is written somehow, and it is read back from there. -/
theorem sample_sheet_reads_back :
    Writable sampleSheet ∧
      ∃ source, Written sampleSheet source ∧
        parse source = .ok ⟨sampleSheet, [.finished 2 0]⟩ := by
  obtain ⟨⟨source, written⟩, reads⟩ := written_sheet_reads_back writable_sampleSheet
  exact ⟨writable_sampleSheet, source, written, reads source written⟩

end TerminalMarkup.Sheet
