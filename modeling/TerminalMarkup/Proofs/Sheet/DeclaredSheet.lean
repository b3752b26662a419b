import TerminalMarkup.Proofs.RuleSet.LastDefinition
import TerminalMarkup.Proofs.Sheet.DeclaredDefinition

/-!
Contract: what the items of a sheet give.

Rules, policies and symbols are three subsequences of the items, and each of them
settles its own field of the sheet. A name of a rule stands where it first occurs
and has its last definition. Of the policies that can be read the last one
counts, and of the texts for a symbol the last one. So nothing depends on how the
three subsequences are interleaved (`sheet_read_by_subsequences`).
-/

set_option autoImplicit false

namespace TerminalMarkup

/-! ## Tables -/

namespace Table

/-- A table with each of some values put under its name, one after the other. -/
def insertAll {Value : Type} (table : Table Value) (entries : List (Text × Value)) :
    Table Value :=
  entries.foldl (fun table entry => table.insert entry.1 entry.2) table

theorem map_fst_place {Value : Type} (name : Text) (value : Value)
    (entries : List (Text × Value)) :
    (place name value entries).map Prod.fst =
      FirstSeen.add (entries.map Prod.fst) name := by
  induction entries with
  | nil => rfl
  | cons entry rest inductionHypothesis =>
      rw [place, List.map_cons, FirstSeen.add]
      by_cases here : entry.1 = name
      · rw [if_pos here, List.map_cons, if_pos (here ▸ List.mem_cons_self), here]
      · rw [if_neg here, List.map_cons, inductionHypothesis, FirstSeen.add]
        by_cases known : name ∈ rest.map Prod.fst
        · rw [if_pos known, if_pos (List.mem_cons_of_mem _ known)]
        · have absent : name ∉ entry.1 :: rest.map Prod.fst := by
            simpa [known] using Ne.symm here
          rw [if_neg known, if_neg absent, List.cons_append]

theorem names_insertAll {Value : Type} (table : Table Value)
    (entries : List (Text × Value)) :
    (table.insertAll entries).names = FirstSeen.addAll table.names (entries.map Prod.fst) := by
  unfold insertAll FirstSeen.addAll
  induction entries generalizing table with
  | nil => rfl
  | cons entry rest inductionHypothesis =>
      have step : (table.insert entry.1 entry.2).names = FirstSeen.add table.names entry.1 :=
        map_fst_place entry.1 entry.2 table.entries
      rw [List.foldl_cons, inductionHypothesis, step, List.map_cons, List.foldl_cons]

/-- A name that is given again has its last definition. -/
theorem get?_insertAll (table : Table Definition) (definitions : List (Text × Definition))
    (name : Text) :
    (table.insertAll definitions).get? name =
      (lastDefinition? definitions name).or (table.get? name) := by
  unfold insertAll
  induction definitions generalizing table with
  | nil => rfl
  | cons entry rest inductionHypothesis =>
      rw [List.foldl_cons, inductionHypothesis, lastDefinition?_cons, Option.or_assoc,
        get?_insert]
      congr 1
      by_cases here : name = entry.1
      · rw [if_pos here, if_pos here, Option.some_or]
      · rw [if_neg here, if_neg here, Option.none_or]

/-- Where no name occurs twice, the entries are the values under their names. -/
theorem mem_entries_iff {Value : Type} {table : Table Value} (distinct : table.names.Nodup)
    {name : Text} {value : Value} :
    (name, value) ∈ table.entries ↔ table.get? name = some value := by
  obtain ⟨entries⟩ := table
  simp only [names, get?] at distinct ⊢
  induction entries with
  | nil => simp [find]
  | cons entry rest inductionHypothesis =>
      obtain ⟨absent, others⟩ := List.nodup_cons.mp distinct
      rw [find, List.mem_cons]
      by_cases here : entry.1 = name
      · have elsewhere : (name, value) ∉ rest := by
          intro member
          exact absent (here ▸ List.mem_map_of_mem member)
        rw [if_pos here, or_iff_left elsewhere, Option.some.injEq, Prod.ext_iff]
        exact ⟨fun same => same.2.symm, fun same => ⟨here.symm, same.symm⟩⟩
      · have differs : (name, value) ≠ entry := by
          rintro rfl
          exact here rfl
        rw [if_neg here, or_iff_right differs, inductionHypothesis others]

end Table

namespace Sheet

/-! ## Three subsequences -/

/-- The rule that an item defines. -/
def Item.rule? : Item → Option (Text × List BodyEntry)
  | .rule name body => some (name, body)
  | .atRule _ _ => none

/-- The body of an at-rule of a given name. -/
def Item.atBody? (name : Text) : Item → Option AtBody
  | .rule _ _ => none
  | .atRule title body => if title = name then some body else none

/-- The rules among some items, in order. -/
def rulesAmong (items : List Item) : List (Text × List BodyEntry) :=
  items.filterMap Item.rule?

/-- The bodies of the at-rules of a name among some items, in order. -/
def atBodiesAmong (name : Text) (items : List Item) : List AtBody :=
  items.filterMap (Item.atBody? name)

/-! ## What each of them gives -/

/-- The definitions of some rules under their names. -/
def declaredDefinitions (rules : List (Text × List BodyEntry)) : List (Text × Definition) :=
  rules.map fun rule => (rule.1, declaredDefinition rule.2)

/-- The policy that an at-rule gives: a word that names one, or a block. -/
def AtBody.policy? : AtBody → Option Policy
  | .value (.bare text) => (Policy.ofWord text).toOption
  | .value (.quoted _) => none
  | .block declarations => some (.override (declaredPart declarations))

/-- The declarations of an at-rule, which are none if it gives one value. -/
def AtBody.declarations : AtBody → List Declaration
  | .value _ => []
  | .block declarations => declarations

/-- The text that a declaration gives to a symbol, quoted or not. -/
def Declaration.symbolText? (role : SymbolRole) (declaration : Declaration) : Option Text :=
  if declaration.property = role.name then some declaration.value.text else none

/-- The texts that some at-rules give to a symbol, in order. -/
def symbolTexts (role : SymbolRole) (bodies : List AtBody) : List Text :=
  (bodies.flatMap AtBody.declarations).filterMap (Declaration.symbolText? role)

/-! ## Policies and symbols -/

theorem result_readPolicy (body : AtBody) : (readPolicy body).result = body.policy? := by
  cases body with
  | block declarations =>
      show some (Policy.override (Part.empty.editAll _)) = _
      rw [editAll_readDeclarations]
      rfl
  | value given =>
      cases given with
      | quoted contents => rfl
      | bare text =>
          unfold readPolicy AtBody.policy?
          dsimp only
          cases Policy.ofWord text <;> rfl

theorem ofName?_symbolRole (role : SymbolRole) : SymbolRole.ofName? role.name = some role := by
  cases role <;> rfl

theorem get_readSymbol (symbols : Symbols) (declaration : Declaration) (role : SymbolRole) :
    (readSymbol symbols declaration).result.get role =
      (declaration.symbolText? role).getD (symbols.get role) := by
  unfold readSymbol Declaration.symbolText?
  by_cases named : declaration.property = role.name
  · rw [if_pos named, named, ofName?_symbolRole]
    dsimp only
    rw [get_set, if_pos rfl, Option.getD_some]
  · rw [if_neg named, Option.getD_none]
    cases found : SymbolRole.ofName? declaration.property with
    | none => rfl
    | some other =>
        have differs : role ≠ other := by
          rintro rfl
          have same : role.name = declaration.property := by
            simpa using List.find?_some found
          exact named same.symm
        dsimp only
        rw [get_set, if_neg differs]

/-- Of the texts for a symbol the last one counts. -/
theorem get_readSymbols (symbols : Symbols) (declarations : List Declaration)
    (role : SymbolRole) :
    (readSymbols symbols declarations).result.get role =
      ((declarations.filterMap (Declaration.symbolText? role)).getLast?).getD
        (symbols.get role) := by
  induction declarations generalizing symbols with
  | nil => rfl
  | cons declaration rest inductionHypothesis =>
      show (readSymbols (readSymbol symbols declaration).result rest).result.get role = _
      rw [inductionHypothesis, get_readSymbol]
      cases given : declaration.symbolText? role with
      | none => rw [List.filterMap_cons_none given, Option.getD_none]
      | some text =>
          rw [List.filterMap_cons_some given, List.getLast?_cons, Option.getD_some,
            Option.getD_some]

/-! ## One item -/

section AtRules

variable (sheet : Sheet) (name : Text) (body : AtBody)

theorem rules_readAtRule : (sheet.readAtRule name body).result.rules = sheet.rules := by
  unfold readAtRule
  split_ifs with isPolicy isSymbols
  · show ((readPolicy body).result.elim sheet sheet.withPolicy).rules = sheet.rules
    cases (readPolicy body).result <;> rfl
  · cases body <;> rfl
  · rfl

theorem policy_readAtRule :
    (sheet.readAtRule name body).result.settings.policy =
      (if name = "after".toList then body.policy? else none).getD sheet.settings.policy := by
  unfold readAtRule
  split_ifs with isPolicy isSymbols
  · show ((readPolicy body).result.elim sheet sheet.withPolicy).settings.policy = _
    rw [result_readPolicy]
    cases body.policy? <;> rfl
  · cases body <;> rfl
  · rfl

theorem symbols_readAtRule :
    (sheet.readAtRule name body).result.settings.symbols =
      (readSymbols sheet.settings.symbols
        (if name = "symbols".toList then body.declarations else [])).result := by
  unfold readAtRule
  by_cases isSymbols : name = "symbols".toList
  · have notPolicy : name ≠ "after".toList := by
      rw [isSymbols]
      decide
    rw [if_neg notPolicy, if_pos isSymbols, if_pos isSymbols]
    cases body <;> rfl
  · rw [if_neg isSymbols, if_neg isSymbols]
    split_ifs with isPolicy
    · show ((readPolicy body).result.elim sheet sheet.withPolicy).settings.symbols = _
      cases (readPolicy body).result <;> rfl
    · rfl

end AtRules

theorem atBodiesAmong_atRule (name title : Text) (body : AtBody) :
    atBodiesAmong name [.atRule title body] = if title = name then [body] else [] := by
  unfold atBodiesAmong
  by_cases named : title = name <;> simp [Item.atBody?, named]

section Item

variable (sheet : Sheet) (item : Item)

theorem rules_readItem :
    (sheet.readItem item).result.rules =
      sheet.rules.insertAll (declaredDefinitions (rulesAmong [item])) := by
  cases item with
  | rule name body =>
      show sheet.rules.insert name (readBody name {} body).result = _
      rw [result_readBody]
      rfl
  | atRule name body => exact rules_readAtRule sheet name body

theorem policy_readItem :
    (sheet.readItem item).result.settings.policy =
      ((atBodiesAmong "after".toList [item]).filterMap AtBody.policy?).getLast?.getD
        sheet.settings.policy := by
  cases item with
  | rule name body => rfl
  | atRule name body =>
      show (sheet.readAtRule name body).result.settings.policy = _
      rw [policy_readAtRule, atBodiesAmong_atRule]
      split_ifs with isPolicy
      · cases policy : body.policy? <;> simp [policy]
      · rfl

theorem symbols_readItem (role : SymbolRole) :
    (sheet.readItem item).result.settings.symbols.get role =
      (symbolTexts role (atBodiesAmong "symbols".toList [item])).getLast?.getD
        (sheet.settings.symbols.get role) := by
  cases item with
  | rule name body => rfl
  | atRule name body =>
      show (sheet.readAtRule name body).result.settings.symbols.get role = _
      rw [symbols_readAtRule, get_readSymbols, atBodiesAmong_atRule]
      split_ifs with isSymbols
      · rw [symbolTexts, List.flatMap_singleton]
      · rfl

end Item

/-! ## All items -/

/-- Of the values of two lists the last one of the second counts, or else that of
the first. -/
theorem getLast?_append_getD {Value : Type} (front back : List Value) (initial : Value) :
    (front ++ back).getLast?.getD initial =
      back.getLast?.getD (front.getLast?.getD initial) := by
  rw [List.getLast?_append, Option.getD_or]

theorem atBodiesAmong_cons (name : Text) (item : Item) (rest : List Item) :
    atBodiesAmong name (item :: rest) = atBodiesAmong name [item] ++ atBodiesAmong name rest := by
  unfold atBodiesAmong
  rw [← List.filterMap_append, List.singleton_append]

theorem declaredDefinitions_cons (item : Item) (rest : List Item) :
    declaredDefinitions (rulesAmong (item :: rest)) =
      declaredDefinitions (rulesAmong [item]) ++ declaredDefinitions (rulesAmong rest) := by
  unfold declaredDefinitions rulesAmong
  rw [← List.map_append, ← List.filterMap_append, List.singleton_append]

theorem symbolTexts_append (role : SymbolRole) (front back : List AtBody) :
    symbolTexts role (front ++ back) = symbolTexts role front ++ symbolTexts role back := by
  unfold symbolTexts
  rw [List.flatMap_append, List.filterMap_append]

section Items

variable (sheet : Sheet) (items : List Item)

/-- The rules of a sheet come from the rules among its items. -/
theorem rules_readItems :
    (sheet.readItems items).result.rules =
      sheet.rules.insertAll (declaredDefinitions (rulesAmong items)) := by
  induction items generalizing sheet with
  | nil => rfl
  | cons item rest inductionHypothesis =>
      show ((sheet.readItem item).result.readItems rest).result.rules = _
      rw [inductionHypothesis, rules_readItem, declaredDefinitions_cons item rest]
      exact List.foldl_append.symm

/-- The policy of a sheet comes from its at-rules for the policy. -/
theorem policy_readItems :
    (sheet.readItems items).result.settings.policy =
      ((atBodiesAmong "after".toList items).filterMap AtBody.policy?).getLast?.getD
        sheet.settings.policy := by
  induction items generalizing sheet with
  | nil => rfl
  | cons item rest inductionHypothesis =>
      show ((sheet.readItem item).result.readItems rest).result.settings.policy = _
      rw [inductionHypothesis, policy_readItem, atBodiesAmong_cons _ item rest,
        List.filterMap_append, getLast?_append_getD]

/-- The symbols of a sheet come from its at-rules for the symbols. -/
theorem symbols_readItems (role : SymbolRole) :
    (sheet.readItems items).result.settings.symbols.get role =
      (symbolTexts role (atBodiesAmong "symbols".toList items)).getLast?.getD
        (sheet.settings.symbols.get role) := by
  induction items generalizing sheet with
  | nil => rfl
  | cons item rest inductionHypothesis =>
      show ((sheet.readItem item).result.readItems rest).result.settings.symbols.get role = _
      rw [inductionHypothesis, symbols_readItem, atBodiesAmong_cons _ item rest,
        symbolTexts_append, getLast?_append_getD]

end Items

section Sheets

variable (items : List Item)

theorem names_ofItems :
    (ofItems items).result.rules.names = ((rulesAmong items).map Prod.fst).eraseDups := by
  have titles : (declaredDefinitions (rulesAmong items)).map Prod.fst =
      (rulesAmong items).map Prod.fst := by
    unfold declaredDefinitions
    rw [List.map_map]
    rfl
  rw [ofItems, rules_readItems, Table.names_insertAll, titles,
    ← FirstSeen.distinct_eq_eraseDups]
  rfl

theorem get?_ofItems (name : Text) :
    (ofItems items).result.get? name =
      lastDefinition? (declaredDefinitions (rulesAmong items)) name := by
  rw [get?, ofItems, rules_readItems, Table.get?_insertAll]
  exact Option.or_none

end Sheets

/-- Only the three subsequences of its items count for a sheet. -/
theorem ofItems_congr {items other : List Item} (rules : rulesAmong items = rulesAmong other)
    (policies : atBodiesAmong "after".toList items = atBodiesAmong "after".toList other)
    (symbols : atBodiesAmong "symbols".toList items = atBodiesAmong "symbols".toList other) :
    (ofItems items).result = (ofItems other).result := by
  have sameRules : (ofItems items).result.rules = (ofItems other).result.rules := by
    rw [ofItems, ofItems, rules_readItems, rules_readItems, rules]
  have samePolicy : (ofItems items).result.settings.policy =
      (ofItems other).result.settings.policy := by
    rw [ofItems, ofItems, policy_readItems, policy_readItems, policies]
  have sameSymbols : (ofItems items).result.settings.symbols =
      (ofItems other).result.settings.symbols := by
    apply ext_get
    intro role
    rw [ofItems, ofItems, symbols_readItems, symbols_readItems, symbols]
  exact congrArg₂ Sheet.mk sameRules (congrArg₂ Settings.mk samePolicy sameSymbols)

/-- A sheet is settled by three subsequences of its items. Its rules have distinct
names, in the order in which these first occur, and each has its last definition;
its policy is the last one that can be read, and each symbol the last text given
to it. Items that agree in the three subsequences give the same sheet, however
these are interleaved. -/
theorem sheet_read_by_subsequences :
    (∀ items,
      (ofItems items).result.rules.names = ((rulesAmong items).map Prod.fst).eraseDups ∧
      (ofItems items).result.rules.names.Nodup ∧
      (∀ name definition, (name, definition) ∈ (ofItems items).result.rules.entries ↔
        lastDefinition? (declaredDefinitions (rulesAmong items)) name = some definition) ∧
      (∀ name, (ofItems items).result.get? name =
        lastDefinition? (declaredDefinitions (rulesAmong items)) name) ∧
      (ofItems items).result.settings.policy =
        ((atBodiesAmong "after".toList items).filterMap AtBody.policy?).getLast?.getD .auto ∧
      ∀ role, (ofItems items).result.settings.symbols.get role =
        (symbolTexts role (atBodiesAmong "symbols".toList items)).getLast?.getD
          (({} : Symbols).get role)) ∧
    ∀ items other, rulesAmong items = rulesAmong other →
      atBodiesAmong "after".toList items = atBodiesAmong "after".toList other →
      atBodiesAmong "symbols".toList items = atBodiesAmong "symbols".toList other →
      (ofItems items).result = (ofItems other).result := by
  refine ⟨?_, fun _ _ => ofItems_congr⟩
  intro items
  have distinct : (ofItems items).result.rules.names.Nodup := by
    rw [names_ofItems, ← FirstSeen.distinct_eq_eraseDups]
    exact FirstSeen.nodup_distinct _
  refine ⟨names_ofItems items, distinct, ?_, get?_ofItems items,
    policy_readItems {} items, symbols_readItems {} items⟩
  intro name definition
  rw [Table.mem_entries_iff distinct, ← get?_ofItems]
  rfl

/-- A rule that is defined twice, with policies and symbols in between. -/
def interleavedItems : List Item :=
  [.rule "warn".toList [.declaration ⟨"fg".toList, .bare "red".toList⟩],
    .atRule "after".toList (.value (.bare "keep".toList)),
    .atRule "symbols".toList (.block [⟨"open".toList, .quoted "<".toList⟩]),
    .rule "note".toList [],
    .atRule "import".toList (.value (.bare "base".toList)),
    .atRule "after".toList (.value (.bare "never".toList)),
    .rule "warn".toList [.declaration ⟨"fg".toList, .bare "blue".toList⟩],
    .atRule "symbols".toList (.block [⟨"open".toList, .bare "[".toList⟩,
      ⟨"reset".toList, .quoted "<!>".toList⟩])]

/-- The same items with the rules first, then the symbols and then the policies. -/
def sortedItems : List Item :=
  [.rule "warn".toList [.declaration ⟨"fg".toList, .bare "red".toList⟩],
    .rule "note".toList [],
    .rule "warn".toList [.declaration ⟨"fg".toList, .bare "blue".toList⟩],
    .atRule "symbols".toList (.block [⟨"open".toList, .quoted "<".toList⟩]),
    .atRule "symbols".toList (.block [⟨"open".toList, .bare "[".toList⟩,
      ⟨"reset".toList, .quoted "<!>".toList⟩]),
    .atRule "after".toList (.value (.bare "keep".toList)),
    .atRule "after".toList (.value (.bare "never".toList)),
    .atRule "import".toList (.value (.bare "base".toList))]

/-- Sorting does not change the sheet, whose policy is the one that can be read. -/
theorem interleavedItems_read_as_sorted :
    (ofItems interleavedItems).result = (ofItems sortedItems).result ∧
      (ofItems sortedItems).result.rules.names = ["warn".toList, "note".toList] ∧
      (ofItems sortedItems).result.settings.policy = .keep := by
  obtain ⟨given, same⟩ := sheet_read_by_subsequences
  obtain ⟨names, _, _, _, policy, _⟩ := given sortedItems
  refine ⟨same _ _ (by decide) (by decide) (by decide), ?_, ?_⟩
  · rw [names]
    decide
  · rw [policy]
    decide

end Sheet

end TerminalMarkup
