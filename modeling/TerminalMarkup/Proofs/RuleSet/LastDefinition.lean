import TerminalMarkup.Markup.RuleSet
import TerminalMarkup.Proofs.RuleSet.Construction
import Mathlib.Data.List.Sort

/-!
Contract: what decides whether a rule set is built, and what is in it.

`faults` lists what is wrong with the symbols and then with each entry of the
list of definitions. Construction fails with the first fault if there is one,
whatever is defined again later. Otherwise each name has the compilation of
its last definition, so that lists with the same last definitions give rule
sets that nobody can tell apart.
-/

set_option autoImplicit false

namespace TerminalMarkup

/-! ## Faults -/

/-- Whether a definition gives an inside part and top-level fields besides. -/
def Definition.IsMixed (definition : Definition) : Prop :=
  definition.inside ≠ none ∧ definition.fields ≠ Part.empty

instance (definition : Definition) : Decidable definition.IsMixed := by
  unfold Definition.IsMixed
  infer_instance

theorem Definition.validate_eq (definition : Definition) (name : Text) :
    definition.validate name =
      if definition.IsMixed then .error (.mixedInside name) else .ok () := by
  obtain ⟨fields, inside, after⟩ := definition
  unfold validate isValid IsMixed Part.isEmpty
  by_cases empty : fields = Part.empty
  · simp [empty]
  · cases inside <;> simp [empty]

/-- The pairs of different symbols. -/
def SymbolRole.pairs : List (SymbolRole × SymbolRole) :=
  [(opening, closing), (opening, reset), (closing, reset)]

theorem Definition.compile_of_not_mixed {definition : Definition}
    (unmixed : ¬ definition.IsMixed) (name : Text) (policy : Policy) :
    definition.compile name policy = .ok (definition.compiled policy) := by
  rw [compile, validate_eq, if_neg unmixed]
  rfl

/-- What is wrong with three symbols: those that are empty, then the pairs of
equal ones. -/
def Symbols.faults (symbols : Symbols) : List RuleError :=
  (SymbolRole.all.flatMap fun role =>
      if symbols.get role = [] then [.emptySymbol role] else []) ++
    SymbolRole.pairs.flatMap fun pair =>
      if symbols.get pair.1 = symbols.get pair.2 then [.equalSymbols pair.1 pair.2] else []

/-- What is wrong with one entry of a list of definitions. -/
def entryFault? (entry : Text × Definition) : Option RuleError :=
  if entry.1 = [] then some .emptyName
  else if entry.2.IsMixed then some (.mixedInside entry.1)
  else none

/-- Everything that is wrong with some definitions and settings, in the order
in which it is looked for. -/
def faults (definitions : List (Text × Definition)) (settings : Settings) :
    List RuleError :=
  settings.symbols.faults ++ definitions.filterMap entryFault?

/-- A result, unless there are faults. The first fault is the error. -/
def unlessFaulty {Result : Type} (found : List RuleError) (result : Result) :
    Except RuleError Result :=
  match found with
  | [] => .ok result
  | cause :: _ => .error cause

theorem unlessFaulty_append {First Second : Type} (front back : List RuleError)
    (first : First) (second : Second) :
    (unlessFaulty front first >>= fun _ => unlessFaulty back second) =
      unlessFaulty (front ++ back) second := by
  cases front <;> rfl

theorem unlessFaulty_ite {Result : Type} (condition : Prop) [Decidable condition]
    (cause : RuleError) (others : List RuleError) (result : Result) :
    unlessFaulty ((if condition then [cause] else []) ++ others) result =
      if condition then .error cause else unlessFaulty others result := by
  split <;> rfl

theorem Symbols.validate_eq (symbols : Symbols) :
    symbols.validate = unlessFaulty symbols.faults () := by
  unfold validate faults
  simp only [SymbolRole.all, SymbolRole.pairs, List.flatMap_cons, List.flatMap_nil,
    List.append_assoc, List.nil_append, unlessFaulty_ite]
  rfl

theorem SymbolRole.mem_pairs_or {first second : SymbolRole} (different : first ≠ second) :
    (first, second) ∈ pairs ∨ (second, first) ∈ pairs := by
  cases first <;> cases second <;> revert different <;> decide

theorem Symbols.faults_eq_nil_iff (symbols : Symbols) :
    symbols.faults = [] ↔
      (∀ role, symbols.get role ≠ []) ∧
        ∀ first second, first ≠ second → symbols.get first ≠ symbols.get second := by
  unfold faults
  simp only [List.append_eq_nil_iff, List.flatMap_eq_nil_iff, ite_eq_right_iff,
    List.cons_ne_nil, imp_false]
  constructor
  · rintro ⟨filled, distinct⟩
    refine ⟨fun role => filled role (by cases role <;> decide), ?_⟩
    intro first second different same
    rcases SymbolRole.mem_pairs_or different with member | member
    · exact distinct _ member same
    · exact distinct _ member same.symm
  · rintro ⟨filled, distinct⟩
    refine ⟨fun role _ => filled role, ?_⟩
    intro pair member
    exact distinct pair.1 pair.2 (by revert pair; decide)

theorem entryFault?_eq_none_iff (entry : Text × Definition) :
    entryFault? entry = none ↔ entry.1 ≠ [] ∧ ¬ entry.2.IsMixed := by
  unfold entryFault?
  split_ifs with unnamed mixed
  · simp [unnamed]
  · simp [mixed]
  · simp [unnamed, mixed]

/-- Nothing is wrong exactly when the symbols are filled and differ from one
another, and each entry has a name and gives its inside part in one way. -/
theorem faults_eq_nil_iff (definitions : List (Text × Definition)) (settings : Settings) :
    faults definitions settings = [] ↔
      (∀ role, settings.symbols.get role ≠ []) ∧
        (∀ first second, first ≠ second →
          settings.symbols.get first ≠ settings.symbols.get second) ∧
        ∀ entry ∈ definitions, entry.1 ≠ [] ∧ ¬ entry.2.IsMixed := by
  unfold faults
  rw [List.append_eq_nil_iff, Symbols.faults_eq_nil_iff, List.filterMap_eq_nil_iff, and_assoc]
  simp only [entryFault?_eq_none_iff]

/-! ## Last definitions -/

/-- The last definition of a name in a list. -/
def lastDefinition? (definitions : List (Text × Definition)) (name : Text) :
    Option Definition :=
  definitions.reverse.lookup name

theorem lastDefinition?_cons (entry : Text × Definition)
    (rest : List (Text × Definition)) (name : Text) :
    lastDefinition? (entry :: rest) name =
      (lastDefinition? rest name).or (if name = entry.1 then some entry.2 else none) := by
  unfold lastDefinition?
  rw [List.reverse_cons, List.lookup_append]
  congr 1
  by_cases here : name = entry.1
  · rw [if_pos here, here, List.lookup_cons_self]
  · rw [if_neg here, List.lookup_cons, beq_eq_false_iff_ne.mpr here]
    rfl

theorem isSome_lastDefinition?_iff (definitions : List (Text × Definition)) (name : Text) :
    (lastDefinition? definitions name).isSome ↔ name ∈ definitions.map Prod.fst := by
  induction definitions with
  | nil => simp [lastDefinition?]
  | cons entry rest inductionHypothesis =>
      rw [lastDefinition?_cons, Option.isSome_or, Bool.or_eq_true, inductionHypothesis,
        List.map_cons, List.mem_cons, or_comm]
      by_cases here : name = entry.1 <;> simp [here]

theorem mem_of_lastDefinition? {definitions : List (Text × Definition)} {name : Text}
    {definition : Definition} (found : lastDefinition? definitions name = some definition) :
    (name, definition) ∈ definitions := by
  obtain ⟨later, earlier, whole, _⟩ := List.lookup_eq_some_iff.mp found
  rw [← List.mem_reverse, whole]
  simp

namespace Draft

/-- A draft with one more entry, which is taken to be faultless. -/
def put (policy : Policy) (draft : Draft) (entry : Text × Definition) : Draft :=
  if entry.1 = resetName then { draft with resetDefinition := entry.2 }
  else { draft with ordinary := draft.ordinary.insert entry.1 (entry.2.compiled policy) }

theorem define_eq (policy : Policy) (draft : Draft) (entry : Text × Definition) :
    draft.define policy entry.1 entry.2 =
      unlessFaulty (entryFault? entry).toList (draft.put policy entry) := by
  unfold define entryFault? put Definition.compile
  rw [Definition.validate_eq]
  split_ifs <;> rfl

theorem defineAll_eq (policy : Policy) (draft : Draft)
    (definitions : List (Text × Definition)) :
    draft.defineAll policy definitions =
      unlessFaulty (definitions.filterMap entryFault?) (definitions.foldl (put policy) draft) := by
  induction definitions generalizing draft with
  | nil => rfl
  | cons entry rest inductionHypothesis =>
      rw [defineAll, define_eq]
      simp only [inductionHypothesis]
      cases fault : entryFault? entry with
      | none => rw [List.filterMap_cons_none fault]; rfl
      | some cause => rw [List.filterMap_cons_some fault]; rfl

variable {policy : Policy} {definitions : List (Text × Definition)}

/-- After some entries a name has the compilation of its last definition, or
else what it had before. -/
theorem get?_foldl_put {name : Text} (ordinary : name ≠ resetName) (draft : Draft) :
    (definitions.foldl (put policy) draft).ordinary.get? name =
      ((lastDefinition? definitions name).map (·.compiled policy)).or
        (draft.ordinary.get? name) := by
  induction definitions generalizing draft with
  | nil => rfl
  | cons entry rest inductionHypothesis =>
      rw [List.foldl_cons, inductionHypothesis, lastDefinition?_cons, Option.map_or,
        Option.or_assoc]
      congr 1
      unfold put
      split_ifs with isReset here here
      · exact absurd (here.trans isReset) ordinary
      · rfl
      · rw [Table.get?_insert, if_pos here]; rfl
      · rw [Table.get?_insert, if_neg here]; rfl

theorem resetDefinition_foldl_put (draft : Draft) :
    (definitions.foldl (put policy) draft).resetDefinition =
      (lastDefinition? definitions resetName).getD draft.resetDefinition := by
  induction definitions generalizing draft with
  | nil => rfl
  | cons entry rest inductionHypothesis =>
      rw [List.foldl_cons, inductionHypothesis, lastDefinition?_cons]
      unfold put
      cases lastDefinition? rest resetName with
      | some last => rfl
      | none =>
          split_ifs with isReset here here
          · rfl
          · exact absurd isReset.symm here
          · exact absurd here.symm isReset
          · rfl

end Draft

namespace RuleSet

/-- The rule set of some entries that are taken to be faultless. -/
def ofLast (definitions : List (Text × Definition)) (settings : Settings) : RuleSet where
  ordinary := (definitions.foldl (Draft.put settings.policy) {}).ordinary
  resetRule := ((lastDefinition? definitions resetName).getD builtinReset).compiled .keep
  settings

/-- Construction gives the rule set of the last definitions, unless something is
wrong. -/
theorem build_eq (definitions : List (Text × Definition)) (settings : Settings) :
    build definitions settings =
      unlessFaulty (faults definitions settings) (ofLast definitions settings) := by
  unfold build faults
  rw [Symbols.validate_eq, Draft.defineAll_eq, ← unlessFaulty_append _ _ ()]
  congr 1
  funext _
  cases definitions.filterMap entryFault? with
  | nil =>
      show Except.ok _ = Except.ok _
      rw [Draft.resetDefinition_foldl_put]
      rfl
  | cons cause others => rfl

theorem build_eq_ok_iff {definitions : List (Text × Definition)} {settings : Settings}
    {rules : RuleSet} :
    build definitions settings = .ok rules ↔
      faults definitions settings = [] ∧ rules = ofLast definitions settings := by
  rw [build_eq]
  cases faults definitions settings with
  | nil => simp [unlessFaulty, eq_comm]
  | cons cause others => simp [unlessFaulty]

theorem build_eq_error_iff {definitions : List (Text × Definition)} {settings : Settings}
    {cause : RuleError} :
    build definitions settings = .error cause ↔
      (faults definitions settings).head? = some cause := by
  rw [build_eq]
  cases faults definitions settings with
  | nil => simp [unlessFaulty]
  | cons first others => simp [unlessFaulty]

section Views

variable (definitions : List (Text × Definition)) (settings : Settings)

theorem get?_ofLast (name : Text) :
    (ofLast definitions settings).get? name =
      if name = resetName then some (ofLast definitions settings).resetRule
      else (lastDefinition? definitions name).map (·.compiled settings.policy) := by
  unfold get?
  split_ifs with isReset
  · rfl
  · show (definitions.foldl (Draft.put settings.policy) {}).ordinary.get? name = _
    rw [Draft.get?_foldl_put isReset, show ({} : Draft).ordinary.get? name = none from rfl,
      Option.or_none]

theorem mem_names_ofLast (name : Text) :
    name ∈ (ofLast definitions settings).names ↔
      name = resetName ∨ name ∈ definitions.map Prod.fst := by
  unfold names
  rw [SortedNames.mem_ofList, List.mem_cons, Table.mem_names_iff]
  by_cases isReset : name = resetName
  · simp [isReset]
  · have view := get?_ofLast definitions settings name
    rw [get?, if_neg isReset, if_neg isReset] at view
    rw [view, Option.isSome_map, isSome_lastDefinition?_iff]

end Views

/-- A set that can be built has the settings given, and each of its rules has a
name. -/
theorem named_of_build {definitions : List (Text × Definition)} {settings : Settings}
    {rules : RuleSet} (built : build definitions settings = .ok rules) :
    rules.settings = settings ∧ ∀ name ∈ rules.names, name ≠ [] := by
  obtain ⟨faultless, rfl⟩ := build_eq_ok_iff.mp built
  refine ⟨rfl, ?_⟩
  intro name member
  rcases (mem_names_ofLast definitions settings name).mp member with rfl | given
  · decide
  · obtain ⟨entry, listed, rfl⟩ := List.mem_map.mp given
    exact (((faults_eq_nil_iff definitions settings).mp faultless).2.2 entry listed).1

/-! ## Sets that agree -/

/-- Two rule sets with the same rules under the same names, the same markers,
and so the same tokens and the same renderings. -/
structure Agree (rules other : RuleSet) : Prop where
  settings : rules.settings = other.settings
  names : rules.names = other.names
  get? : ∀ name, rules.get? name = other.get? name
  resetRule : rules.resetRule = other.resetRule
  scan : ∀ text, rules.scan text = other.scan text
  render : ∀ rendition tokens, rules.render rendition tokens = other.render rendition tokens
  renderText : ∀ rendition text, rules.renderText rendition text = other.renderText rendition text

theorem names_congr {rules other : RuleSet}
    (same : ∀ name, name ∈ rules.names ↔ name ∈ other.names) :
    rules.names = other.names :=
  (SortedNames.pairwise_ofList _).eq_of_mem_iff (SortedNames.pairwise_ofList _) same

section Rendering

variable {rules other : RuleSet} (sameRules : ∀ name, rules.get? name = other.get? name)
  (sameReset : rules.resetRule = other.resetRule)

include sameRules sameReset

theorem step_congr (stack : OpenRules) (token : Token) :
    rules.step stack token = other.step stack token := by
  cases token with
  | text literal => rfl
  | opening name => simp only [step, sameRules]
  | closing => rfl
  | reset => simp only [step, sameReset]

theorem emissions_congr (stack : OpenRules) (tokens : List Token) :
    rules.emissions stack tokens = other.emissions stack tokens := by
  induction tokens generalizing stack with
  | nil => rfl
  | cons token rest inductionHypothesis =>
      rw [emissions, emissions, step_congr sameRules sameReset, inductionHypothesis]

end Rendering

/-- Lists of entries with the same last definitions give sets that agree. -/
theorem agree_ofLast {definitions others : List (Text × Definition)}
    (same : ∀ name, lastDefinition? definitions name = lastDefinition? others name)
    (settings : Settings) :
    Agree (ofLast definitions settings) (ofLast others settings) := by
  have sameReset :
      (ofLast definitions settings).resetRule = (ofLast others settings).resetRule := by
    unfold ofLast
    rw [same]
  have sameRules : ∀ name,
      (ofLast definitions settings).get? name = (ofLast others settings).get? name := by
    intro name
    rw [get?_ofLast, get?_ofLast, same, sameReset]
  have sameNames : (ofLast definitions settings).names = (ofLast others settings).names := by
    apply names_congr
    intro name
    rw [mem_names_ofLast, mem_names_ofLast, ← isSome_lastDefinition?_iff,
      ← isSome_lastDefinition?_iff, same]
  have sameScan : ∀ text,
      (ofLast definitions settings).scan text = (ofLast others settings).scan text := by
    intro text
    unfold scan markers
    rw [sameNames]
    rfl
  have sameRendering : ∀ rendition tokens,
      (ofLast definitions settings).render rendition tokens =
        (ofLast others settings).render rendition tokens := by
    intro rendition tokens
    unfold render
    rw [emissions_congr sameRules sameReset]
  refine ⟨rfl, sameNames, sameRules, sameReset, sameScan, sameRendering, ?_⟩
  intro rendition text
  unfold renderText
  rw [sameScan, sameRendering]

/-- Construction is all or nothing, and the last definition of a name counts.
It fails exactly when something is wrong with a symbol or with any entry of the
list, and then with the first fault. A set that is built has the compilation of
the last definition under each name, and the reset rule under its own; so the
order of the entries and what is overwritten do not matter. -/
theorem built_from_last_definitions (definitions : List (Text × Definition))
    (settings : Settings) :
    ((∃ cause, build definitions settings = .error cause) ↔
        (∃ role, settings.symbols.get role = []) ∨
        (∃ first second, first ≠ second ∧
          settings.symbols.get first = settings.symbols.get second) ∨
        ∃ entry ∈ definitions, entry.1 = [] ∨ entry.2.IsMixed) ∧
      (∀ cause, build definitions settings = .error cause ↔
        (faults definitions settings).head? = some cause) ∧
      (∀ rules, build definitions settings = .ok rules →
        (∀ name, name ≠ resetName →
          (rules.get? name).map Except.ok =
            (lastDefinition? definitions name).map (·.compile name settings.policy)) ∧
        rules.get? resetName = some rules.resetRule ∧
        ((lastDefinition? definitions resetName).getD builtinReset).compileReset resetName =
          .ok rules.resetRule ∧
        rules.settings = settings ∧
        rules.names.Nodup ∧
        ∀ name, name ∈ rules.names ↔ name = resetName ∨ name ∈ definitions.map Prod.fst) ∧
      ∀ others rules other, build definitions settings = .ok rules →
        build others settings = .ok other →
        (∀ name, lastDefinition? definitions name = lastDefinition? others name) →
        Agree rules other := by
  refine ⟨?_, fun cause => build_eq_error_iff, ?_, ?_⟩
  · have faultless := (faults_eq_nil_iff definitions settings).not
    rw [← List.head?_eq_none_iff, Option.eq_none_iff_forall_ne_some] at faultless
    simp only [not_forall, not_not, not_and_or, exists_prop] at faultless
    simp only [build_eq_error_iff, faultless, ne_eq]
  · intro rules built
    obtain ⟨faultless, rfl⟩ := build_eq_ok_iff.mp built
    obtain ⟨_, _, valid⟩ := (faults_eq_nil_iff definitions settings).mp faultless
    have unmixed : ∀ {name definition}, lastDefinition? definitions name = some definition →
        ¬ definition.IsMixed :=
      fun found => (valid _ (mem_of_lastDefinition? found)).2
    refine ⟨?_, ?_, ?_, rfl, ?_, mem_names_ofLast definitions settings⟩
    · intro name ordinary
      rw [get?_ofLast, if_neg ordinary]
      cases found : lastDefinition? definitions name with
      | none => rfl
      | some definition =>
          simp only [Option.map_some, Definition.compile_of_not_mixed (unmixed found)]
    · rw [get?_ofLast, if_pos rfl]
    · unfold ofLast
      cases found : lastDefinition? definitions resetName with
      | none => rfl
      | some definition => exact Definition.compile_of_not_mixed (unmixed found) _ _
    · exact (SortedNames.pairwise_ofList _).nodup
  · intro others rules other built otherBuilt same
    obtain ⟨_, rfl⟩ := build_eq_ok_iff.mp built
    obtain ⟨_, rfl⟩ := build_eq_ok_iff.mp otherBuilt
    exact agree_ofLast same settings

/-- Entries of which some are overwritten, the reset rule among them. -/
def redefiningEntries : List (Text × Definition) :=
  [("a".toList, { fields := { fg := some (.base .red) } }),
    (resetName, { after := some { fg := some (.base .green) } }),
    ("a".toList, { fields := { enable := [.bold] } }),
    (resetName, { after := some { reset := Targets.styles } })]

/-- The last of these entries for each name, in another order. -/
def remainingEntries : List (Text × Definition) :=
  [(resetName, { after := some { reset := Targets.styles } }),
    ("a".toList, { fields := { enable := [.bold] } })]

theorem redefined_rules_agree :
    ∃ rules other, build redefiningEntries {} = .ok rules ∧
      build remainingEntries {} = .ok other ∧
      (∀ name, lastDefinition? redefiningEntries name =
        lastDefinition? remainingEntries name) ∧
      rules.names.length = 2 ∧ Agree rules other := by
  obtain ⟨rules, built⟩ : ∃ rules, build redefiningEntries {} = .ok rules := ⟨_, rfl⟩
  obtain ⟨other, otherBuilt⟩ : ∃ rules, build remainingEntries {} = .ok rules := ⟨_, rfl⟩
  have same : ∀ name, lastDefinition? redefiningEntries name =
      lastDefinition? remainingEntries name := by
    intro name
    unfold redefiningEntries remainingEntries
    simp only [lastDefinition?_cons]
    by_cases isReset : name = resetName
    · subst isReset
      decide
    · by_cases isOther : name = "a".toList
      · subst isOther
        decide
      · simp only [if_neg isReset, if_neg isOther, Option.or_none]
  refine ⟨rules, other, built, otherBuilt, same, ?_, ?_⟩
  · cases built
    decide
  · exact (built_from_last_definitions redefiningEntries {}).2.2.2 _ _ _ built otherBuilt same

end RuleSet

end TerminalMarkup
