import Mathlib.Data.List.Induction
import TerminalMarkup.Proofs.Sheet.ItemReading

/-!
Contract: what the body of a rule gives, field by field.

Reading goes through the declarations and blocks of a body in order and edits
one part after the other. `declaredPart` says for each field of a part on its
own what a sequence of declarations gives, and `declaredDefinition` makes a
definition from three such sequences: the declarations outside of blocks, those
of all `inside` blocks and those of all `after` blocks. Reading gives the same
(`body_read_part_by_part`), so only the order within each sequence matters.
-/

set_option autoImplicit false

namespace TerminalMarkup

/-! ## Lists without repetition -/

/-- The items in the order in which they first occur are what is left when later
copies are erased. -/
theorem FirstSeen.distinct_eq_eraseDups {Item : Type} [DecidableEq Item] [BEq Item]
    [LawfulBEq Item] (items : List Item) :
    distinct items = items.eraseDups := by
  induction items using List.reverseRecOn with
  | nil => rfl
  | append_singleton front last inductionHypothesis =>
      have step : distinct (front ++ [last]) = add (distinct front) last := List.foldl_append
      rw [step, List.eraseDups_append, ← inductionHypothesis, add]
      by_cases known : last ∈ front
      · rw [if_pos (mem_distinct.mpr known)]
        simp [List.removeAll, known]
      · rw [if_neg (mt mem_distinct.mp known)]
        simp [List.removeAll, known, List.eraseDups_cons]

/-! ## What edits do to each field -/

namespace Edit

/-- The property whose field an edit changes. -/
def property : Edit → Sheet.Property
  | .fg _ => .fg
  | .bg _ => .bg
  | .enable _ => .enable
  | .disable _ => .disable
  | .reset _ => .reset
  | .keep _ => .keep

/-- The colour that an edit gives to a property. -/
def color? : Sheet.Property → Edit → Option Color
  | .fg, .fg color | .bg, .bg color => some color
  | _, _ => none

/-- The attribute that an edit adds to the list of a property. -/
def style? : Sheet.Property → Edit → Option Attribute
  | .enable, .enable style | .disable, .disable style | .reset, .reset (.style style) =>
    some style
  | _, _ => none

/-- The targets that an edit adds to the set of a property. -/
def targets? : Sheet.Property → Edit → Option Targets
  | .reset, .reset (.targets targets) | .keep, .keep targets => some targets
  | _, _ => none

variable {property : Sheet.Property} {edit : Edit}

theorem color?_eq_none (other : edit.property ≠ property) : edit.color? property = none := by
  cases edit <;> cases property <;> first | rfl | exact absurd rfl other

theorem style?_eq_none (other : edit.property ≠ property) : edit.style? property = none := by
  cases edit <;> cases property <;> first | rfl | exact absurd rfl other

theorem targets?_eq_none (other : edit.property ≠ property) :
    edit.targets? property = none := by
  cases edit <;> cases property <;> first | rfl | exact absurd rfl other

end Edit

/-- A set of targets united with some others. -/
def Targets.unionAll (targets : Targets) (others : List Targets) : Targets :=
  others.foldl union targets

/-- The first item of a list is the last one unless others follow it. -/
theorem getLast?_or_some {Item : Type} (first : Item) (others : List Item)
    (initial : Option Item) :
    others.getLast?.or (some first) = (first :: others).getLast?.or initial := by
  rw [List.getLast?_cons, Option.some_or, Option.or_some]

/-- Edits change each field as the edits of its property say: the last colour
counts, attributes are added unless present, and targets are united. -/
theorem Part.editAll_eq (part : Part) (edits : List Edit) :
    part.editAll edits =
      { fg := (edits.filterMap (Edit.color? .fg)).getLast?.or part.fg
        bg := (edits.filterMap (Edit.color? .bg)).getLast?.or part.bg
        enable := FirstSeen.addAll part.enable (edits.filterMap (Edit.style? .enable))
        disable := FirstSeen.addAll part.disable (edits.filterMap (Edit.style? .disable))
        reset := part.reset.unionAll (edits.filterMap (Edit.targets? .reset))
        resetAttributes :=
          FirstSeen.addAll part.resetAttributes (edits.filterMap (Edit.style? .reset))
        keep := part.keep.unionAll (edits.filterMap (Edit.targets? .keep)) } := by
  induction edits generalizing part with
  | nil => rfl
  | cons edit rest inductionHypothesis =>
      have step : part.editAll (edit :: rest) = (part.edit edit).editAll rest := rfl
      rw [step, inductionHypothesis]
      cases edit with
      | fg color =>
          rw [Part.mk.injEq]
          exact ⟨getLast?_or_some color _ part.fg, rfl, rfl, rfl, rfl, rfl, rfl⟩
      | bg color =>
          rw [Part.mk.injEq]
          exact ⟨rfl, getLast?_or_some color _ part.bg, rfl, rfl, rfl, rfl, rfl⟩
      | enable style => rfl
      | disable style => rfl
      | reset operand => cases operand <;> rfl
      | keep targets => rfl

namespace Sheet

/-! ## What declarations give -/

/-- The bare text that a declaration gives to a property. -/
def Declaration.textFor? (property : Property) (declaration : Declaration) : Option Text :=
  match declaration.value with
  | .bare text => if declaration.property = property.name then some text else none
  | .quoted _ => none

/-- The bare texts that declarations give to a property, in order. -/
def textsFor (property : Property) (declarations : List Declaration) : List Text :=
  declarations.filterMap (Declaration.textFor? property)

/-- The readable colours that declarations give to a property. -/
def colorsFor (property : Property) (declarations : List Declaration) : List Color :=
  (textsFor property declarations).filterMap (Reader.whole? Reader.color)

/-- The words of a text that is a keyword list. Any other text has none. -/
def listedWords (text : Text) : List Text :=
  (Reader.whole? Reader.words text).getD []

/-- What is named by the words that declarations give to a property. Words that
name nothing are left out. -/
def namedFor {Result : Type} (name? : Text → Option Result) (property : Property)
    (declarations : List Declaration) : List Result :=
  ((textsFor property declarations).flatMap listedWords).filterMap name?

/-- The attribute that a word names. -/
def attribute? (word : Text) : Option Attribute :=
  (Attribute.ofWord word).toOption

/-- The targets that a word names. -/
def targets? (word : Text) : Option Targets :=
  (Targets.ofWord word).toOption

/-- The attribute that a word names, unless the word names targets. -/
def attributeOnly? (word : Text) : Option Attribute :=
  if (targets? word).isSome then none else attribute? word

/-- The part that some declarations give. Of the colours the last one counts;
each attribute stands where it first occurs, and sets of targets are united. -/
def declaredPart (declarations : List Declaration) : Part where
  fg := (colorsFor .fg declarations).getLast?
  bg := (colorsFor .bg declarations).getLast?
  enable := (namedFor attribute? .enable declarations).eraseDups
  disable := (namedFor attribute? .disable declarations).eraseDups
  reset := Targets.none.unionAll (namedFor targets? .reset declarations)
  resetAttributes := (namedFor attributeOnly? .reset declarations).eraseDups
  keep := Targets.none.unionAll (namedFor targets? .keep declarations)

/-! ## Reading declarations -/

section Reading

variable {context name text : Text} {property : Property}

theorem result_readColor (edit : Color → Edit) :
    (readColor context name text edit).result =
      (Reader.whole? Reader.color text).toList.map edit := by
  unfold readColor
  cases Reader.whole? Reader.color text <;> rfl

theorem result_readWords {Result : Type} (ofWord : Text → Except ValueError Result)
    (edit : Result → Edit) :
    (readWords context name text ofWord edit).result =
      ((listedWords text).filterMap fun word => (ofWord word).toOption).map edit := by
  unfold readWords listedWords
  cases Reader.whole? Reader.words text with
  | none => rfl
  | some words =>
      show words.flatMap (fun word => (readWord context name ofWord edit word).result) = _
      rw [Option.getD_some, List.map_filterMap, List.filterMap_eq_flatMap_toList]
      apply List.flatMap_congr
      intro word _
      unfold readWord
      cases ofWord word <;> rfl

/-- Reading the text of a property changes its own field. -/
theorem property_of_mem_readProperty {edit : Edit}
    (member : edit ∈ (readProperty context text property).result) :
    edit.property = property := by
  cases property with
  | fg | bg =>
      rw [readProperty, result_readColor] at member
      obtain ⟨color, _, rfl⟩ := List.mem_map.mp member
      rfl
  | enable | disable | reset | keep =>
      rw [readProperty, result_readWords] at member
      obtain ⟨value, _, rfl⟩ := List.mem_map.mp member
      rfl

theorem readDeclaration_of_textFor? {declaration : Declaration}
    (given : declaration.textFor? property = some text) :
    readDeclaration context declaration = readProperty context text property := by
  obtain ⟨name, value⟩ := declaration
  cases value with
  | quoted contents => cases given
  | bare bareText =>
      unfold Declaration.textFor? at given
      dsimp only at given
      split_ifs at given with named
      rw [← Option.some.inj given, readDeclaration]
      dsimp only
      rw [named, ofName?_name]

/-- A declaration that gives no text to a property does not change its field. -/
theorem property_ne_of_mem_readDeclaration {declaration : Declaration} {edit : Edit}
    (nothing : declaration.textFor? property = none)
    (member : edit ∈ (readDeclaration context declaration).result) :
    edit.property ≠ property := by
  obtain ⟨name, value⟩ := declaration
  cases value with
  | quoted contents => cases member
  | bare bareText =>
      unfold Declaration.textFor? at nothing
      unfold readDeclaration at member
      dsimp only at nothing member
      split at member
      · next other known =>
        rw [property_of_mem_readProperty member]
        rintro rfl
        have named : other.name = name := by simpa using List.find?_some known
        simp [named] at nothing
      · cases member

end Reading

section Fields

variable (context : Text) (property : Property)

/-- What declarations give to one field is read from the texts that they give to
its property. -/
theorem filterMap_readDeclarations {Value : Type} {pick : Edit → Option Value}
    (picks : ∀ {edit : Edit}, edit.property ≠ property → pick edit = none)
    {read : Text → List Value}
    (reads : ∀ text, (readProperty context text property).result.filterMap pick = read text)
    (declarations : List Declaration) :
    (readDeclarations context declarations).result.filterMap pick =
      (textsFor property declarations).flatMap read := by
  unfold readDeclarations Reported.flatMap
  rw [List.filterMap_flatMap, textsFor, List.filterMap_eq_flatMap_toList, List.flatMap_assoc]
  apply List.flatMap_congr
  intro declaration _
  cases given : declaration.textFor? property with
  | none =>
      apply List.filterMap_eq_nil_iff.mpr
      intro edit member
      exact picks (property_ne_of_mem_readDeclaration given member)
  | some text =>
      rw [readDeclaration_of_textFor? given, reads, Option.toList_some, List.flatMap_singleton]

/-- The colours of a field that takes colours. -/
theorem colors_readDeclarations {edit : Color → Edit}
    (reads : ∀ text, readProperty context text property =
      readColor context property.name text edit)
    (picks : ∀ color, (edit color).color? property = some color)
    (declarations : List Declaration) :
    (readDeclarations context declarations).result.filterMap (Edit.color? property) =
      colorsFor property declarations := by
  have texts : colorsFor property declarations = (textsFor property declarations).flatMap
      fun text => (Reader.whole? Reader.color text).toList :=
    List.filterMap_eq_flatMap_toList ..
  rw [texts]
  apply filterMap_readDeclarations context property Edit.color?_eq_none
  intro text
  have inverse : Edit.color? property ∘ edit = some := funext picks
  rw [reads, result_readColor, List.filterMap_map, inverse, List.filterMap_some]

/-- The values of a field that takes words. -/
theorem named_readDeclarations {Result Value : Type} {pick : Edit → Option Value}
    {ofWord : Text → Except ValueError Result} {edit : Result → Edit}
    {name? : Text → Option Value}
    (picks : ∀ {edit : Edit}, edit.property ≠ property → pick edit = none)
    (reads : ∀ text, readProperty context text property =
      readWords context property.name text ofWord edit)
    (names : ∀ word, ((ofWord word).toOption.bind fun value => pick (edit value)) = name? word)
    (declarations : List Declaration) :
    (readDeclarations context declarations).result.filterMap pick =
      namedFor name? property declarations := by
  rw [namedFor, List.filterMap_flatMap]
  apply filterMap_readDeclarations context property picks
  intro text
  rw [reads, result_readWords, List.filterMap_map, List.filterMap_filterMap]
  exact List.filterMap_congr fun word _ => names word

end Fields

section Words

variable (word : Text)

theorem bind_style?_attribute :
    (Attribute.ofWord word).toOption.bind some = attribute? word := by
  rw [attribute?, Option.bind_fun_some]

theorem bind_targets?_targets :
    (Targets.ofWord word).toOption.bind some = targets? word := by
  rw [targets?, Option.bind_fun_some]

theorem bind_targets?_operand :
    ((Operand.ofWord word).toOption.bind fun operand => (Edit.reset operand).targets? .reset) =
      targets? word := by
  unfold Operand.ofWord targets?
  cases Targets.ofWord word with
  | ok group => rfl
  | error cause => cases Attribute.ofWord word <;> rfl

theorem bind_style?_operand :
    ((Operand.ofWord word).toOption.bind fun operand => (Edit.reset operand).style? .reset) =
      attributeOnly? word := by
  unfold Operand.ofWord attributeOnly? targets? attribute?
  cases Targets.ofWord word with
  | ok group => rfl
  | error cause => cases Attribute.ofWord word <;> rfl

end Words

/-- The edits of some declarations make the part that the declarations give. -/
theorem editAll_readDeclarations (context : Text) (declarations : List Declaration) :
    Part.empty.editAll (readDeclarations context declarations).result =
      declaredPart declarations := by
  have fg := colors_readDeclarations context .fg (fun _ => rfl) (fun _ => rfl) declarations
  have bg := colors_readDeclarations context .bg (fun _ => rfl) (fun _ => rfl) declarations
  have enable := named_readDeclarations context .enable Edit.style?_eq_none (fun _ => rfl)
    bind_style?_attribute declarations
  have disable := named_readDeclarations context .disable Edit.style?_eq_none (fun _ => rfl)
    bind_style?_attribute declarations
  have reset := named_readDeclarations context .reset Edit.targets?_eq_none (fun _ => rfl)
    bind_targets?_operand declarations
  have resetAttributes := named_readDeclarations context .reset Edit.style?_eq_none
    (fun _ => rfl) bind_style?_operand declarations
  have keep := named_readDeclarations context .keep Edit.targets?_eq_none (fun _ => rfl)
    bind_targets?_targets declarations
  rw [Part.editAll_eq, fg, bg, enable, disable, reset, resetAttributes, keep]
  simp only [declaredPart, ← FirstSeen.distinct_eq_eraseDups, Part.empty, Option.or_none]
  rfl

/-- More declarations edit the part that the earlier ones give. -/
theorem editAll_declaredPart (context : Text) (front back : List Declaration) :
    (declaredPart front).editAll (readDeclarations context back).result =
      declaredPart (front ++ back) := by
  rw [← editAll_readDeclarations context, ← editAll_readDeclarations context,
    readDeclarations_append]
  exact List.foldl_append.symm

/-! ## Bodies -/

/-- A declaration outside of blocks. -/
def BodyEntry.declaration? : BodyEntry → Option Declaration
  | .declaration given => some given
  | .block _ _ => none

/-- The declarations of a block of a given name. -/
def BodyEntry.block? (name : Text) : BodyEntry → Option (List Declaration)
  | .declaration _ => none
  | .block title declarations => if title = name then some declarations else none

/-- The declarations of a body outside of blocks, in order. -/
def outerDeclarations (body : List BodyEntry) : List Declaration :=
  body.filterMap BodyEntry.declaration?

/-- The declarations in all blocks of a name, in order, if there is such a
block. -/
def blockDeclarations? (name : Text) (body : List BodyEntry) : Option (List Declaration) :=
  match body.filterMap (BodyEntry.block? name) with
  | [] => none
  | blocks => some blocks.flatten

/-- The definition that the body of a rule gives. -/
def declaredDefinition (body : List BodyEntry) : Definition where
  fields := declaredPart (outerDeclarations body)
  inside := (blockDeclarations? "inside".toList body).map declaredPart
  after := (blockDeclarations? "after".toList body).map declaredPart

theorem blockDeclarations?_isSome_iff {name : Text} {body : List BodyEntry} :
    (blockDeclarations? name body).isSome ↔
      ∃ declarations, .block name declarations ∈ body := by
  have nonempty : (blockDeclarations? name body).isSome ↔
      body.filterMap (BodyEntry.block? name) ≠ [] := by
    unfold blockDeclarations?
    cases body.filterMap (BodyEntry.block? name) <;> simp
  rw [nonempty]
  constructor
  · intro present
    obtain ⟨declarations, member⟩ := List.exists_mem_of_ne_nil _ present
    obtain ⟨entry, listed, found⟩ := List.mem_filterMap.mp member
    cases entry with
    | declaration given => cases found
    | block title inner =>
        unfold BodyEntry.block? at found
        dsimp only at found
        split_ifs at found with named
        exact ⟨inner, named ▸ listed⟩
  · rintro ⟨declarations, listed⟩
    exact List.ne_nil_of_mem (List.mem_filterMap.mpr ⟨_, listed, if_pos rfl⟩)

section Bodies

variable {name title : Text} (body : List BodyEntry)

theorem outerDeclarations_append_declaration (declaration : Declaration) :
    outerDeclarations (body ++ [.declaration declaration]) =
      outerDeclarations body ++ [declaration] := by
  simp [outerDeclarations, BodyEntry.declaration?]

theorem outerDeclarations_append_block (declarations : List Declaration) :
    outerDeclarations (body ++ [.block name declarations]) = outerDeclarations body := by
  simp [outerDeclarations, BodyEntry.declaration?]

theorem blockDeclarations?_append_declaration (declaration : Declaration) :
    blockDeclarations? name (body ++ [.declaration declaration]) =
      blockDeclarations? name body := by
  have same : (body ++ [BodyEntry.declaration declaration]).filterMap (BodyEntry.block? name) =
      body.filterMap (BodyEntry.block? name) := by
    rw [List.filterMap_append]
    exact List.append_nil _
  unfold blockDeclarations?
  rw [same]

theorem blockDeclarations?_append_block (declarations : List Declaration) :
    blockDeclarations? name (body ++ [.block name declarations]) =
      some ((blockDeclarations? name body).getD [] ++ declarations) := by
  unfold blockDeclarations?
  cases found : body.filterMap (BodyEntry.block? name) with
  | nil => simp [found, BodyEntry.block?]
  | cons first others => simp [found, BodyEntry.block?]

theorem blockDeclarations?_append_other (differs : title ≠ name)
    (declarations : List Declaration) :
    blockDeclarations? name (body ++ [.block title declarations]) =
      blockDeclarations? name body := by
  simp [blockDeclarations?, BodyEntry.block?, differs]

end Bodies

/-- A block edits the part that the earlier blocks of its name give, which may be
none. -/
theorem editBlock_declaredPart (context : Text) (before : Option (List Declaration))
    (declarations : List Declaration) :
    editBlock (before.map declaredPart) (readDeclarations context declarations).result =
      some (declaredPart (before.getD [] ++ declarations)) := by
  have start : (before.map declaredPart).getD Part.empty = declaredPart (before.getD []) := by
    cases before <;> rfl
  rw [editBlock, start, editAll_declaredPart]

/-- One more entry of a body adds to one of the three sequences, or to none. -/
theorem result_readEntry (rule : Text) (body : List BodyEntry) (entry : BodyEntry) :
    (readEntry rule (declaredDefinition body) entry).result =
      declaredDefinition (body ++ [entry]) := by
  cases entry with
  | declaration given =>
      have edits : readDeclaration rule given = readDeclarations rule [given] := by
        simp [readDeclarations, Reported.flatMap]
      unfold declaredDefinition
      rw [outerDeclarations_append_declaration, blockDeclarations?_append_declaration,
        blockDeclarations?_append_declaration, ← editAll_declaredPart rule, ← edits]
      rfl
  | block name declarations =>
      have edits := fun title =>
        editBlock_declaredPart rule (blockDeclarations? title body) declarations
      unfold declaredDefinition readEntry
      rw [outerDeclarations_append_block]
      dsimp only
      split_ifs with inside after
      · subst inside
        rw [blockDeclarations?_append_block, blockDeclarations?_append_other _ (by decide)]
        show Definition.mk _ _ _ = _
        rw [Definition.mk.injEq]
        exact ⟨rfl, edits _, rfl⟩
      · subst after
        rw [blockDeclarations?_append_block, blockDeclarations?_append_other _ (by decide)]
        show Definition.mk _ _ _ = _
        rw [Definition.mk.injEq]
        exact ⟨rfl, rfl, edits _⟩
      · rw [blockDeclarations?_append_other _ inside, blockDeclarations?_append_other _ after]
        rfl

/-- Reading a body gives the definition that is put together from its three
sequences. -/
theorem result_readBody (rule : Text) (body : List BodyEntry) :
    (readBody rule {} body).result = declaredDefinition body := by
  induction body using List.reverseRecOn with
  | nil => rfl
  | append_singleton front last inductionHypothesis =>
      rw [readBody_append]
      show (readEntry rule (readBody rule {} front).result last).result = _
      rw [inductionHypothesis, result_readEntry]

/-- A block may be split into two blocks of its name. -/
theorem declaredDefinition_split (front back : List BodyEntry) (name : Text)
    (first second : List Declaration) :
    declaredDefinition (front ++ .block name (first ++ second) :: back) =
      declaredDefinition (front ++ .block name first :: .block name second :: back) := by
  have outer : outerDeclarations (front ++ .block name (first ++ second) :: back) =
      outerDeclarations (front ++ .block name first :: .block name second :: back) := by
    unfold outerDeclarations
    rw [List.filterMap_append, List.filterMap_append]
    rfl
  have blocks : ∀ title,
      blockDeclarations? title (front ++ .block name (first ++ second) :: back) =
        blockDeclarations? title (front ++ .block name first :: .block name second :: back) := by
    intro title
    unfold blockDeclarations?
    by_cases named : name = title <;>
      cases front.filterMap (BodyEntry.block? title) <;> simp [BodyEntry.block?, *]
  rw [declaredDefinition, outer, blocks, blocks]
  rfl

/-- A body is read part by part. Declarations give each field of a part on its
own; a definition takes its fields from the declarations outside of blocks, and
each of its two other parts from all blocks of that name, if there is one. So two
bodies that agree in these three sequences give the same definition, whatever
else they hold and however their blocks are split. -/
theorem body_read_part_by_part :
    (∀ context declarations,
      Part.empty.editAll (readDeclarations context declarations).result =
        declaredPart declarations) ∧
    (∀ rule body, (readBody rule {} body).result = declaredDefinition body) ∧
    (∀ rule body,
      ((readBody rule {} body).result.inside.isSome ↔
        ∃ declarations, .block "inside".toList declarations ∈ body) ∧
      ((readBody rule {} body).result.after.isSome ↔
        ∃ declarations, .block "after".toList declarations ∈ body)) ∧
    (∀ rule other body changed, outerDeclarations body = outerDeclarations changed →
      blockDeclarations? "inside".toList body = blockDeclarations? "inside".toList changed →
      blockDeclarations? "after".toList body = blockDeclarations? "after".toList changed →
      (readBody rule {} body).result = (readBody other {} changed).result) ∧
    ∀ rule name front back first second,
      (readBody rule {} (front ++ .block name (first ++ second) :: back)).result =
        (readBody rule {}
          (front ++ .block name first :: .block name second :: back)).result := by
  refine ⟨editAll_readDeclarations, result_readBody, ?_, ?_, ?_⟩
  · intro rule body
    rw [result_readBody]
    constructor
    · rw [← blockDeclarations?_isSome_iff, declaredDefinition, Option.isSome_map]
    · rw [← blockDeclarations?_isSome_iff, declaredDefinition, Option.isSome_map]
  · intro rule other body changed outer inside after
    rw [result_readBody, result_readBody, declaredDefinition, outer, inside, after]
    rfl
  · intro rule name front back first second
    rw [result_readBody, result_readBody, declaredDefinition_split]

/-- A body whose blocks are split and interleaved, with values that cannot be read. -/
def scatteredBody : List BodyEntry :=
  [.block "inside".toList [⟨"fg".toList, .bare "red".toList⟩],
    .declaration ⟨"fg".toList, .bare "blue".toList⟩,
    .declaration ⟨"enable".toList, .bare "bold, shiny italic bold".toList⟩,
    .block "outside".toList [⟨"fg".toList, .bare "green".toList⟩],
    .block "inside".toList [⟨"fg".toList, .bare "256".toList⟩,
      ⟨"keep".toList, .bare "colors".toList⟩],
    .declaration ⟨"reset".toList, .bare "bold attributes".toList⟩]

/-- The same declarations with the two blocks merged and the unknown one left out. -/
def gatheredBody : List BodyEntry :=
  [.declaration ⟨"fg".toList, .bare "blue".toList⟩,
    .declaration ⟨"enable".toList, .bare "bold, shiny italic bold".toList⟩,
    .declaration ⟨"reset".toList, .bare "bold attributes".toList⟩,
    .block "inside".toList [⟨"fg".toList, .bare "red".toList⟩,
      ⟨"fg".toList, .bare "256".toList⟩, ⟨"keep".toList, .bare "colors".toList⟩]]

/-- Gathering the blocks of a body does not change the definition, and what cannot
be read leaves the earlier colour in place. -/
theorem scatteredBody_reads_as_gathered :
    (readBody "warn".toList {} scatteredBody).result =
        (readBody "warn".toList {} gatheredBody).result ∧
      (readBody "warn".toList {} gatheredBody).result.inside.bind Part.fg =
        some (.base .red) := by
  obtain ⟨_, whole, _, same, _⟩ := body_read_part_by_part
  refine ⟨same _ _ _ _ (by decide) (by decide) (by decide), ?_⟩
  rw [whole]
  decide

end Sheet

end TerminalMarkup
