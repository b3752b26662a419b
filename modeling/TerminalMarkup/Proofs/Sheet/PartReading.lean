import TerminalMarkup.Proofs.Sheet.ValueReading
import TerminalMarkup.Sheet.Document

/-!
Contract: the declarations of a part make the part again.

Reading a written part gives edits without any notice, and from the empty part
these edits make the part (`WritesPart.read`). Each declaration adds its own
property to what is already there, so the parts on the way are the given part
cut down to the properties read so far (`restrict`); they do not depend on the
order in which the properties are written.
-/

set_option autoImplicit false

namespace TerminalMarkup

/-! ## Sets of targets -/

namespace Targets

/-- A set of targets with some more of them. -/
def join (targets : Targets) (members : List Target) : Targets :=
  members.foldl (fun joined member => joined.union member.group) targets

theorem has_union (left right : Targets) (target : Target) :
    (left.union right).has target = (left.has target || right.has target) := by
  cases target <;> rfl

theorem has_group (member target : Target) : member.group.has target ↔ target = member := by
  cases member <;> cases target <;> decide

theorem has_join {members : List Target} {target : Target} : ∀ targets : Targets,
    (targets.join members).has target ↔ targets.has target ∨ target ∈ members := by
  induction members with
  | nil => simp [join]
  | cons member others inductionHypothesis =>
      intro targets
      have step := inductionHypothesis (targets.union member.group)
      rw [join, List.foldl_cons, ← join, step, has_union, Bool.or_eq_true, has_group,
        List.mem_cons, or_assoc]

/-- The targets of a set make the set. -/
theorem join_none {targets : Targets} {members : List Target}
    (exactly : ∀ target, target ∈ members ↔ targets.has target) :
    none.join members = targets := by
  apply ext_has
  intro target
  have nothing : none.has target = false := by
    cases target <;> rfl
  rw [Bool.eq_iff_iff, has_join, nothing, exactly]
  simp

end Targets

/-! ## Edits -/

namespace Part

/-- Edits that follow a list do what goes along with the list item by item. -/
theorem editAll_map {Item : Type} {toEdit : Item → Edit} {result : Part → List Item → Part}
    (start : ∀ part, result part [] = part)
    (step : ∀ part item items,
      result part (item :: items) = result (part.edit (toEdit item)) items)
    (part : Part) (items : List Item) :
    part.editAll (items.map toEdit) = result part items := by
  induction items generalizing part with
  | nil => exact (start part).symm
  | cons item others inductionHypothesis =>
      rw [step]
      exact inductionHypothesis (part.edit (toEdit item))

theorem editAll_enable : ∀ (part : Part) (styles : List Attribute),
    part.editAll (styles.map .enable) =
      { part with enable := FirstSeen.addAll part.enable styles } :=
  editAll_map (fun _ => rfl) fun _ _ _ => rfl

theorem editAll_disable : ∀ (part : Part) (styles : List Attribute),
    part.editAll (styles.map .disable) =
      { part with disable := FirstSeen.addAll part.disable styles } :=
  editAll_map (fun _ => rfl) fun _ _ _ => rfl

theorem editAll_keep : ∀ (part : Part) (targets : List Target),
    part.editAll (targets.map fun target => .keep target.group) =
      { part with keep := part.keep.join targets } :=
  editAll_map (fun _ => rfl) fun _ _ _ => rfl

end Part

namespace Sheet

open Lexeme Phrase Reader

/-- What the word of a reset entry stands for. -/
def ResetEntry.operand : ResetEntry → Operand
  | target member => .targets member.group
  | style single => .style single

theorem editAll_reset : ∀ (part : Part) (entries : List ResetEntry),
    part.editAll (entries.map fun entry => .reset entry.operand) =
      { part with
        reset := part.reset.join (entries.filterMap ResetEntry.target?)
        resetAttributes :=
          FirstSeen.addAll part.resetAttributes (entries.filterMap ResetEntry.style?) } := by
  apply Part.editAll_map
  · exact fun _ => rfl
  · intro part entry entries
    cases entry <;> rfl

/-! ## Reports without notices -/

theorem Reported.flatMap_cons {Source Result : Type} {item : Source} {items : List Source}
    {read : Source → Reported (List Result)} {results more : List Result}
    (first : read item = ⟨results, []⟩)
    (others : Reported.flatMap items read = ⟨more, []⟩) :
    Reported.flatMap (item :: items) read = ⟨results ++ more, []⟩ := by
  obtain ⟨found, quiet⟩ := Reported.mk.inj others
  rw [Reported.flatMap, List.flatMap_cons, List.flatMap_cons, found, quiet, first,
    List.nil_append]

/-! ## Words -/

section Words

variable {Item Result : Type} {words : Item → List Text} {value : Item → Result}
variable {ofWord : Text → Except ValueError Result} {context property front : Text}

/-- A written list is read word by word, and each word gives its edit. -/
theorem WritesNames.readWords {items : List Item} {lexemes : List Lexeme}
    (written : WritesNames words items lexemes)
    (isWord : ∀ {item text}, text ∈ words item → IsWord text)
    (names : ∀ {item text}, text ∈ words item → ofWord text = .ok (value item))
    (series : Series OfLexeme front lexemes []) (bare : IsBareText front)
    (edit : Result → Edit) :
    Sheet.readWords context property front ofWord edit =
      ⟨items.map fun item => edit (value item), []⟩ := by
  obtain ⟨texts, named, listed⟩ := written
  have areWords : ∀ text ∈ texts, IsWord text :=
    forall_right_of_forall₂ (fun _ _ _ => isWord) named
  rw [Sheet.readWords, listed.whole?_words areWords series bare]
  clear listed areWords series
  induction named with
  | nil => rfl
  | @cons item text _ _ member others inductionHypothesis =>
      have first : readWord context property ofWord edit text = ⟨[edit (value item)], []⟩ := by
        rw [readWord, names member]
      exact Reported.flatMap_cons first inductionHypothesis

end Words

theorem ofWord_attribute {style : Attribute} {text : Text} (member : text ∈ style.words) :
    Attribute.ofWord text = .ok style := by
  have each : ∀ style ∈ Attribute.all, ∀ text ∈ style.words,
      Attribute.ofWord text = .ok style := by
    decide
  exact each style style.mem_all text member

theorem ofWord_target {target : Target} {text : Text} (member : text ∈ [target.word]) :
    Targets.ofWord text = .ok target.group := by
  rw [List.mem_singleton.mp member]
  cases target <;> rfl

theorem ofWord_resetEntry {entry : ResetEntry} {text : Text} (member : text ∈ entry.words) :
    Operand.ofWord text = .ok entry.operand := by
  cases entry with
  | target target =>
      rw [Operand.ofWord, ofWord_target member]
      rfl
  | style single =>
      have each : ∀ style ∈ Attribute.all, ∀ text ∈ style.words,
          Operand.ofWord text = .ok (.style style) := by
        decide
      exact each single single.mem_all text member

/-! ## Parts on the way -/

/-- A part cut down to some of its properties. -/
def restrict (part : Part) (properties : List Property) : Part where
  fg := if .fg ∈ properties then part.fg else none
  bg := if .bg ∈ properties then part.bg else none
  enable := if .enable ∈ properties then part.enable else []
  disable := if .disable ∈ properties then part.disable else []
  reset := if .reset ∈ properties then part.reset else Targets.none
  resetAttributes := if .reset ∈ properties then part.resetAttributes else []
  keep := if .keep ∈ properties then part.keep else Targets.none

theorem restrict_nil (part : Part) : restrict part [] = Part.empty := rfl

/-- A part is the part cut down to the properties that it gives. -/
theorem restrict_of_gives {part : Part} {properties : List Property}
    (exactly : ∀ property, property ∈ properties ↔ Gives part property) :
    restrict part properties = part := by
  obtain ⟨fg, bg, enable, disable, reset, resetAttributes, keep⟩ := part
  simp only [restrict, exactly, Gives, Part.mk.injEq, ite_eq_left_iff]
  refine ⟨?_, ?_, ?_, ?_, ?_, ?_, ?_⟩
  all_goals intro absent; simp_all

/-- Reading the value of a property gives edits that add the property. -/
theorem WritesValue.read {part : Part} {property : Property} {value : List Lexeme}
    (written : WritesValue part property value) (unrepeated : Unrepeated part)
    {front : Text} (series : Series OfLexeme front value []) (bare : IsBareText front)
    (context : Text) :
    ∃ edits, readProperty context front property = ⟨edits, []⟩ ∧
      ∀ done, property ∉ done →
        (restrict part done).editAll edits = restrict part (done ++ [property]) := by
  cases written with
  | @fg color _ given written =>
      refine ⟨[.fg color], ?_, ?_⟩
      · rw [readProperty, readColor, written.whole?_color series bare]
      · intro done fresh
        simp [restrict, Part.editAll, Part.edit, fresh, given]
  | @bg color _ given written =>
      refine ⟨[.bg color], ?_, ?_⟩
      · rw [readProperty, readColor, written.whole?_color series bare]
      · intro done fresh
        simp [restrict, Part.editAll, Part.edit, fresh, given]
  | enable named =>
      refine ⟨part.enable.map .enable, ?_, ?_⟩
      · exact named.readWords isWord_attribute ofWord_attribute series bare .enable
      · intro done fresh
        rw [Part.editAll_enable]
        simp [restrict, fresh, FirstSeen.addAll_of_nodup unrepeated.enable]
  | disable named =>
      refine ⟨part.disable.map .disable, ?_, ?_⟩
      · exact named.readWords isWord_attribute ofWord_attribute series bare .disable
      · intro done fresh
        rw [Part.editAll_disable]
        simp [restrict, fresh, FirstSeen.addAll_of_nodup unrepeated.disable]
  | @reset entries _ styles targets named =>
      refine ⟨entries.map fun entry => .reset entry.operand, ?_, ?_⟩
      · exact named.readWords isWord_resetEntry ofWord_resetEntry series bare .reset
      · intro done fresh
        rw [editAll_reset, styles]
        simp [restrict, fresh, FirstSeen.addAll_of_nodup unrepeated.resetAttributes,
          Targets.join_none targets]
  | @keep targets _ exactly named =>
      refine ⟨targets.map fun target => .keep target.group, ?_, ?_⟩
      · have isWord : ∀ {target : Target} {text}, text ∈ [target.word] → IsWord text :=
          fun member => List.mem_singleton.mp member ▸ isWord_target _
        exact named.readWords isWord ofWord_target series bare .keep
      · intro done fresh
        rw [Part.editAll_keep]
        simp [restrict, fresh, Targets.join_none exactly]

/-! ## Declarations -/

theorem ofName?_name (property : Property) : Property.ofName? property.name = some property := by
  cases property <;> rfl

theorem readDeclarations_append (context : Text) (front back : List Declaration) :
    readDeclarations context (front ++ back) =
      ⟨(readDeclarations context front).result ++ (readDeclarations context back).result,
        (readDeclarations context front).notices ++ (readDeclarations context back).notices⟩ := by
  simp only [readDeclarations, Reported.flatMap, List.flatMap_append]

/-- Some declarations are read without notice, and they add some properties of a
part to what is there of it. -/
def Adds (context : Text) (part : Part) (properties : List Property)
    (declarations : List Declaration) : Prop :=
  ∃ edits, readDeclarations context declarations = ⟨edits, []⟩ ∧
    ∀ done, (done ++ properties).Nodup →
      (restrict part done).editAll edits = restrict part (done ++ properties)

theorem Adds.nil {context : Text} {part : Part} : Adds context part [] [] := by
  refine ⟨[], rfl, fun done _ => ?_⟩
  rw [List.append_nil]
  rfl

theorem Adds.append {context : Text} {part : Part} {properties others : List Property}
    {front back : List Declaration} (first : Adds context part properties front)
    (second : Adds context part others back) :
    Adds context part (properties ++ others) (front ++ back) := by
  obtain ⟨edits, read, adds⟩ := first
  obtain ⟨more, readMore, addsMore⟩ := second
  refine ⟨edits ++ more, by rw [readDeclarations_append, read, readMore]; rfl, ?_⟩
  intro done nodup
  rw [← List.append_assoc] at nodup ⊢
  have fresh : (done ++ properties).Nodup := (List.nodup_append.mp nodup).1
  calc (restrict part done).editAll (edits ++ more)
      = ((restrict part done).editAll edits).editAll more := List.foldl_append
    _ = (restrict part (done ++ properties)).editAll more := by rw [adds done fresh]
    _ = restrict part (done ++ properties ++ others) := addsMore _ nodup

/-- A written property is a declaration that adds it. -/
theorem WritesValue.yields {part : Part} {property : Property} {value : List Lexeme}
    (written : WritesValue part property value) (unrepeated : Unrepeated part)
    (context : Text) :
    Yields OfDeclaration (fun declaration => Adds context part [property] [declaration])
      (assign property.name value) := by
  have declares := (yields_assigned written.allBare written.ne_nil).declaration
    (isWord_property property)
  apply declares.imp
  rintro ⟨name, _⟩ ⟨rfl, front, rfl, series, bare⟩
  obtain ⟨edits, read, adds⟩ := written.read unrepeated series bare context
  refine ⟨edits, ?_, ?_⟩
  · rw [readDeclarations, Reported.flatMap]
    simp [readDeclaration, ofName?_name, read]
  · intro done nodup
    apply adds done
    intro member
    exact (List.nodup_append.mp nodup).2.2 property member property List.mem_cons_self rfl

/-- Written properties are declarations that add them. -/
theorem WritesDeclarations.yields {part : Part} {properties : List Property}
    {lexemes : List Lexeme} (written : WritesDeclarations part properties lexemes)
    (unrepeated : Unrepeated part) (context : Text) :
    YieldsSeries OfDeclaration (Adds context part properties) lexemes := by
  induction written with
  | nil => exact .nil .nil
  | cons value others inductionHypothesis =>
      have first := (value.yields unrepeated context).single fun _ => id
      exact first.append inductionHypothesis fun _ _ => Adds.append

/-- Some declarations are read without notice, and they make a part. -/
def Makes (context : Text) (part : Part) (declarations : List Declaration) : Prop :=
  ∃ edits, readDeclarations context declarations = ⟨edits, []⟩ ∧
    Part.empty.editAll edits = part

/-- What is written for a part are declarations that make it. -/
theorem WritesPart.yields {part : Part} {lexemes : List Lexeme}
    (written : WritesPart part lexemes) (unrepeated : Unrepeated part) (context : Text) :
    YieldsSeries OfDeclaration (Makes context part) lexemes := by
  obtain ⟨properties, nodup, exactly, listed⟩ := written
  apply (listed.yields unrepeated context).imp
  rintro declarations ⟨edits, read, adds⟩
  have made := adds [] nodup
  rw [restrict_nil, List.nil_append, restrict_of_gives exactly] at made
  exact ⟨edits, read, made⟩

end Sheet

end TerminalMarkup
