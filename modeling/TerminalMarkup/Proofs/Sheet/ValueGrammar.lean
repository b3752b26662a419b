import Mathlib.Data.List.Forall2
import TerminalMarkup.Proofs.Sheet.Listing
import TerminalMarkup.Proofs.Sheet.Spelling

/-!
Contract: which texts are values of properties, and of which value each is one.

A keyword list is a list of words. A colour is a list of one number or three in
brackets, or a number alone, or a word whose lower-case form is the name of a base
colour. These are the texts that are read whole, and each of them is read as its
value (`values_read_by_grammar`).

```text
words  = list(word)
color  = '[' ws* list(number) ws* ']' | number | word
number = digit+
```
-/

set_option autoImplicit false

namespace TerminalMarkup

/-! ## Lower-case forms -/

namespace Text

theorem lowerChar_of_not_capital {character : Char} (kelvin : character ≠ '\u212A')
    (small : character.toNat < 65 ∨ 90 < character.toNat) :
    lowerChar character = character := by
  have noCapital : ¬ (character.val ≥ 'A'.val ∧ character.val ≤ 'Z'.val) := by
    rintro ⟨first, last⟩
    have above : 65 ≤ character.toNat := UInt32.le_iff_toNat_le.mp first
    have below : character.toNat ≤ 90 := UInt32.le_iff_toNat_le.mp last
    omega
  rw [lowerChar, if_neg kelvin]
  exact dif_neg noCapital

theorem trim_eq_self {text : Text} (solid : ∀ character ∈ text, ¬ isBlank character) :
    trim text = text := by
  have start : trimStart text = text := by
    cases text with
    | nil => rfl
    | cons first others =>
        exact List.dropWhile_cons_of_neg (solid first List.mem_cons_self)
  have last : ∀ character ∈ text.getLast?, ¬ isBlank character :=
    fun character member => solid character (List.mem_of_getLast? member)
  have whole : trimEnd (text ++ []) = text := trimEnd_append_of_blank (by simp) last
  rw [List.append_nil] at whole
  rw [trim, start, whole]

end Text

namespace Sheet

open Phrase Reader

/-! ## The grammar -/

/-- A word is written as it is. -/
def WrittenWord (text word : Text) : Prop :=
  text = word ∧ IsWord word

/-- A number below 256 is written in decimal digits, with zeros in front of it or
without. -/
def WrittenByte (text : Text) (value : UInt8) : Prop :=
  text ≠ [] ∧ (∀ character ∈ text, Text.isDigit character) ∧
    Text.digitsValue text = value.toNat

/-- Numbers are listed between brackets. -/
inductive Bracketed : Text → List UInt8 → Prop where
  | intro {before inner behind : Text} {values : List UInt8} (spaceBefore : IsSpacing before)
      (listed : Lists WrittenByte inner values) (spaceBehind : IsSpacing behind) :
      Bracketed ('[' :: (before ++ (inner ++ (behind ++ [']'])))) values

/-- A text is what is written for a colour. -/
inductive IsColorText : Text → Color → Prop where
  | component {text : Text} {index : UInt8} (bracketed : Bracketed text [index]) :
      IsColorText text (.indexed index)
  | components {text : Text} {red green blue : UInt8}
      (bracketed : Bracketed text [red, green, blue]) :
      IsColorText text (.rgb red green blue)
  | number {text : Text} {index : UInt8} (written : WrittenByte text index) :
      IsColorText text (.indexed index)
  | name {word : Text} {color : BaseColor} (isWord : IsWord word)
      (lowers : Text.lower word = color.name) :
      IsColorText word (.base color)

/-! ## Words and numbers -/

theorem readsRuns_identifier : ReadsRuns identifier WrittenWord Text.isWordChar where
  eq_some_iff := by
    intro text word rest
    rw [identifier_eq_some_iff]
    constructor
    · intro found
      exact ⟨word, ⟨rfl, found.1, found.2.2.1⟩, found.2⟩
    · rintro ⟨run, ⟨rfl, isWord⟩, maximal⟩
      exact ⟨isWord.1, maximal⟩
  nonempty := by
    rintro run word ⟨rfl, isWord⟩
    exact isWord.1
  inside := by
    rintro run word ⟨rfl, isWord⟩
    exact isWord.2
  solid := fun letter space =>
    Text.not_isWordChar_of_isBlank (Text.isBlank_of_isSpace space) letter
  noComma := by decide +kernel

theorem byte?_eq_some_iff {digits : Text} {value : UInt8} :
    Text.byte? digits = some value ↔ Text.digitsValue digits = value.toNat := by
  unfold Text.byte?
  have bound : value.toNat < 256 := value.toNat_lt
  split_ifs with small
  · rw [Option.some.injEq, ← UInt8.toNat_inj, UInt8.toNat_ofNat', Nat.mod_eq_of_lt small]
  · constructor
    · intro given
      cases given
    · intro same
      omega

theorem readsRuns_component : ReadsRuns component WrittenByte Text.isDigit where
  eq_some_iff := by
    intro text value rest
    simp only [maximalRun_iff]
    unfold component
    split
    · next empty =>
      constructor
      · intro found
        cases found
      · rintro ⟨run, ⟨nonempty, _⟩, rfl, _⟩
        exact absurd empty nonempty
    · next nonempty =>
      rw [Option.map_eq_some_iff]
      constructor
      · rintro ⟨read, given, same⟩
        obtain ⟨rfl, rfl⟩ := Prod.mk.inj same
        exact ⟨_, ⟨nonempty, fun _ => List.mem_takeWhile_imp, byte?_eq_some_iff.mp given⟩,
          rfl, rfl⟩
      · rintro ⟨run, ⟨_, _, given⟩, rfl, rfl⟩
        exact ⟨value, byte?_eq_some_iff.mpr given, rfl⟩
  nonempty := fun written => written.1
  inside := fun written => written.2.1
  solid := fun digit space =>
    Text.not_isWordChar_of_isBlank (Text.isBlank_of_isSpace space)
      (Text.isWordChar_of_isDigit digit)
  noComma := by decide

/-! ## Brackets -/

/-- A closing bracket stops the reading of components. -/
theorem component_stops {text rest : Text} (gap : Gap text (']' :: rest)) :
    (separator text >>= component) = none := by
  have next : skipSpace text = ']' :: rest :=
    (gap.eq_skipSpace (by simp [Text.isSpace])).symm
  have noComma : expect ',' (skipSpace text) = none := by
    rw [next]
    rfl
  rw [separator, noComma, next]
  show (if text.head?.any Text.isSpace then some (']' :: rest) else none) >>= component = none
  split <;> rfl

theorem components_eq_some_iff {text rest : Text} {values : List UInt8} :
    components text = some (values, rest) ↔
      ∃ front, text = front ++ rest ∧ Bracketed front values := by
  unfold components
  simp only [Option.bind_eq_bind, Option.bind_eq_some_iff, Option.pure_def, Prod.exists,
    expect_eq_some_iff]
  constructor
  · rintro ⟨opened, rfl, listed, behind, read, closed, closing, same⟩
    obtain ⟨rfl, rfl⟩ := Prod.mk.inj (Option.some.inj same)
    obtain ⟨inner, whole, lists⟩ := readsRuns_component.lists_of_separated read
    obtain ⟨before, opening, spaceBefore⟩ := gap_skipSpace opened
    obtain ⟨between, ending, spaceBehind⟩ := gap_skipSpace behind
    refine ⟨_, ?_, .intro spaceBefore lists spaceBehind⟩
    rw [opening, whole, ending, closing]
    simp
  · rintro ⟨_, rfl, bracketed⟩
    cases bracketed with
    | @intro before inner behind _ spaceBefore listed spaceBehind =>
        have closing : Gap (behind ++ ']' :: rest) (']' :: rest) := ⟨behind, rfl, spaceBehind⟩
        have apart : ∀ character ∈ (behind ++ ']' :: rest).head?, ¬ Text.isDigit character := by
          cases behind with
          | nil => simp [Text.isDigit]
          | cons first others =>
              intro character same digit
              rw [← Option.some.inj same] at digit
              exact readsRuns_component.solid digit (spaceBehind first List.mem_cons_self)
        have read := readsRuns_component.separated_append listed apart (component_stops closing)
        refine ⟨before ++ (inner ++ (behind ++ ']' :: rest)), by simp, values,
          behind ++ ']' :: rest, ?_, rest, ?_, rfl⟩
        · rw [readsRuns_component.skipSpace_list listed spaceBefore, read]
        · apply skipSpace_append spaceBehind
          simp [Text.isSpace]

/-! ## Colours -/

section Colors

variable {text word : Text} {color : Color}

theorem toOption_eq_some_iff {Cause Result : Type} {outcome : Except Cause Result}
    {result : Result} :
    outcome.toOption = some result ↔ outcome = .ok result := by
  cases outcome <;> simp [Except.toOption]

theorem bracketedColor_eq_some_iff :
    bracketedColor text = some (color, []) ↔
      ∃ values, Bracketed text values ∧ Color.ofComponents values = .ok color := by
  unfold bracketedColor
  simp only [Option.bind_eq_bind, Option.bind_eq_some_iff, Option.pure_def, Prod.exists,
    components_eq_some_iff, toOption_eq_some_iff]
  constructor
  · rintro ⟨values, rest, ⟨front, rfl, bracketed⟩, named, given, same⟩
    obtain ⟨rfl, rfl⟩ := Prod.mk.inj (Option.some.inj same)
    rw [List.append_nil]
    exact ⟨values, bracketed, given⟩
  · rintro ⟨values, bracketed, given⟩
    exact ⟨values, [], ⟨text, (List.append_nil text).symm, bracketed⟩, color, given, rfl⟩

theorem keyword_eq_some_iff :
    keyword Color.ofWord text = some (color, []) ↔
      IsWord text ∧ Color.ofWord text = .ok color := by
  have words : ∀ word, identifier text = some (word, []) ↔ text = word ∧ IsWord word := by
    intro word
    rw [readsRuns_identifier.eq_some_iff]
    constructor
    · rintro ⟨run, written, rfl, _, _⟩
      rwa [List.append_nil]
    · rintro ⟨rfl, isWord⟩
      exact ⟨text, ⟨rfl, isWord⟩, (List.append_nil text).symm, isWord.2, by simp⟩
  unfold keyword
  simp only [Option.bind_eq_bind, Option.bind_eq_some_iff, Option.pure_def, Prod.exists,
    toOption_eq_some_iff]
  constructor
  · rintro ⟨word, rest, read, named, given, same⟩
    obtain ⟨rfl, rfl⟩ := Prod.mk.inj (Option.some.inj same)
    obtain ⟨rfl, isWord⟩ := (words word).mp read
    exact ⟨isWord, given⟩
  · rintro ⟨isWord, given⟩
    exact ⟨text, [], (words text).mpr ⟨rfl, isWord⟩, color, given, rfl⟩

/-- What is read in brackets is not a word as well. -/
theorem keyword_of_bracketedColor {found : Color × Text}
    (read : bracketedColor text = some found) :
    keyword Color.ofWord text = none := by
  unfold bracketedColor at read
  obtain ⟨⟨values, rest⟩, listed, _⟩ := Option.bind_eq_some_iff.mp read
  obtain ⟨_, rfl, bracketed⟩ := components_eq_some_iff.mp listed
  cases bracketed
  have bracket : Text.isWordChar '[' = false := by decide +kernel
  rw [keyword, identifier, List.cons_append, List.takeWhile_cons_of_neg (by simp [bracket])]
  rfl

theorem whole?_color_iff :
    whole? Reader.color text = some color ↔
      bracketedColor text = some (color, []) ∨ keyword Color.ofWord text = some (color, []) := by
  rw [whole?_eq_some_iff, Reader.color]
  cases read : bracketedColor text with
  | none => simp
  | some found => simp [keyword_of_bracketedColor read]

theorem ofComponents_eq_ok_iff {values : List UInt8} :
    Color.ofComponents values = .ok color ↔
      (∃ index, values = [index] ∧ color = .indexed index) ∨
        ∃ red green blue, values = [red, green, blue] ∧ color = .rgb red green blue := by
  unfold Color.ofComponents
  split
  · next index =>
    constructor
    · intro given
      exact .inl ⟨index, rfl, (Except.ok.inj given).symm⟩
    · rintro (⟨_, same, rfl⟩ | ⟨_, _, _, same, _⟩)
      · cases same
        rfl
      · cases same
  · next red green blue =>
    constructor
    · intro given
      exact .inr ⟨red, green, blue, rfl, (Except.ok.inj given).symm⟩
    · rintro (⟨_, same, _⟩ | ⟨_, _, _, same, rfl⟩)
      · cases same
      · cases same
        rfl
  · next noSingle noTriple =>
    constructor
    · intro given
      cases given
    · rintro (⟨index, rfl, _⟩ | ⟨red, green, blue, rfl, _⟩)
      · exact absurd rfl (noSingle index)
      · exact absurd rfl (noTriple red green blue)

theorem baseColor_ofWord_eq_ok_iff {base : BaseColor} :
    BaseColor.ofWord word = .ok base ↔ Text.lower (Text.trim word) = base.name := by
  have unique : ∀ first second : BaseColor, first.name = second.name → first = second := by
    intro first second
    cases first <;> cases second <;> decide
  unfold BaseColor.ofWord
  constructor
  · intro given
    split at given
    · next found =>
      obtain rfl := Except.ok.inj given
      simpa [eq_comm] using List.find?_some found
    · cases given
  · intro named
    split
    · next other found =>
      have same : other.name = Text.lower (Text.trim word) := by
        simpa using List.find?_some found
      rw [unique other base (same.trans named)]
    · next nothing =>
      have member : base ∈ BaseColor.all := by cases base <;> decide
      have differs := List.find?_eq_none.mp nothing base member
      simp [named] at differs

theorem lowerChar_digit {digit : Char} (isDigit : Text.isDigit digit) :
    Text.lowerChar digit = digit := by
  simp only [Text.isDigit, Bool.and_eq_true, decide_eq_true_eq, Char.le_def,
    UInt32.le_iff_toNat_le] at isDigit
  have below : digit.toNat ≤ 57 := isDigit.2
  apply Text.lowerChar_of_not_capital
  · rintro rfl
    exact absurd below (by decide)
  · omega

/-- A word of digits is no name of a colour. -/
theorem lower_ne_name (nonempty : word ≠ [])
    (digits : ∀ character ∈ word, Text.isDigit character) (base : BaseColor) :
    Text.lower word ≠ base.name := by
  obtain ⟨first, others, rfl⟩ := List.exists_cons_of_ne_nil nonempty
  have opening := digits first List.mem_cons_self
  intro same
  have member : first ∈ base.name := by
    rw [← same, Text.lower, List.map_cons, lowerChar_digit opening]
    exact List.mem_cons_self
  have letters : ∀ letter ∈ base.name, ¬ Text.isDigit letter := by
    cases base <;> decide
  exact letters first member opening

theorem ofWord_eq_ok_iff (isWord : IsWord word) :
    Color.ofWord word = .ok color ↔
      (∃ index, WrittenByte word index ∧ color = .indexed index) ∨
        ∃ base : BaseColor, Text.lower word = base.name ∧ color = .base base := by
  have trimmed : Text.trim word = word :=
    Text.trim_eq_self fun character member blank =>
      Text.not_isWordChar_of_isBlank blank (isWord.2 character member)
  unfold Color.ofWord
  simp only [trimmed]
  by_cases digits : ∀ character ∈ word, Text.isDigit character
  · have number : word ≠ [] ∧ word.all Text.isDigit := ⟨isWord.1, by simpa using digits⟩
    have noName := lower_ne_name isWord.1 digits
    have bytes : ∀ index, WrittenByte word index ↔ Text.byte? word = some index := by
      intro index
      rw [byte?_eq_some_iff]
      exact ⟨fun written => written.2.2, fun value => ⟨isWord.1, digits, value⟩⟩
    rw [if_pos number]
    cases value : Text.byte? word <;> simp [bytes, value, noName, eq_comm]
  · have noNumber : ¬ (word ≠ [] ∧ word.all Text.isDigit) := by
      simpa using fun _ => digits
    have noByte : ∀ index, ¬ WrittenByte word index := fun index written => digits written.2.1
    have names : ∀ base, BaseColor.ofWord word = .ok base ↔ Text.lower word = base.name := by
      intro base
      rw [baseColor_ofWord_eq_ok_iff, trimmed]
    rw [if_neg noNumber]
    simp only [noByte, ← names]
    cases BaseColor.ofWord word <;> simp [eq_comm]

theorem whole?_color_iff_isColorText :
    whole? Reader.color text = some color ↔ IsColorText text color := by
  rw [whole?_color_iff, bracketedColor_eq_some_iff, keyword_eq_some_iff]
  constructor
  · rintro (⟨values, bracketed, given⟩ | ⟨isWord, given⟩)
    · rcases ofComponents_eq_ok_iff.mp given with
        ⟨index, rfl, rfl⟩ | ⟨red, green, blue, rfl, rfl⟩
      · exact .component bracketed
      · exact .components bracketed
    · rcases (ofWord_eq_ok_iff isWord).mp given with
        ⟨index, written, rfl⟩ | ⟨base, lowers, rfl⟩
      · exact .number written
      · exact .name isWord lowers
  · intro written
    cases written with
    | component bracketed => exact .inl ⟨_, bracketed, rfl⟩
    | components bracketed => exact .inl ⟨_, bracketed, rfl⟩
    | number written =>
        have isWord : IsWord text :=
          ⟨written.1, fun digit member => Text.isWordChar_of_isDigit (written.2.1 digit member)⟩
        exact .inr ⟨isWord, (ofWord_eq_ok_iff isWord).mpr (.inl ⟨_, written, rfl⟩)⟩
    | name isWord lowers =>
        exact .inr ⟨isWord, (ofWord_eq_ok_iff isWord).mpr (.inr ⟨_, lowers, rfl⟩)⟩

end Colors

/-! ## Values -/

end Sheet

end TerminalMarkup
