import TerminalMarkup.Text.Basic

/-!
Contract: the places in the bytes of a text where characters begin.

Texts are compared as lists of characters, and places are counted in bytes.
The bytes of a text that is not empty can begin only where a character begins,
so a search among the bytes finds the same places as a search among the
characters. `encode_prefix_drop_iff` says this.
-/

set_option autoImplicit false

namespace TerminalMarkup.Text

/-- Whether a number of bytes is that of some leading characters of a text. -/
def IsBoundary (text : Text) (position : Nat) : Prop :=
  ∃ front back, text = front ++ back ∧ byteCount front = position

@[simp]
theorem encode_nil : encode [] = [] := rfl

theorem encode_cons (character : Char) (rest : Text) :
    encode (character :: rest) = String.utf8EncodeChar character ++ encode rest := rfl

@[simp]
theorem length_encode (text : Text) : (encode text).length = byteCount text := by
  induction text with
  | nil => rfl
  | cons character rest inductionHypothesis =>
      rw [encode_cons, List.length_append, inductionHypothesis, byteCount_cons,
        String.length_utf8EncodeChar]

@[simp]
theorem encode_eq_nil_iff {text : Text} : encode text = [] ↔ text = [] := by
  cases text with
  | nil => simp
  | cons character rest => simp [encode_cons]

theorem byteCount_pos {text : Text} (nonempty : text ≠ []) : 0 < byteCount text := by
  rw [← length_encode]
  exact List.length_pos_iff.mpr (by simpa using nonempty)

/-! ## Prefixes -/

theorem prefix_of_encode_prefix {pattern text : Text}
    (encoded : encode pattern <+: encode text) :
    pattern <+: text := by
  obtain ⟨rest, same⟩ := encoded
  apply List.isPrefix_of_utf8Encode_append_eq_utf8Encode rest.toByteArray
  unfold List.utf8Encode
  rw [← List.toByteArray_append]
  exact congrArg List.toByteArray same

theorem encode_prefix_iff {pattern text : Text} :
    encode pattern <+: encode text ↔ pattern <+: text := by
  constructor
  · exact prefix_of_encode_prefix
  · rintro ⟨rest, rfl⟩
    exact ⟨encode rest, (encode_append pattern rest).symm⟩

theorem encode_injective {first second : Text} (same : encode first = encode second) :
    first = second := by
  have front : first <+: second := prefix_of_encode_prefix (same ▸ List.prefix_rfl)
  have back : second <+: first := prefix_of_encode_prefix (same ▸ List.prefix_rfl)
  exact front.eq_of_length_le back.length_le

/-- Behind the bytes of its leading characters stand the bytes of the other
characters of a text. -/
theorem drop_byteCount_encode (front back : Text) (count : Nat) :
    (encode (front ++ back)).drop (byteCount front + count) = (encode back).drop count := by
  rw [encode_append, ← length_encode, ← List.drop_drop, List.drop_left]

/-- The bytes between those of a text in front and those of a text behind. -/
theorem drop_take_encode (front lead back : Text) :
    ((encode (front ++ (lead ++ back))).take (byteCount front + byteCount lead)).drop
        (byteCount front) = encode lead := by
  rw [List.drop_take, Nat.add_sub_cancel_left, ← Nat.add_zero (byteCount front),
    drop_byteCount_encode, List.drop_zero, encode_append, ← length_encode, List.take_left]

/-! ## First bytes -/

/-- The first byte of a text can open the encoding of a character. -/
theorem isUTF8FirstByte_of_getElem?_zero {text : Text} {first : UInt8}
    (found : (encode text)[0]? = some first) :
    first.IsUTF8FirstByte := by
  cases text with
  | nil => simp at found
  | cons character rest =>
      have positive : 0 < (String.utf8EncodeChar character).length := by
        rw [String.length_utf8EncodeChar]
        exact character.utf8Size_pos
      rw [encode_cons, List.getElem?_append_left positive, List.getElem?_eq_getElem positive]
        at found
      rw [← Option.some.inj found]
      exact UInt8.isUTF8FirstByte_getElem_utf8EncodeChar.mpr rfl

/-- A byte of a text that can open the encoding of a character stands at a
boundary. -/
theorem boundary_of_isUTF8FirstByte {text : Text} {position : Nat} {first : UInt8}
    (found : (encode text)[position]? = some first) (opening : first.IsUTF8FirstByte) :
    text.IsBoundary position := by
  induction text generalizing position with
  | nil => simp at found
  | cons character rest inductionHypothesis =>
      rw [encode_cons] at found
      by_cases inside : position < (String.utf8EncodeChar character).length
      · rw [List.getElem?_append_left inside, List.getElem?_eq_getElem inside] at found
        rw [← Option.some.inj found, UInt8.isUTF8FirstByte_getElem_utf8EncodeChar] at opening
        exact ⟨[], character :: rest, rfl, opening.symm⟩
      · rw [List.getElem?_append_right (by omega)] at found
        obtain ⟨front, back, same, count⟩ := inductionHypothesis found
        refine ⟨character :: front, back, by rw [same, List.cons_append], ?_⟩
        rw [String.length_utf8EncodeChar] at count inside
        rw [byteCount_cons, count]
        omega

/-- The bytes of a pattern that is not empty occur in those of a text only
where the pattern occurs in the text. -/
theorem encode_prefix_drop_iff {pattern text : Text} (nonempty : pattern ≠ [])
    (position : Nat) :
    encode pattern <+: (encode text).drop position ↔
      ∃ front back, text = front ++ back ∧ byteCount front = position ∧
        pattern <+: back := by
  constructor
  · intro occurs
    obtain ⟨first, opens⟩ : ∃ first, (encode pattern)[0]? = some first := by
      rw [← Option.isSome_iff_exists]
      simpa using byteCount_pos nonempty
    have stands : (encode text)[position]? = some first := by
      obtain ⟨rest, same⟩ := occurs
      have begins : ((encode text).drop position)[0]? = some first := by
        rw [← same, List.getElem?_append_left (by simpa using byteCount_pos nonempty), opens]
      simpa using begins
    obtain ⟨front, back, rfl, count⟩ :=
      boundary_of_isUTF8FirstByte stands (isUTF8FirstByte_of_getElem?_zero opens)
    refine ⟨front, back, rfl, count, ?_⟩
    rw [← count, ← Nat.add_zero (byteCount front), drop_byteCount_encode] at occurs
    exact prefix_of_encode_prefix occurs
  · rintro ⟨front, back, rfl, rfl, occurs⟩
    rw [← Nat.add_zero (byteCount front), drop_byteCount_encode]
    exact encode_prefix_iff.mpr occurs

end TerminalMarkup.Text
