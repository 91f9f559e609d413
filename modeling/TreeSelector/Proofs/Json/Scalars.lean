import TreeSelector.Json.Parser
import TreeSelector.Json.Printer
import TreeSelector.Proofs.Text.Escapes

/-!
# Strings and numbers read back

What is written for a string or an integer is read back to it, with the rest of the text left.
A number ends where no digit, point or exponent follows, which is so in front of
every character that can follow a value in a compact text.
-/

namespace TreeSelector.Json.Reader

section Strings

/-- The code of a control character, read from the digits it is written with. -/
theorem natural?_hexPair : ∀ code < 32,
    Text.Radix.natural? 16 ('0' :: '0' :: Text.Escape.hexPair code) = some code := by
  decide +kernel

theorem escape_hexPair {char : Char} (control : char.toNat < 32) (rest : List Char) :
    escape ('u' :: '0' :: '0' :: (Text.Escape.hexPair char.toNat ++ rest)) = some (char, rest) := by
  have code := natural?_hexPair char.toNat control
  have named : Text.Escape.scalar? char.toNat = some char :=
    Text.Escape.scalar?_eq_some_iff.mpr rfl
  have whole : isHighSurrogate char.toNat = false := by
    simp only [isHighSurrogate, Bool.and_eq_false_iff, decide_eq_false_iff_not]
    omega
  simp only [Text.Escape.hexPair] at code
  simp [escape, unicodeEscape, hexUnit, Text.Escape.hexPair, code, whole, named]

variable {char : Char} {source chars rest : List Char} {fuel : Nat}

/-- A character is written as a backslash with a letter, as its code, or as itself. -/
theorem encodeChar_cases (char : Char) :
    (∃ letter, encodeChar char = ['\\', letter] ∧
      ∀ rest, escape (letter :: rest) = some (char, rest)) ∨
    (char.toNat < 32 ∧
      encodeChar char = '\\' :: 'u' :: '0' :: '0' :: Text.Escape.hexPair char.toNat) ∨
    (char ≠ '"' ∧ char ≠ '\\' ∧ ¬ char.toNat < 32 ∧ encodeChar char = [char]) := by
  unfold encodeChar
  iterate 7
    split
    · rename_i same
      subst same
      exact .inl ⟨_, rfl, fun _ => rfl⟩
  split
  · rename_i control
    exact .inr (.inl ⟨control, rfl⟩)
  · rename_i quoted escaped _ _ _ _ _ control
    exact .inr (.inr ⟨quoted, escaped, control, rfl⟩)

theorem encodeChar_ne_nil (char : Char) : encodeChar char ≠ [] := by
  obtain ⟨_, same, _⟩ | ⟨_, same⟩ | ⟨_, _, _, same⟩ := encodeChar_cases char
  all_goals exact same ▸ List.cons_ne_nil _ _

/-- What is written for a character reads back to it. -/
theorem stringRest_encodeChar (later : stringRest fuel source = some (chars, rest)) :
    stringRest (fuel + 1) (encodeChar char ++ source) = some (char :: chars, rest) := by
  obtain ⟨letter, same, read⟩ | ⟨control, same⟩ | ⟨quoted, escaped, control, same⟩ :=
    encodeChar_cases char
  · simp [same, stringRest, read source, later]
  · simp [same, stringRest, escape_hexPair control source, later]
  · simp [same, stringRest, quoted, escaped, control, later]

theorem stringRest_encodeString (enough : chars.length < fuel) :
    stringRest fuel (chars.flatMap encodeChar ++ '"' :: rest) = some (chars, rest) := by
  induction chars generalizing fuel with
  | nil =>
      obtain ⟨fewer, rfl⟩ : ∃ fewer, fuel = fewer + 1 := ⟨fuel - 1, by omega⟩
      rfl
  | cons char chars hypothesis =>
      obtain ⟨fewer, rfl⟩ : ∃ fewer, fuel = fewer + 1 := ⟨fuel - 1, by omega⟩
      rw [List.flatMap_cons, List.append_assoc]
      exact stringRest_encodeChar (hypothesis (Nat.lt_of_succ_lt_succ enough))

theorem length_le_encodeString (chars : List Char) :
    chars.length ≤ (chars.flatMap encodeChar).length := by
  induction chars with
  | nil => exact Nat.le_refl _
  | cons char chars hypothesis =>
      have here := List.length_pos_iff.mpr (encodeChar_ne_nil char)
      rw [List.flatMap_cons, List.length_append, List.length_cons]
      omega

/-- A string is read back from its quoted text. -/
theorem string_encodeString (text : String) (rest : List Char) :
    string (encodeString text ++ rest) = some (text, rest) := by
  have enough := length_le_encodeString text.toList
  simp only [encodeString, List.cons_append, List.append_assoc, List.nil_append, string]
  rw [stringRest_encodeString (by simp only [List.length_append]; omega)]
  simp

end Strings

section Numbers

/-- What comes behind a value in a compact text: nothing, another value, or the end of the
container. -/
def EndsPiece (rest : List Char) : Prop :=
  ∀ char ∈ rest.head?, char = ',' ∨ char = ']' ∨ char = '\x7d'

theorem EndsPiece.comma (rest : List Char) : EndsPiece (',' :: rest) := by
  simp [EndsPiece]

variable {rest : List Char}

theorem EndsPiece.not_isDigit (ends : EndsPiece rest) :
    ∀ char ∈ rest.head?, char.isDigit = false := by
  intro char next
  rcases ends char next with rfl | rfl | rfl <;> rfl

theorem digits_of_isDigit {chars : List Char} (some : chars ≠ [])
    (all : ∀ char ∈ chars, char.isDigit = true) (ends : EndsPiece rest) :
    digits (chars ++ rest) = .some (chars, rest) := by
  obtain ⟨taken, left⟩ := Text.takeWhile_append_of_ends all ends.not_isDigit
  simp [digits, taken, left, some]

theorem wholePart_naturalText (value : Nat) (ends : EndsPiece rest) :
    wholePart (Text.Radix.naturalText 10 value ++ rest) =
      some (Text.Radix.naturalText 10 value, rest) := by
  have read := digits_of_isDigit (Text.Radix.naturalText_ne_nil value)
    Text.Radix.isDigit_of_mem_naturalText ends
  rcases Nat.eq_zero_or_pos value with rfl | positive
  · rw [Text.Radix.naturalText_zero (by decide)]
    rfl
  · have leading := Text.Radix.naturalText_head?_ne_zero (by decide : 2 ≤ 10) (by decide) positive
    unfold wholePart
    split
    · rename_i split
      obtain ⟨char, chars, text, _⟩ := Text.Radix.exists_naturalText_cons value
      rw [text] at split leading
      exact absurd (congrArg some (List.cons.inj split).1) leading
    · exact read

theorem fraction_of_endsPiece (ends : EndsPiece rest) : fraction rest = some ([], rest) := by
  cases rest with
  | nil => rfl
  | cons char rest => rcases ends char rfl with rfl | rfl | rfl <;> rfl

theorem exponent_of_endsPiece (ends : EndsPiece rest) : exponent rest = some ([], rest) := by
  cases rest with
  | nil => rfl
  | cons char rest => rcases ends char rfl with rfl | rfl | rfl <;> rfl

theorem numberOf_naturalText {negative : Bool} {magnitude : Nat}
    (sign : negative = true → magnitude ≠ 0) :
    numberOf negative (Text.Radix.naturalText 10 magnitude) [] [] =
      .integer (if negative then -(magnitude : Int) else magnitude) := by
  have read := Text.Radix.natural?_naturalText (by decide : 2 ≤ 10) (by decide) magnitude
  cases negative with
  | false => simp [numberOf, read]
  | true => simp [numberOf, read, sign rfl]

theorem number_of_not_minus {char : Char} (other : char ≠ '-') (source : List Char) :
    number (char :: source) = (do
      let (whole, rest) ← wholePart (char :: source)
      let (fraction, rest) ← fraction rest
      let (exponent, rest) ← exponent rest
      return (numberOf false whole fraction exponent, rest)) := by
  unfold number
  split
  rename_i split
  split at split
  · rename_i same
    exact absurd (List.cons.inj same).1 other
  · cases split
    rfl

/-- An integer is read back from its decimal text. -/
theorem number_integerText (value : Int) (ends : EndsPiece rest) :
    number (Text.Radix.integerText 10 value ++ rest) = some (.integer value, rest) := by
  have whole := wholePart_naturalText value.natAbs ends
  rcases Int.lt_or_le value 0 with negative | positive
  · have same : -(value.natAbs : Int) = value := by omega
    have read := numberOf_naturalText (fun _ => by omega : true = true → value.natAbs ≠ 0)
    rw [if_pos rfl, same] at read
    simp only [number, Text.Radix.integerText, if_pos negative, List.cons_append, whole,
      fraction_of_endsPiece ends, exponent_of_endsPiece ends, read, Option.bind_eq_bind,
      Option.bind_some, Option.pure_def]
  · have same : (value.natAbs : Int) = value := by omega
    have read := numberOf_naturalText (fun no => nomatch no : false = true → value.natAbs ≠ 0)
    rw [if_neg Bool.false_ne_true, same] at read
    rw [Text.Radix.integerText, if_neg (by omega)]
    obtain ⟨char, chars, text, digit⟩ := Text.Radix.exists_naturalText_cons value.natAbs
    have other : char ≠ '-' := by
      rintro rfl
      cases digit
    rw [text] at whole read
    rw [text, List.cons_append, number_of_not_minus other, ← List.cons_append, whole]
    simp only [fraction_of_endsPiece ends, exponent_of_endsPiece ends, read, Option.bind_eq_bind,
      Option.bind_some, Option.pure_def]

end Numbers

end TreeSelector.Json.Reader
