import Mathlib.Data.List.TakeWhile
import TreeSelector.Grammar.Token
import TreeSelector.Proofs.Text.Numerals
import TreeSelector.Text.Escape

/-!
# Tokens cut off canonical text

Each scanner cuts its token off a text that begins with the token, provided that what
follows would not continue it, and refuses texts that begin with another token.
-/

namespace TreeSelector.Grammar.Token

section Words

/-- The characters of a name. -/
def IsName (chars : List Char) : Prop :=
  ∃ first others, chars = first :: others ∧ isNameStart first = true ∧
    ∀ char ∈ others, isNameChar char = true

/-- The characters of a name that is no word of the language. -/
def IsIdentifier (chars : List Char) : Prop :=
  IsName chars ∧ ∀ keyword ∈ keywords, chars ≠ keyword.toList

theorem isNameChar_of_isNameStart {char : Char} (starts : isNameStart char = true) :
    isNameChar char = true := by
  unfold isNameStart at starts
  unfold isNameChar Char.isAlphanum
  rcases Bool.or_eq_true_iff.mp starts with letter | underscore
  · rw [letter]
    rfl
  · rw [underscore, Bool.or_true]

/-- Of two tests that no character passes both, what passes one fails the other. -/
theorem fails_of_excludes {test other : Bool} (excludes : test = true → other = false)
    (passes : other = true) : test = false :=
  Bool.eq_false_iff.mpr fun both => Bool.eq_false_iff.mp (excludes both) passes

theorem IsName.isNameChar_of_mem {chars : List Char} (name : IsName chars) :
    ∀ char ∈ chars, isNameChar char = true := by
  obtain ⟨first, others, rfl, starts, continues⟩ := name
  exact List.forall_mem_cons.mpr ⟨isNameChar_of_isNameStart starts, continues⟩

theorem head_of_not_continuesName {rest : List Char} (ends : continuesName rest = false) :
    ∀ char ∈ rest.head?, isNameChar char = false := by
  cases rest with
  | nil => exact fun char member => nomatch member
  | cons char rest =>
      intro other member
      obtain rfl := Option.some.inj member
      exact ends

theorem head_of_dropWhile {keep : Char → Bool} (source : List Char) :
    ∀ char ∈ (source.dropWhile keep).head?, keep char = false := by
  intro char member
  have stops := List.head?_dropWhile_not keep source
  rw [Option.mem_def.mp member] at stops
  exact stops

theorem not_continuesName_dropWhile (source : List Char) :
    continuesName (source.dropWhile isNameChar) = false := by
  cases rest : source.dropWhile isNameChar with
  | nil => rfl
  | cons char others => exact head_of_dropWhile source char (by rw [rest]; rfl)

theorem exactly_append (text : String) (rest : List Char) :
    exactly text (text.toList ++ rest) = some (text.toList, rest) := by
  unfold exactly
  rw [Text.dropLeading?_eq_some_iff.mpr rfl]
  rfl

theorem exactly_eq_some {text : String} {source taken rest : List Char}
    (cut : exactly text source = some (taken, rest)) :
    taken = text.toList ∧ source = text.toList ++ rest := by
  obtain ⟨others, dropped, same⟩ := Option.map_eq_some_iff.mp cut
  obtain ⟨rfl, rfl⟩ := Prod.mk.inj same
  exact ⟨rfl, Text.dropLeading?_eq_some_iff.mp dropped⟩

theorem exactly_eq_none {text : String} {expected found : Char} {part source : List Char}
    (spelled : text.toList = expected :: part) (different : expected ≠ found) :
    exactly text (found :: source) = none := by
  unfold exactly
  rw [spelled, Text.dropLeading?, if_neg different]
  rfl

theorem word_append {text : String} {rest : List Char} (ends : continuesName rest = false) :
    word text (text.toList ++ rest) = some (text.toList, rest) := by
  unfold word
  rw [exactly_append, Option.filter_some, if_pos (by simp [ends])]

theorem word_eq_none_of_head {text : String} {expected found : Char} {part source : List Char}
    (spelled : text.toList = expected :: part) (different : expected ≠ found) :
    word text (found :: source) = none := by
  unfold word
  rw [exactly_eq_none spelled different]
  rfl

/-- A word is cut off a name only if it is that name. -/
theorem word_eq_none {text : String} {chars rest : List Char} (name : IsName chars)
    (ends : continuesName rest = false) (letters : ∀ char ∈ text.toList, isNameChar char = true)
    (different : chars ≠ text.toList) : word text (chars ++ rest) = none := by
  unfold word
  cases cut : exactly text (chars ++ rest) with
  | none => rfl
  | some found =>
      obtain ⟨taken, others⟩ := found
      obtain ⟨rfl, same⟩ := exactly_eq_some cut
      have whole := (Text.takeWhile_append_of_ends name.isNameChar_of_mem
        (head_of_not_continuesName ends)).1
      rw [Option.filter_some, if_neg]
      intro stops
      have stops : continuesName others = false := by simpa using stops
      rw [same, (Text.takeWhile_append_of_ends letters (head_of_not_continuesName stops)).1] at whole
      exact different whole.symm

theorem name_append {chars rest : List Char} (name : IsName chars)
    (ends : continuesName rest = false) : Token.name (chars ++ rest) = some (chars, rest) := by
  obtain ⟨first, others, rfl, starts, continues⟩ := name
  obtain ⟨taken, left⟩ := Text.takeWhile_append_of_ends continues (head_of_not_continuesName ends)
  rw [List.cons_append, Token.name, if_pos starts, taken, left]

theorem letters_of_mem_keywords : ∀ keyword ∈ keywords,
    ∀ char ∈ keyword.toList, isNameChar char = true := by
  have all : (keywords.all fun keyword => keyword.toList.all isNameChar) = true := by
    decide +kernel
  intro keyword listed
  exact List.all_eq_true.mp (List.all_eq_true.mp all keyword listed)

theorem identifier_append {chars rest : List Char} (proper : IsIdentifier chars)
    (ends : continuesName rest = false) : identifier (chars ++ rest) = some (chars, rest) := by
  have none : anyOf (keywords.map word) (chars ++ rest) = none := by
    unfold anyOf
    rw [List.findSome?_eq_none_iff]
    intro scanner member
    obtain ⟨keyword, listed, rfl⟩ := List.mem_map.mp member
    exact word_eq_none proper.1 ends (letters_of_mem_keywords keyword listed)
      (proper.2 keyword listed)
  unfold identifier
  rw [none]
  exact name_append proper.1 ends

theorem isName_of_name {source taken rest : List Char}
    (cut : Token.name source = some (taken, rest)) :
    IsName taken ∧ source = taken ++ rest ∧ continuesName rest = false := by
  cases source with
  | nil => cases cut
  | cons char source =>
      rw [Token.name] at cut
      split at cut
      · rename_i starts
        obtain ⟨rfl, rfl⟩ := Prod.mk.inj (Option.some.inj cut)
        refine ⟨⟨char, _, rfl, starts, fun other member => List.mem_takeWhile_imp member⟩, ?_,
          not_continuesName_dropWhile source⟩
        rw [List.cons_append, List.takeWhile_append_dropWhile]
      · cases cut

theorem isIdentifier_of_identifier {source taken rest : List Char}
    (cut : identifier source = some (taken, rest)) : IsIdentifier taken := by
  unfold identifier at cut
  split at cut
  · cases cut
  · rename_i other
    obtain ⟨name, rfl, ends⟩ := isName_of_name cut
    refine ⟨name, ?_⟩
    rintro keyword listed rfl
    refine other ?_
    unfold anyOf
    rw [List.isSome_findSome?, List.any_eq_true]
    exact ⟨word keyword, List.mem_map_of_mem listed, by rw [word_append ends]; rfl⟩

end Words

section Numbers

theorem isNameChar_of_isDigit {char : Char} (digit : char.isDigit = true) :
    isNameChar char = true := by
  unfold isNameChar Char.isAlphanum
  rw [digit, Bool.or_true]
  rfl

theorem isDigit_of_isNameStart {char : Char} (starts : isNameStart char = true) :
    char.isDigit = false := by
  by_contra found
  have digit : char.isDigit = true := Bool.not_eq_false _ ▸ found
  have most : char.val ≤ '9'.val := of_decide_eq_true (Bool.and_eq_true_iff.mp digit).2
  have below : ∀ least : UInt32, '9'.val < least → ¬ least ≤ char.val := fun least order least_le =>
    absurd (UInt32.lt_of_lt_of_le order (UInt32.le_trans least_le most)) (UInt32.lt_irrefl _)
  rcases Bool.or_eq_true_iff.mp starts with letter | underscore
  · rcases Bool.or_eq_true_iff.mp letter with upper | lower
    · have range : 'A'.val ≤ char.val ∧ char.val ≤ 'Z'.val := of_decide_eq_true upper
      exact below 'A'.val (by decide) range.1
    · exact below 'a'.val (by decide) (of_decide_eq_true (Bool.and_eq_true_iff.mp lower).1)
  · obtain rfl := of_decide_eq_true underscore
    exact absurd digit (by decide)

theorem digits_append_of_ends {chars rest : List Char} (some : chars ≠ [])
    (all : ∀ char ∈ chars, char.isDigit = true)
    (ends : ∀ char ∈ rest.head?, char.isDigit = false) :
    digits (chars ++ rest) = .some (chars, rest) := by
  obtain ⟨taken, left⟩ := Text.takeWhile_append_of_ends all ends
  unfold digits
  rw [taken, left, if_neg (by simpa using some)]

theorem digits_append {chars rest : List Char} (some : chars ≠ [])
    (all : ∀ char ∈ chars, char.isDigit = true) (ends : continuesName rest = false) :
    digits (chars ++ rest) = .some (chars, rest) := by
  refine digits_append_of_ends some all fun char member => Bool.eq_false_iff.mpr fun digit => ?_
  have continues := isNameChar_of_isDigit digit
  rw [head_of_not_continuesName ends char member] at continues
  cases continues

theorem digits_eq_some {source taken rest : List Char}
    (cut : digits source = some (taken, rest)) :
    taken ≠ [] ∧ (∀ char ∈ taken, char.isDigit = true) ∧ source = taken ++ rest ∧
      ∀ char ∈ rest.head?, char.isDigit = false := by
  unfold digits at cut
  dsimp only at cut
  split at cut
  · cases cut
  · rename_i some
    obtain ⟨rfl, rfl⟩ := Prod.mk.inj (Option.some.inj cut)
    exact ⟨by simpa using some, fun char member => List.mem_takeWhile_imp member,
      List.takeWhile_append_dropWhile.symm, head_of_dropWhile source⟩

theorem digits_eq_none {char : Char} {source : List Char} (other : char.isDigit = false) :
    digits (char :: source) = none := by
  have stops : ¬ char.isDigit = true := Bool.eq_false_iff.mp other
  unfold digits
  rw [List.takeWhile_cons_of_neg stops]
  rfl

theorem integer_of_unsigned {char : Char} {source : List Char} (unsigned : char ≠ '-') :
    integer (char :: source) = digits (char :: source) := by
  unfold integer
  split
  · rename_i same
    exact absurd (List.cons.inj same).1 unsigned
  · rfl

theorem integer_eq_none {char : Char} {source : List Char} (unsigned : char ≠ '-')
    (other : char.isDigit = false) : integer (char :: source) = none := by
  rw [integer_of_unsigned unsigned, digits_eq_none other]

theorem digits_naturalText (value : Nat) {rest : List Char}
    (ends : continuesName rest = false) :
    digits (Text.Radix.naturalText 10 value ++ rest) =
      some (Text.Radix.naturalText 10 value, rest) :=
  digits_append (Text.Radix.naturalText_ne_nil value)
    Text.Radix.isDigit_of_mem_naturalText ends

/-- The text of an integer is cut off whole, its sign included. -/
theorem integer_integerText (value : Int) {rest : List Char}
    (ends : continuesName rest = false) :
    integer (Text.Radix.integerText 10 value ++ rest) =
      some (Text.Radix.integerText 10 value, rest) := by
  have whole := digits_naturalText value.natAbs ends
  unfold Text.Radix.integerText
  split
  · rw [List.cons_append, integer, whole]
    rfl
  · rw [← whole]
    cases text : Text.Radix.naturalText 10 value.natAbs with
    | nil => exact absurd text (Text.Radix.naturalText_ne_nil _)
    | cons char chars =>
        have digit := Text.Radix.isDigit_of_mem_naturalText char (text ▸ List.mem_cons_self)
        refine integer_of_unsigned ?_
        rintro rfl
        exact absurd digit (by decide)

end Numbers

section Strings

open Text.Escape

/-- A character that neither closes a string nor opens an escape. -/
def IsPlain (char : Char) : Prop := char ≠ '"' ∧ char ≠ '\\'

theorem stringBody_cons {quote char : Char} (unescaped : char ≠ '\\') (source : List Char) :
    stringBody quote (char :: source) = if char = quote then ([], char :: source)
      else (char :: (stringBody quote source).1, (stringBody quote source).2) := by
  rw [stringBody]
  · rintro rfl
    exact absurd rfl unescaped
  · rintro _ _ rfl
    exact absurd rfl unescaped

theorem stringBody_plain {char : Char} (plain : IsPlain char) (source : List Char) :
    stringBody '"' (char :: source) =
      (char :: (stringBody '"' source).1, (stringBody '"' source).2) := by
  rw [stringBody_cons plain.2, if_neg plain.1]

theorem isPlain_hexPair : ∀ code < 160, ∀ char ∈ hexPair code, IsPlain char := by
  have all : ∀ code < 160,
      ((hexPair code).all fun char => char != '"' && char != '\\') = true := by
    decide +kernel
  intro code small char listed
  simpa [IsPlain] using List.all_eq_true.mp (all code small) char listed

theorem isPlain_of_letter?_eq_none {char : Char} (unwritten : letter? char = none) :
    IsPlain char := by
  constructor <;> rintro rfl <;> cases unwritten

/-- What is written for a character lies inside the string. -/
theorem stringBody_encodeChar (char : Char) (source : List Char) :
    stringBody '"' (encodeChar char ++ source) =
      (encodeChar char ++ (stringBody '"' source).1, (stringBody '"' source).2) := by
  unfold encodeChar
  split
  · rfl
  · rename_i unwritten
    split
    · rename_i control
      have small : char.toNat < 160 := by
        simp only [isControl, Bool.or_eq_true, Bool.and_eq_true, decide_eq_true_eq] at control
        omega
      have plain := isPlain_hexPair char.toNat small
      unfold hexPair at plain ⊢
      simp only [List.cons_append, List.nil_append]
      rw [stringBody, stringBody_plain (plain _ List.mem_cons_self),
        stringBody_plain (plain _ (List.mem_cons_of_mem _ List.mem_cons_self))]
    · exact stringBody_plain (isPlain_of_letter?_eq_none unwritten) source

theorem stringBody_encode (text rest : List Char) :
    stringBody '"' (encode text ++ '"' :: rest) = (encode text, '"' :: rest) := by
  induction text with
  | nil =>
      change stringBody '"' ('"' :: rest) = _
      rw [stringBody]
      · rfl
      · exact nofun
      · exact nofun
  | cons char text hypothesis =>
      have split : encode (char :: text) = encodeChar char ++ encode text := rfl
      rw [split, List.append_assoc, stringBody_encodeChar, hypothesis]

theorem text_quote (value : String) (rest : List Char) :
    Token.text ((quote value).toList ++ rest) = some ((quote value).toList, rest) := by
  have written : (quote value).toList = '"' :: encode value.toList ++ ['"'] :=
    String.toList_ofList
  have shape : (quote value).toList ++ rest = '"' :: (encode value.toList ++ '"' :: rest) := by
    rw [written, List.append_assoc]
    rfl
  have cut : string '"' ((quote value).toList ++ rest) =
      some ((quote value).toList, rest) := by
    rw [shape, string, if_pos rfl, stringBody_encode, written]
    rfl
  unfold Token.text anyOf
  rw [List.findSome?_cons, cut]

theorem text_eq_none {char : Char} {source : List Char} (other : char ≠ '"' ∧ char ≠ '\'') :
    Token.text (char :: source) = none := by
  unfold Token.text anyOf
  rw [List.findSome?_cons, string, if_neg other.1, List.findSome?_cons, string, if_neg other.2]
  rfl

end Strings

section Operators

/-- The spelling of a relation is cut off whole, unless an equals sign follows. -/
theorem relation_append (relation : Relation) {char : Char} (source : List Char)
    (different : char ≠ '=') :
    Token.relation (relation.spelling.toList ++ char :: source) =
      some (relation.spelling.toList, char :: source) := by
  cases relation <;>
    simp [Token.relation, anyOf, Relation.all, Relation.spelling, exactly, Text.dropLeading?,
      Ne.symm different]

end Operators

end TreeSelector.Grammar.Token
