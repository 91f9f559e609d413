/-!
# Affixes and occurrences

Tests between two texts, stated on their characters: one text begins, ends or
occurs somewhere in another, and the first place where it occurs.
-/

namespace TreeSelector.Text

/-- The least position of `text` at which `part` begins. -/
def firstOccurrence (part : List Char) : List Char → Option Nat
  | [] => if part.isEmpty then some 0 else none
  | head :: tail =>
      if part.isPrefixOf (head :: tail) then some 0
      else (firstOccurrence part tail).map (· + 1)

/-- Whether `part` occurs in a list of characters. -/
def occursIn (part : List Char) : List Char → Bool
  | [] => part.isEmpty
  | head :: tail => part.isPrefixOf (head :: tail) || occursIn part tail

theorem occursIn_iff {part text : List Char} :
    occursIn part text = true ↔ part <:+: text := by
  induction text with
  | nil => simp [occursIn]
  | cons head tail hypothesis =>
      simp [occursIn, hypothesis, List.infix_cons_iff]

def beginsWith (text part : String) : Bool :=
  part.toList.isPrefixOf text.toList

def endsWith (text part : String) : Bool :=
  part.toList.reverse.isPrefixOf text.toList.reverse

def contains (text part : String) : Bool :=
  occursIn part.toList text.toList

/-- What follows `part` in a list of characters that begins with it. -/
def dropLeading? : List Char → List Char → Option (List Char)
  | [], rest => some rest
  | _ :: _, [] => none
  | expected :: part, found :: rest =>
      if expected = found then dropLeading? part rest else none

theorem dropLeading?_eq_some_iff {part text rest : List Char} :
    dropLeading? part text = some rest ↔ text = part ++ rest := by
  induction part generalizing text with
  | nil => simp [dropLeading?]
  | cons expected part hypothesis =>
      cases text with
      | nil => simp [dropLeading?]
      | cons found text =>
          by_cases same : expected = found
          · simp [dropLeading?, same, hypothesis]
          · have different : found ≠ expected := Ne.symm same
            simp [dropLeading?, same, different]

/-- What comes before `part` in a list of characters that ends with it. -/
def dropTrailing? (part text : List Char) : Option (List Char) :=
  (dropLeading? part.reverse text.reverse).map List.reverse

theorem dropTrailing?_eq_some_iff {part text rest : List Char} :
    dropTrailing? part text = some rest ↔ text = rest ++ part := by
  simp only [dropTrailing?, Option.map_eq_some_iff, dropLeading?_eq_some_iff]
  constructor
  · rintro ⟨before, reversed, rfl⟩
    simpa using congrArg List.reverse reversed
  · rintro rfl
    exact ⟨rest.reverse, by simp, by simp⟩

/-- The number of bytes a list of characters takes in UTF-8. -/
def byteLength : List Char → Nat
  | [] => 0
  | char :: text => char.utf8Size + byteLength text

@[simp]
theorem byteLength_append (text text' : List Char) :
    byteLength (text ++ text') = byteLength text + byteLength text' := by
  induction text with
  | nil => exact (Nat.zero_add _).symm
  | cons char text hypothesis =>
      rw [List.cons_append, byteLength, byteLength, hypothesis, Nat.add_assoc]

end TreeSelector.Text
