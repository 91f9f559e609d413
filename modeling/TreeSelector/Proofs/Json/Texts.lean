import TreeSelector.Proofs.Json.Scalars

/-!
# JSON texts read back

The compact text of a value is read back to the value, provided that its numbers are integers and
that its containers do not nest too deep for the reader.
-/

namespace TreeSelector.Json

section Shapes

mutual

/-- How deep containers nest in a value. -/
def nesting : Json → Nat
  | array items => nestingOfItems items + 1
  | object members => nestingOfMembers members + 1
  | _ => 0

def nestingOfItems : List Json → Nat
  | [] => 0
  | item :: items => max item.nesting (nestingOfItems items)

def nestingOfMembers : List (String × Json) → Nat
  | [] => 0
  | (_, value) :: members => max value.nesting (nestingOfMembers members)

end

theorem nestingOfItems_le_iff {items : List Json} {bound : Nat} :
    nestingOfItems items ≤ bound ↔ ∀ item ∈ items, item.nesting ≤ bound := by
  induction items with
  | nil => simp [nestingOfItems]
  | cons item items hypothesis =>
      rw [nestingOfItems, Nat.max_le, hypothesis, List.forall_mem_cons]

theorem nestingOfMembers_le_iff {members : List (String × Json)} {bound : Nat} :
    nestingOfMembers members ≤ bound ↔ ∀ member ∈ members, member.2.nesting ≤ bound := by
  induction members with
  | nil => simp [nestingOfMembers]
  | cons member members hypothesis =>
      rw [nestingOfMembers, Nat.max_le, hypothesis, List.forall_mem_cons]

/-- All numbers in a value are integers. -/
inductive IsIntegral : Json → Prop where
  | null : IsIntegral null
  | boolean (value : Bool) : IsIntegral (boolean value)
  | integer (value : Int) : IsIntegral (integer value)
  | string (value : String) : IsIntegral (string value)
  | array {items : List Json} : (∀ item ∈ items, IsIntegral item) → IsIntegral (array items)
  | object {members : List (String × Json)} :
      (∀ member ∈ members, IsIntegral member.2) → IsIntegral (object members)

/-- The texts of some pieces, with commas between them. -/
def commaSeparated : List (List Char) → List Char
  | [] => []
  | [text] => text
  | text :: next :: texts => text ++ ',' :: commaSeparated (next :: texts)

def encodeMember (member : String × Json) : List Char :=
  encodeString member.1 ++ ':' :: encode member.2

theorem encodeItems_eq : ∀ items : List Json, encodeItems items = commaSeparated (items.map encode)
  | [] => rfl
  | [_] => rfl
  | item :: next :: items => by
      rw [encodeItems, encodeItems_eq (next :: items)]
      rfl

theorem encodeMembers_eq : ∀ members : List (String × Json),
    encodeMembers members = commaSeparated (members.map encodeMember)
  | [] => rfl
  | [(_, _)] => rfl
  | (name, value) :: next :: members => by
      rw [encodeMembers, encodeMembers_eq (next :: members)]
      simp [commaSeparated, encodeMember]

end Shapes

namespace Reader

section Pieces

/-- Whether a piece can begin with a character. -/
def opensPiece (char : Char) : Bool := !isBlank char && char != ']' && char != '\x7d'

/-- A reader reads a text as a value, whatever comes behind it. -/
structure Reads {α : Type} (piece : Parser α) (text : List Char) (value : α) : Prop where
  opens : ∃ char chars, text = char :: chars ∧ opensPiece char = true
  reads : ∀ rest, EndsPiece rest → piece (text ++ rest) = some (value, rest)

variable {α : Type} {piece : Parser α}

theorem not_isBlank_of_opensPiece {char : Char} (opens : opensPiece char = true) :
    isBlank char = false := by
  simp only [opensPiece, Bool.and_eq_true, Bool.not_eq_true'] at opens
  exact opens.1.1

theorem skipBlanks_of_not_isBlank {char : Char} {chars : List Char} (solid : isBlank char = false) :
    skipBlanks (char :: chars) = char :: chars :=
  List.dropWhile_cons_of_neg (Bool.eq_false_iff.mp solid)

theorem Reads.skipBlanks_append {text : List Char} {value : α} (reads : Reads piece text value)
    (rest : List Char) : skipBlanks (text ++ rest) = text ++ rest := by
  obtain ⟨char, chars, rfl, opens⟩ := reads.opens
  exact skipBlanks_of_not_isBlank (not_isBlank_of_opensPiece opens)

/-- The last piece is read together with the character that closes the list. -/
theorem pieces_last {text : List Char} {value : α} (reads : Reads piece text value)
    {closing : Char} (closes : closing = ']' ∨ closing = '\x7d') (fuel : Nat) (rest : List Char) :
    pieces piece closing (fuel + 1) (text ++ closing :: rest) = some ([value], rest) := by
  have ends : EndsPiece (closing :: rest) := by
    rcases closes with rfl | rfl <;> simp [EndsPiece]
  have solid : isBlank closing = false := by rcases closes with rfl | rfl <;> rfl
  rw [pieces, reads.skipBlanks_append, reads.reads _ ends]
  rcases closes with rfl | rfl <;> simp [skipBlanks_of_not_isBlank solid]

theorem pieces_cons {text : List Char} {value : α} (reads : Reads piece text value)
    {closing : Char} {fuel : Nat} {source rest : List Char} {values : List α}
    (others : pieces piece closing fuel source = some (values, rest)) :
    pieces piece closing (fuel + 1) (text ++ ',' :: source) = some (value :: values, rest) := by
  have solid : isBlank ',' = false := rfl
  rw [pieces, reads.skipBlanks_append, reads.reads _ (EndsPiece.comma source)]
  simp [skipBlanks_of_not_isBlank solid, others]

/-- Pieces with commas between them are read up to the character that closes the list. -/
theorem pieces_reads {write : α → List Char} {closing : Char}
    (closes : closing = ']' ∨ closing = '\x7d') {first : α} {others : List α}
    (each : ∀ value ∈ first :: others, Reads piece (write value) value) {fuel : Nat}
    (enough : others.length < fuel) (rest : List Char) :
    pieces piece closing fuel (commaSeparated ((first :: others).map write) ++ closing :: rest) =
      some (first :: others, rest) := by
  induction others generalizing first fuel with
  | nil =>
      obtain ⟨fewer, rfl⟩ : ∃ fewer, fuel = fewer + 1 := ⟨fuel - 1, by omega⟩
      exact pieces_last (each first List.mem_cons_self) closes fewer rest
  | cons second others hypothesis =>
      obtain ⟨fewer, rfl⟩ : ∃ fewer, fuel = fewer + 1 := ⟨fuel - 1, by omega⟩
      have later := hypothesis (fun value member => each value (List.mem_cons_of_mem _ member))
        (Nat.lt_of_succ_lt_succ enough)
      have read := pieces_cons (each first List.mem_cons_self) later
      simpa [commaSeparated] using read

theorem exists_commaSeparated_cons (text : List Char) (texts : List (List Char)) :
    ∃ rest, commaSeparated (text :: texts) = text ++ rest := by
  cases texts with
  | nil => exact ⟨[], (List.append_nil _).symm⟩
  | cons next texts => exact ⟨_, rfl⟩

theorem length_le_commaSeparated {texts : List (List Char)}
    (filled : ∀ text ∈ texts, text ≠ []) : texts.length ≤ (commaSeparated texts).length := by
  induction texts with
  | nil => exact Nat.le_refl _
  | cons text texts hypothesis =>
      have here := List.length_pos_iff.mpr (filled text List.mem_cons_self)
      have later := hypothesis fun text member => filled text (List.mem_cons_of_mem _ member)
      cases texts with
      | nil => exact here
      | cons next texts =>
          simp only [commaSeparated, List.length_append, List.length_cons] at later ⊢
          omega

/-- A list of pieces is read behind the character that opens it. -/
theorem piecesOrNone_reads {write : α → List Char} {closing : Char}
    (closes : closing = ']' ∨ closing = '\x7d') {values : List α}
    (each : ∀ value ∈ values, Reads piece (write value) value) (rest : List Char) :
    piecesOrNone piece closing (commaSeparated (values.map write) ++ closing :: rest) =
      some (values, rest) := by
  cases values with
  | nil =>
      have solid : isBlank closing = false := by rcases closes with rfl | rfl <;> rfl
      simp [piecesOrNone, commaSeparated, skipBlanks_of_not_isBlank solid]
  | cons first others =>
      have filled : ∀ text ∈ (first :: others).map write, text ≠ [] := by
        intro text member
        obtain ⟨value, listed, rfl⟩ := List.mem_map.mp member
        obtain ⟨char, chars, same, _⟩ := (each value listed).opens
        exact same ▸ List.cons_ne_nil char chars
      have enough := length_le_commaSeparated filled
      have read (fuel : Nat) (long : others.length < fuel) := pieces_reads closes each long rest
      obtain ⟨char, chars, same, opens⟩ := (each first List.mem_cons_self).opens
      obtain ⟨tail, split⟩ := exists_commaSeparated_cons (write first) (others.map write)
      have source : commaSeparated ((first :: others).map write) = char :: (chars ++ tail) := by
        rw [List.map_cons, split, same]
        rfl
      have proceeds : char ≠ closing := by
        rintro rfl
        rcases closes with rfl | rfl <;> cases opens
      rw [source] at read enough ⊢
      simp only [List.length_map, List.length_cons, List.length_append] at enough
      simp only [List.cons_append, piecesOrNone,
        skipBlanks_of_not_isBlank (not_isBlank_of_opensPiece opens), if_neg proceeds]
      exact read _ (by simp only [List.length_append, List.length_cons]; omega)

end Pieces

section Values

/-- A solid character that opens no container begins a value that is none. -/
theorem value_of_scalar {nesting : Nat} {char : Char} {source : List Char}
    (other : char ≠ '[' ∧ char ≠ '\x7b') :
    value nesting (char :: source) = scalar (char :: source) := by
  cases nesting with
  | zero => rfl
  | succ nesting =>
      unfold value
      split
      · rename_i same
        exact absurd (List.cons.inj same).1 other.1
      · rename_i same
        exact absurd (List.cons.inj same).1 other.2
      · rfl

theorem word_reads {nesting : Nat} {text : String} {json : Json} {char : Char} {chars : List Char}
    (spelled : text.toList = char :: chars) (letter : char = 'n' ∨ char = 't' ∨ char = 'f')
    (scalar : ∀ source, scalar (char :: source) = word text json (char :: source)) :
    Reads (value nesting) text.toList json where
  opens := ⟨char, chars, spelled, by rcases letter with rfl | rfl | rfl <;> rfl⟩
  reads rest _ := by
    have other : char ≠ '[' ∧ char ≠ '\x7b' := by
      rcases letter with rfl | rfl | rfl <;> decide
    rw [spelled, List.cons_append, value_of_scalar other, scalar, word, ← List.cons_append,
      ← spelled, Text.dropLeading?_eq_some_iff.mpr rfl]
    rfl

theorem string_reads (nesting : Nat) (text : String) :
    Reads (value nesting) (encodeString text) (.string text) where
  opens := ⟨_, _, rfl, rfl⟩
  reads rest _ := by
    have read := string_encodeString text rest
    rw [encodeString, List.cons_append] at read ⊢
    rw [value_of_scalar (by decide), scalar, read]
    rfl

theorem ne_of_opensNumber {char other : Char} (first : char = '-' ∨ char.isDigit = true)
    (foreign : other ≠ '-' ∧ other.isDigit = false) : char ≠ other := by
  rintro rfl
  rcases first with minus | digit
  · exact foreign.1 minus
  · exact Bool.false_ne_true (foreign.2.symm.trans digit)

theorem scalar_of_opensNumber {char : Char} (first : char = '-' ∨ char.isDigit = true)
    (source : List Char) : scalar (char :: source) = number (char :: source) := by
  have other {letter : Char} := @ne_of_opensNumber char letter first
  unfold scalar
  split
  · rename_i none
    cases none
  iterate 4
    · rename_i same
      exact absurd (List.cons.inj same).1 (other (by decide))
  · rfl

theorem integer_reads (nesting : Nat) (number : Int) :
    Reads (value nesting) (Text.signedDecimal number).toList (.integer number) := by
  obtain ⟨char, chars, text, first⟩ := Text.Radix.exists_integerText_cons number
  have written : (Text.signedDecimal number).toList = char :: chars := by
    rw [Text.signedDecimal, String.toList_ofList, text]
  have other {letter : Char} := @ne_of_opensNumber char letter first
  have opens : opensPiece char = true := by
    have solid : isBlank char = false := by
      simp only [isBlank, Bool.or_eq_false_iff, decide_eq_false_iff_not]
      exact ⟨⟨⟨other (by decide), other (by decide)⟩, other (by decide)⟩, other (by decide)⟩
    have bracket : char ≠ ']' := other (by decide)
    have brace : char ≠ '\x7d' := other (by decide)
    simp [opensPiece, solid, bracket, brace]
  refine ⟨⟨char, chars, written, opens⟩, fun rest ends => ?_⟩
  have read := number_integerText number ends
  rw [text, List.cons_append] at read
  rw [written, List.cons_append, value_of_scalar ⟨other (by decide), other (by decide)⟩,
    scalar_of_opensNumber first, read]

theorem member_reads {piece : Parser Json} {name : String} {json : Json}
    (reads : Reads piece (encode json) json) :
    Reads (member piece) (encodeMember (name, json)) (name, json) where
  opens := ⟨_, _, rfl, rfl⟩
  reads rest ends := by
    have solid : isBlank ':' = false := rfl
    simp [encodeMember, member, string_encodeString, skipBlanks_of_not_isBlank solid,
      reads.skipBlanks_append, reads.reads rest ends]

/-- The compact text of a value reads back to it. -/
theorem value_reads {json : Json} (integral : json.IsIntegral) {nesting : Nat}
    (shallow : json.nesting ≤ nesting) : Reads (value nesting) (encode json) json := by
  induction integral generalizing nesting with
  | null => exact word_reads rfl (.inl rfl) fun _ => rfl
  | boolean value =>
      cases value with
      | true => exact word_reads rfl (.inr (.inl rfl)) fun _ => rfl
      | false => exact word_reads rfl (.inr (.inr rfl)) fun _ => rfl
  | integer number => exact integer_reads nesting number
  | string text => exact string_reads nesting text
  | @array items _ hypothesis =>
      cases nesting with
      | zero => exact absurd shallow (Nat.not_succ_le_zero _)
      | succ nesting =>
          have each := nestingOfItems_le_iff.mp (Nat.le_of_succ_le_succ shallow)
          refine ⟨⟨_, _, rfl, rfl⟩, fun rest _ => ?_⟩
          have read := piecesOrNone_reads (.inl rfl)
            (fun item listed => hypothesis item listed (each item listed)) rest
          simp [encode, encodeItems_eq, value, read]
  | @object members _ hypothesis =>
      cases nesting with
      | zero => exact absurd shallow (Nat.not_succ_le_zero _)
      | succ nesting =>
          have each := nestingOfMembers_le_iff.mp (Nat.le_of_succ_le_succ shallow)
          refine ⟨⟨_, _, rfl, rfl⟩, fun rest _ => ?_⟩
          have read := piecesOrNone_reads (.inr rfl)
            (fun entry listed => member_reads (hypothesis entry listed (each entry listed))) rest
          simp [encode, encodeMembers_eq, value, read]

end Values

end Reader

/-- A text that is written for a value reads back to it, if the value does not nest too deep. -/
theorem parse?_render {json : Json} (integral : json.IsIntegral)
    (shallow : json.nesting ≤ Reader.maxNesting) : parse? json.render = some json := by
  have reads := Reader.value_reads integral shallow
  have read := reads.reads [] (by simp [Reader.EndsPiece])
  have start := reads.skipBlanks_append []
  rw [List.append_nil] at read start
  have finish : Reader.skipBlanks [] = [] := rfl
  simp [parse?, render, start, read, finish]

end TreeSelector.Json
