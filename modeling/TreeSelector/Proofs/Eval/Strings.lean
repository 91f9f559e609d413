import Mathlib.Data.List.Infix
import TreeSelector.Proofs.Eval.Conversions
import TreeSelector.Text.Search

/-!
# Strings and positions

The methods of strings agree with one another: what is searched for is found at the first
position where the substring is what was searched for, single characters are substrings, and
what is cut at a position can be put together again.  A position that is too large for an
integer is too large for every string.
-/

namespace TreeSelector

namespace Text

variable {part text : List Char}

/-- A part stands at a position of a text. -/
def StandsAt (part text : List Char) (position : Nat) : Prop :=
  position ≤ text.length ∧ part <+: text.drop position

theorem standsAt_cons_succ {char : Char} {position : Nat} :
    StandsAt part (char :: text) (position + 1) ↔ StandsAt part text position := by
  unfold StandsAt
  rw [List.length_cons, List.drop_succ_cons, Nat.succ_le_succ_iff]

theorem standsAt_zero : StandsAt part text 0 ↔ part.isPrefixOf text = true := by
  unfold StandsAt
  rw [List.drop_zero, List.isPrefixOf_iff_prefix]
  exact and_iff_right (Nat.zero_le _)

theorem standsAt_drop {start position : Nat} (inside : start ≤ text.length) :
    StandsAt part (text.drop start) position ↔ StandsAt part text (start + position) := by
  unfold StandsAt
  rw [List.length_drop, List.drop_drop]
  exact and_congr_left fun _ => by omega

theorem firstOccurrence_eq_none_iff :
    firstOccurrence part text = none ↔ ∀ position, ¬ StandsAt part text position := by
  induction text with
  | nil => cases part <;> simp [firstOccurrence, StandsAt]
  | cons char text hypothesis =>
      rw [firstOccurrence]
      split
      · rename_i here
        exact iff_of_false nofun fun nowhere => nowhere 0 (standsAt_zero.mpr here)
      · rename_i elsewhere
        rw [Option.map_eq_none_iff, hypothesis]
        constructor
        · rintro nowhere (_ | position)
          · exact fun here => elsewhere (standsAt_zero.mp here)
          · exact fun there => nowhere position (standsAt_cons_succ.mp there)
        · exact fun nowhere position there =>
            nowhere (position + 1) (standsAt_cons_succ.mpr there)

/-- What is found is the least of the positions. -/
theorem standsAt_of_firstOccurrence {position : Nat}
    (found : firstOccurrence part text = some position) :
    StandsAt part text position ∧ ∀ other, StandsAt part text other → position ≤ other := by
  induction text generalizing position with
  | nil =>
      unfold firstOccurrence at found
      split at found
      · rename_i empty
        obtain rfl := Option.some.inj found
        exact ⟨standsAt_zero.mpr (by simpa using empty), fun other _ => Nat.zero_le other⟩
      · cases found
  | cons char text hypothesis =>
      rw [firstOccurrence] at found
      split at found
      · rename_i here
        obtain rfl := Option.some.inj found
        exact ⟨standsAt_zero.mpr here, fun other _ => Nat.zero_le other⟩
      · rename_i elsewhere
        obtain ⟨position, later, rfl⟩ := Option.map_eq_some_iff.mp found
        obtain ⟨stands, least⟩ := hypothesis later
        refine ⟨standsAt_cons_succ.mpr stands, ?_⟩
        rintro (_ | other) there
        · exact absurd (standsAt_zero.mp there) elsewhere
        · exact Nat.succ_le_succ (least other (standsAt_cons_succ.mp there))

/-- A search in what follows a position finds the first place from there on. -/
theorem standsAt_of_firstOccurrence_drop {start distance : Nat} (inside : start ≤ text.length)
    (found : firstOccurrence part (text.drop start) = some distance) :
    StandsAt part text (start + distance) ∧
      ∀ other, start ≤ other → StandsAt part text other → start + distance ≤ other := by
  obtain ⟨stands, least⟩ := standsAt_of_firstOccurrence found
  refine ⟨(standsAt_drop inside).mp stands, fun other after stands' => ?_⟩
  obtain ⟨distance', rfl⟩ := Nat.exists_eq_add_of_le after
  exact Nat.add_le_add_left (least distance' ((standsAt_drop inside).mpr stands')) start

theorem not_standsAt_of_firstOccurrence_drop {start : Nat} (inside : start ≤ text.length)
    (missing : firstOccurrence part (text.drop start) = none) :
    ∀ other, start ≤ other → ¬ StandsAt part text other := by
  intro other after stands
  obtain ⟨distance, rfl⟩ := Nat.exists_eq_add_of_le after
  exact firstOccurrence_eq_none_iff.mp missing distance ((standsAt_drop inside).mpr stands)

end Text

namespace Method

section Slices

variable {chars : List Char} {start stop : Int}

theorem slice_eq_null_iff :
    slice chars start stop = .null ↔ ¬ (0 ≤ start ∧ start ≤ stop ∧ stop ≤ chars.length) := by
  unfold slice
  split
  · rename_i inside
    exact iff_of_false nofun (not_not_intro inside)
  · rename_i outside
    exact iff_of_true rfl outside

theorem slice_eq_string_iff {piece : String} :
    slice chars start stop = .string piece ↔
      (0 ≤ start ∧ start ≤ stop ∧ stop ≤ chars.length) ∧
        piece.toList = (chars.drop start.toNat).take (stop - start).toNat := by
  unfold slice
  split
  · rename_i inside
    rw [Value.string.injEq, and_iff_right inside, String.ext_iff, String.toList_ofList, eq_comm]
  · rename_i outside
    exact iff_of_false nofun fun given => outside given.1

theorem exists_slice_of_ne_null (given : slice chars start stop ≠ .null) :
    ∃ piece, slice chars start stop = .string piece := by
  rw [ne_eq, slice_eq_null_iff, not_not] at given
  exact ⟨_, if_pos given⟩

/-- A part is the slice of its length exactly where it stands. -/
theorem slice_eq_part_iff {part : String} :
    slice chars start (start + part.length) = .string part ↔
      0 ≤ start ∧ Text.StandsAt part.toList chars start.toNat := by
  have width : (start + part.length - start).toNat = part.toList.length := by
    rw [String.length_toList]
    omega
  rw [slice_eq_string_iff, width, ← List.prefix_iff_eq_take]
  unfold Text.StandsAt
  constructor
  · rintro ⟨⟨after, _, before⟩, stands⟩
    exact ⟨after, by omega, stands⟩
  · rintro ⟨after, inside, stands⟩
    have fits := stands.length_le
    rw [List.length_drop, String.length_toList] at fits
    exact ⟨⟨after, by omega, by omega⟩, stands⟩

end Slices

section Positions

variable {text part : String}

theorem integer_eq_int {value : Int} {fit : Int32} (same : fit.toInt = value) :
    integer value = .int fit := by
  rw [integer, Text.int32?_eq_some_iff.mpr same]
  rfl

theorem count_eq_integer {value : Nat} (small : value < 2147483648) :
    count value = integer value :=
  (integer_eq_int (Int32.toInt_ofNat_of_lt small)).symm

/-- No integer is missing where a string has positions. -/
theorem substring_integer (short : text.length < 2147483647) (start : Int32) (stop : Int) :
    ofPlain (.string text) .substring [.int start, integer stop] =
      slice text.toList start.toInt stop := by
  unfold integer
  cases fits : Text.int32? stop with
  | some fit =>
      rw [← Text.int32?_eq_some_iff.mp fits]
      rfl
  | none =>
      have outside := Text.int32?_eq_none_iff.mp fits
      refine (if_neg ?_).symm
      rw [String.length_toList]
      omega

theorem plus_count (start : Int32) {value : Nat} (small : value < 2147483648) :
    ofPlain (.int start) .plus [count value] = integer (start.toInt + value) := by
  have same : (Int32.ofNat value).toInt = value := Int32.toInt_ofNat_of_lt small
  rw [← same]
  rfl

/-- A part occurs at a position if the substring there, of its length, is the part. -/
def OccursAt (text part : String) (position : Int32) : Prop :=
  ofPlain (.string text) .substring
    [.int position, ofPlain (.int position) .plus [plainAttribute (.string part) .length]] =
      .string part

theorem occursAt_iff (short : text.length < 2147483647) (short' : part.length < 2147483647)
    (position : Int32) :
    OccursAt text part position ↔
      0 ≤ position.toInt ∧ Text.StandsAt part.toList text.toList position.toInt.toNat := by
  unfold OccursAt
  rw [plainAttribute, String.length_toList, plus_count position (by omega),
    substring_integer short, slice_eq_part_iff]

theorem toInt_max_zero (start : Int32) : (max start 0).toInt = start.toInt.toNat := by
  have zero : (0 : Int32).toInt = 0 := rfl
  change (if start ≤ 0 then 0 else start).toInt = _
  split <;> rename_i sign <;> rw [Int32.le_iff_toInt_le] at sign <;> omega

/-- A position is the first one, from another one on, at which a part occurs. -/
def IsFirstFrom (text part : String) (start position : Int32) : Prop :=
  start ≤ position ∧ OccursAt text part position ∧
    ∀ other, start ≤ other → OccursAt text part other → position ≤ other

/-- Either the first position is found at which the part occurs, or the part occurs nowhere. -/
theorem indexOf_cases (short : text.length < 2147483647) (short' : part.length < 2147483647)
    (start : Int32) :
    (∃ position, ofPlain (.string text) .indexOf [.string part, .int start] = .int position ∧
      IsFirstFrom text part (max start 0) position) ∨
    ofPlain (.string text) .indexOf [.string part, .int start] = .int (-1) ∧
      ∀ position, max start 0 ≤ position → ¬ OccursAt text part position := by
  simp only [IsFirstFrom, occursAt_iff short short', Int32.le_iff_toInt_le, toInt_max_zero]
  rw [← String.length_toList] at short
  change (∃ position, indexOf text.toList part.toList start.toInt.toNat = .int position ∧ _) ∨
    indexOf text.toList part.toList start.toInt.toNat = .int (-1) ∧ _
  unfold indexOf
  split
  · rename_i beyond
    refine .inr ⟨rfl, fun position after ⟨_, stands⟩ => ?_⟩
    have inside := stands.1
    omega
  · rename_i inside
    replace inside := Nat.le_of_not_lt inside
    cases found : Text.firstOccurrence part.toList (text.toList.drop start.toInt.toNat) with
    | none =>
        have nowhere := Text.not_standsAt_of_firstOccurrence_drop inside found
        exact .inr ⟨rfl, fun position after ⟨_, stands⟩ =>
          nowhere position.toInt.toNat (by omega) stands⟩
    | some distance =>
        obtain ⟨stands, least⟩ := Text.standsAt_of_firstOccurrence_drop inside found
        have bounded := stands.1
        have same : (Int32.ofNat (start.toInt.toNat + distance)).toInt =
            ((start.toInt.toNat + distance : Nat) : Int) :=
          Int32.toInt_ofNat_of_lt (by omega)
        refine .inl ⟨Int32.ofNat (start.toInt.toNat + distance), rfl, ?_⟩
        rw [same, Int.toNat_natCast]
        refine ⟨by omega, ⟨by omega, stands⟩, fun other after ⟨_, stands'⟩ => ?_⟩
        have before := least other.toInt.toNat (by omega) stands'
        omega

/-- A position that is found is the first one. -/
theorem indexOf_eq_iff_isFirstFrom (short : text.length < 2147483647)
    (short' : part.length < 2147483647) (start position : Int32) :
    ofPlain (.string text) .indexOf [.string part, .int start] = .int position ∧ 0 ≤ position ↔
      IsFirstFrom text part (max start 0) position := by
  rcases indexOf_cases short short' start with ⟨first, answered, isFirst⟩ | ⟨answered, nowhere⟩
  · rw [answered, Value.int.injEq]
    constructor
    · rintro ⟨rfl, _⟩
      exact isFirst
    · rintro ⟨after, occurs, least⟩
      have before := least first isFirst.1 isFirst.2.1
      have same := Int32.le_antisymm (isFirst.2.2 position after occurs) before
      exact ⟨same, Int32.le_iff_toInt_le.mpr ((occursAt_iff short short' position).mp occurs).1⟩
  · rw [answered, Value.int.injEq]
    refine iff_of_false ?_ fun isFirst => nowhere position isFirst.1 isFirst.2.1
    rintro ⟨rfl, low⟩
    exact absurd low (by decide)

theorem indexOf_eq_neg_one_iff (short : text.length < 2147483647)
    (short' : part.length < 2147483647) (start : Int32) :
    ofPlain (.string text) .indexOf [.string part, .int start] = .int (-1) ↔
      ∀ position, max start 0 ≤ position → ¬ OccursAt text part position := by
  rcases indexOf_cases short short' start with ⟨first, answered, isFirst⟩ | ⟨answered, nowhere⟩
  · rw [answered, Value.int.injEq]
    refine iff_of_false ?_ fun nowhere => nowhere first isFirst.1 isFirst.2.1
    rintro rfl
    have low := ((occursAt_iff short short' _).mp isFirst.2.1).1
    exact absurd low (by decide)
  · exact iff_of_true answered nowhere

theorem exists_append_of_slice {start stop : Int} (low : 0 ≤ start) (ordered : start ≤ stop)
    (high : stop ≤ text.length) :
    ∃ before piece behind, slice text.toList start stop = .string piece ∧
      text = before ++ piece ++ behind ∧ (before.length : Int) = start ∧
        (piece.length : Int) = stop - start := by
  have within : stop ≤ text.toList.length := by rwa [String.length_toList]
  refine ⟨String.ofList (text.toList.take start.toNat), String.ofList
    ((text.toList.drop start.toNat).take (stop - start).toNat), String.ofList
    ((text.toList.drop start.toNat).drop (stop - start).toNat),
    if_pos ⟨low, ordered, within⟩, ?_, ?_, ?_⟩
  · rw [String.append_assoc, ← String.ofList_append, ← String.ofList_append, List.take_append_drop,
      List.take_append_drop, String.ofList_toList]
  · rw [String.length_ofList, List.length_take, String.length_toList]
    omega
  · rw [String.length_ofList, List.length_take, List.length_drop, String.length_toList]
    omega

theorem substring_toEnd (short : text.length < 2147483647) (start : Int32) :
    ofPlain (.string text) .substring [.int start, plainAttribute (.string text) .length] =
      slice text.toList start.toInt text.length := by
  rw [plainAttribute, String.length_toList, count_eq_integer (by omega), substring_integer short]

/-- What `get` gives at a position of the string. -/
theorem slice_eq_singleton {chars : List Char} {position : Int} (low : 0 ≤ position)
    (high : position < chars.length) :
    ∃ char, chars[position.toNat]? = some char ∧
      slice chars position (position + 1) = .string (String.singleton char) := by
  have inside : position.toNat < chars.length := by omega
  have width : (position + 1 - position).toNat = 1 := by omega
  refine ⟨chars[position.toNat], List.getElem?_eq_getElem inside,
    slice_eq_string_iff.mpr ⟨⟨low, by omega, by omega⟩, ?_⟩⟩
  rw [width, List.drop_eq_getElem_cons inside, List.take_succ_cons, List.take_zero,
    String.toList_singleton]

/-- What comes before a position and what comes behind it make up the string. -/
theorem append_of_slices {position : Int} {front behind : String}
    (cut : slice text.toList 0 position = .string front)
    (cut' : slice text.toList position text.toList.length = .string behind) :
    front ++ behind = text := by
  obtain ⟨_, frontText⟩ := slice_eq_string_iff.mp cut
  obtain ⟨inside, behindText⟩ := slice_eq_string_iff.mp cut'
  have rest : ((text.toList.length : Int) - position).toNat =
      (text.toList.drop position.toNat).length := by
    rw [List.length_drop]
    omega
  rw [rest, List.take_length] at behindText
  rw [Int.sub_zero] at frontText
  rw [← String.toList_inj, String.toList_append, frontText, behindText]
  exact List.take_append_drop _ _

theorem ofPlain_charAt (text : String) (start : Int32) :
    ofPlain (.string text) .charAt [.int start] =
      slice text.toList (if start < 0 then text.toList.length + start.toInt else start.toInt)
        ((if start < 0 then text.toList.length + start.toInt else start.toInt) + 1) :=
  rfl

/-- Counting from the end of a string leads to an integer. -/
theorem plus_length (short : text.length < 2147483647) {start : Int32} (negative : start < 0) :
    ∃ position : Int32, position.toInt = text.toList.length + start.toInt ∧
      ofPlain (plainAttribute (.string text) .length) .plus [.int start] = .int position := by
  have sign : start.toInt < 0 := Int32.lt_iff_toInt_lt.mp negative
  have least := start.le_toInt
  rw [← String.length_toList] at short
  have whole : (Int32.ofNat text.toList.length).toInt = text.toList.length :=
    Int32.toInt_ofNat_of_lt (by omega)
  have fits : (Int32.ofInt (text.toList.length + start.toInt)).toInt =
      text.toList.length + start.toInt :=
    Int32.toInt_ofInt_of_le (by omega) (by omega)
  refine ⟨_, fits, ?_⟩
  change integer ((Int32.ofNat text.toList.length).toInt + start.toInt) = _
  rw [whole, integer_eq_int fits]

/-- How the methods of a string agree with one another. -/
structure StringMethodsAgree (text part : String) (start stop : Int32) : Prop where
  found : ∀ position : Int32,
    ofPlain (.string text) .indexOf [.string part, .int start] = .int position ∧ 0 ≤ position ↔
      IsFirstFrom text part (max start 0) position
  missing : ofPlain (.string text) .indexOf [.string part, .int start] = .int (-1) ↔
    ∀ position, max start 0 ≤ position → ¬ OccursAt text part position
  outside : ofPlain (.string text) .substring [.int start, .int stop] = .null ↔
    ¬ (0 ≤ start ∧ start ≤ stop ∧ stop.toInt ≤ text.length)
  inside : 0 ≤ start → start ≤ stop → stop.toInt ≤ text.length → ∃ before piece behind,
    ofPlain (.string text) .substring [.int start, .int stop] = .string piece ∧
      text = before ++ piece ++ behind ∧ (before.length : Int) = start.toInt ∧
        (piece.length : Int) = stop.toInt - start.toInt
  toEnd : ofPlain (.string text) .substring [.int start] =
    ofPlain (.string text) .substring [.int start, plainAttribute (.string text) .length]
  get : 0 ≤ start → start.toInt < text.length → ∃ char : Char,
    text.toList[start.toInt.toNat]? = some char ∧
      ofPlain (.string text) .get [.int start] = .string (String.singleton char) ∧
      ofPlain (.string text) .substring [.int start, ofPlain (.int start) .plus [.int 1]] =
        .string (String.singleton char)
  getOutside : ¬ (0 ≤ start ∧ start.toInt < text.length) →
    ofPlain (.string text) .get [.int start] = .null
  /-- A position that is not negative counts from the start, and any other from the end. -/
  fromStart : 0 ≤ start →
    ofPlain (.string text) .charAt [.int start] = ofPlain (.string text) .get [.int start]
  fromEnd : start < 0 →
    ofPlain (.string text) .charAt [.int start] =
      ofPlain (.string text) .get
        [ofPlain (plainAttribute (.string text) .length) .plus [.int start]]
  joined : ofPlain (.string text) .substring [.int 0, .int start] ≠ .null →
    ofPlain (.string text) .substring [.int start] ≠ .null → ∃ front behind : String,
      ofPlain (.string text) .substring [.int 0, .int start] = .string front ∧
        ofPlain (.string text) .substring [.int start] = .string behind ∧ front ++ behind = text

/-- The methods of strings agree with one another, for any integers. -/
theorem stringMethods_agree (text part : String) (start stop : Int32)
    (short : text.length < 2147483647) (short' : part.length < 2147483647) :
    StringMethodsAgree text part start stop where
  found := indexOf_eq_iff_isFirstFrom short short' start
  missing := indexOf_eq_neg_one_iff short short' start
  outside := by
    rw [Int32.le_iff_toInt_le, Int32.le_iff_toInt_le, ← String.length_toList]
    exact slice_eq_null_iff
  inside := fun low ordered high => exists_append_of_slice (Int32.le_iff_toInt_le.mp low)
    (Int32.le_iff_toInt_le.mp ordered) high
  toEnd := by
    rw [substring_toEnd short, ← String.length_toList]
    rfl
  get := by
    intro low high
    rw [← String.length_toList] at high
    obtain ⟨char, placed, cut⟩ := slice_eq_singleton (Int32.le_iff_toInt_le.mp low) high
    exact ⟨char, placed, cut, (substring_integer short start (start.toInt + 1)).trans cut⟩
  getOutside := by
    intro outside
    refine slice_eq_null_iff.mpr fun given => outside ⟨Int32.le_iff_toInt_le.mpr given.1, ?_⟩
    rw [String.length_toList] at given
    omega
  fromStart := by
    intro low
    rw [ofPlain_charAt, if_neg (Int32.not_lt.mpr low)]
    rfl
  fromEnd := by
    intro negative
    obtain ⟨position, placed, moved⟩ := plus_length short negative
    rw [moved, ofPlain_charAt, if_pos negative, ← placed]
    rfl
  joined := by
    intro given given'
    obtain ⟨front, cut⟩ := exists_slice_of_ne_null given
    obtain ⟨behind, cut'⟩ := exists_slice_of_ne_null given'
    exact ⟨front, behind, cut, cut', append_of_slices cut cut'⟩

/-- A part is found behind the characters before it, however many bytes they take. -/
theorem stringMethods_agree_afterWideCharacters :
    ofPlain (.string "跳过 5s") .indexOf [.string "5s", .int (-1)] = .int 3 ∧
      IsFirstFrom "跳过 5s" "5s" (max (-1) 0) 3 := by
  have found : ofPlain (.string "跳过 5s") .indexOf [.string "5s", .int (-1)] = .int 3 := by
    decide
  have agree := stringMethods_agree "跳过 5s" "5s" (-1) 5 (by decide) (by decide)
  exact ⟨found, (agree.found 3).mp ⟨found, by decide⟩⟩

end Positions

end Method

end TreeSelector
