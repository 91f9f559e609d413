import TreeSelector.Text.Radix

/-!
# Numerals read back

The text of a number in a radix consists of digits, and reading it gives the number
back; so does reading the text of an integer with its sign.
-/

namespace TreeSelector.Text.Radix

theorem digitValue?_digitChar : ∀ digit < 36, digitValue? (digitChar digit) = some digit := by
  decide +kernel

theorem isDigit_digitChar : ∀ digit < 10, (digitChar digit).isDigit = true := by
  decide +kernel

theorem digitChar_ne_zero : ∀ digit < 36, digit ≠ 0 → digitChar digit ≠ '0' := by
  decide +kernel

theorem digitChar_unsigned : ∀ digit < 36, digitChar digit ≠ '-' ∧ digitChar digit ≠ '+' := by
  decide +kernel

/-- Without a sign an integer is read like a number. -/
theorem integer?_of_unsigned {radix : Nat} {char : Char} {chars : List Char}
    (unsigned : char ≠ '-' ∧ char ≠ '+') :
    integer? radix (char :: chars) = (natural? radix (char :: chars)).map Int.ofNat := by
  unfold integer?
  split
  · rename_i same
    exact absurd (List.cons.inj same).1 unsigned.1
  · rename_i same
    exact absurd (List.cons.inj same).1 unsigned.2
  · rfl

theorem integer?_minus (radix : Nat) (chars : List Char) :
    integer? radix ('-' :: chars) =
      (natural? radix chars).map fun magnitude : Nat => -(magnitude : Int) := by
  rw [integer?]
  cases natural? radix chars <;> rfl

section Digits

variable {radix : Nat}

theorem digits_of_lt {value : Nat} (small : value < radix) : digits radix value = [value] := by
  rw [digits, dif_pos (.inr small)]

variable (binary : 2 ≤ radix)

include binary

theorem digits_of_le {value : Nat} (large : radix ≤ value) :
    digits radix value = digits radix (value / radix) ++ [value % radix] := by
  rw [digits, dif_neg (by omega)]

theorem digits_lt (value : Nat) : ∀ digit ∈ digits radix value, digit < radix := by
  induction value using Nat.strongRecOn with
  | ind value hypothesis =>
      rcases Nat.lt_or_ge value radix with small | large
      · rw [digits_of_lt small]
        simpa using small
      · have less : value / radix < value := Nat.div_lt_self (by omega) (by omega)
        rw [digits_of_le binary large]
        intro digit member
        rcases List.mem_append.mp member with front | last
        · exact hypothesis _ less digit front
        · rw [List.mem_singleton.mp last]
          exact Nat.mod_lt value (by omega)

theorem digits_ne_nil (value : Nat) : digits radix value ≠ [] := by
  rcases Nat.lt_or_ge value radix with small | large
  · simp [digits_of_lt small]
  · simp [digits_of_le binary large]

/-- Only zero begins with a zero. -/
theorem digits_head?_ne_zero {value : Nat} (positive : 0 < value) :
    (digits radix value).head? ≠ some 0 := by
  induction value using Nat.strongRecOn with
  | ind value hypothesis =>
      rcases Nat.lt_or_ge value radix with small | large
      · rw [digits_of_lt small]
        simpa using Nat.ne_of_gt positive
      · have less : value / radix < value := Nat.div_lt_self (by omega) (by omega)
        rw [digits_of_le binary large, List.head?_append]
        have fewer := hypothesis (value / radix) less (Nat.div_pos large (by omega))
        cases front : digits radix (value / radix) with
        | nil => exact absurd front (digits_ne_nil binary _)
        | cons digit rest => rwa [front] at fewer

theorem pushDigit_digitChar (bounded : radix ≤ 36) {digit : Nat} (proper : digit < radix)
    (value : Nat) : pushDigit radix value (digitChar digit) = some (value * radix + digit) := by
  unfold pushDigit
  rw [digitValue?_digitChar digit (by omega)]
  exact if_pos proper

theorem naturalText_zero : naturalText radix 0 = ['0'] := by
  rw [naturalText, digits_of_lt (Nat.lt_of_lt_of_le Nat.zero_lt_two binary)]
  rfl

theorem naturalText_head?_ne_zero (bounded : radix ≤ 36) {value : Nat} (positive : 0 < value) :
    (naturalText radix value).head? ≠ some '0' := by
  have proper := digits_lt binary value
  have leading := digits_head?_ne_zero binary positive
  unfold naturalText
  cases listed : digits radix value with
  | nil => simp
  | cons digit rest =>
      rw [listed] at proper leading
      have other : digit ≠ 0 := fun zero => leading (congrArg some zero)
      have small := Nat.lt_of_lt_of_le (proper digit List.mem_cons_self) bounded
      simpa using digitChar_ne_zero digit small other

/-- No digit is a sign. -/
theorem exists_naturalText_unsigned (bounded : radix ≤ 36) (value : Nat) :
    ∃ char chars, naturalText radix value = char :: chars ∧ char ≠ '-' ∧ char ≠ '+' := by
  obtain ⟨digit, rest, listed⟩ := List.exists_cons_of_ne_nil (digits_ne_nil binary value)
  have proper := digits_lt binary value digit (listed ▸ List.mem_cons_self)
  refine ⟨digitChar digit, rest.map digitChar, ?_,
    digitChar_unsigned digit (Nat.lt_of_lt_of_le proper bounded)⟩
  rw [naturalText, listed, List.map_cons]

/-- Reading the digits of a number one by one builds up the number. -/
theorem foldlM_digits (bounded : radix ≤ 36) (value : Nat) :
    (naturalText radix value).foldlM (pushDigit radix) 0 = some value := by
  unfold naturalText
  induction value using Nat.strongRecOn with
  | ind value hypothesis =>
      rcases Nat.lt_or_ge value radix with small | large
      · rw [digits_of_lt small, List.map_cons, List.map_nil, List.foldlM_cons,
          pushDigit_digitChar binary bounded small, Nat.zero_mul, Nat.zero_add]
        rfl
      · have less : value / radix < value := Nat.div_lt_self (by omega) (by omega)
        have proper : value % radix < radix := Nat.mod_lt value (by omega)
        rw [digits_of_le binary large, List.map_append, List.foldlM_append, hypothesis _ less,
          List.map_cons, List.map_nil]
        change [digitChar (value % radix)].foldlM (pushDigit radix) (value / radix) = some value
        rw [List.foldlM_cons, pushDigit_digitChar binary bounded proper, Nat.mul_comm,
          Nat.div_add_mod]
        rfl

/-- A number is read back from its text. -/
theorem natural?_naturalText (bounded : radix ≤ 36) (value : Nat) :
    natural? radix (naturalText radix value) = some value := by
  have whole := foldlM_digits binary bounded value
  cases text : naturalText radix value with
  | nil => exact absurd (List.map_eq_nil_iff.mp text) (digits_ne_nil binary value)
  | cons char chars => rwa [text] at whole

/-- An integer is read back from its text. -/
theorem integer?_integerText (bounded : radix ≤ 36) (value : Int) :
    integer? radix (integerText radix value) = some value := by
  have magnitude := natural?_naturalText binary bounded value.natAbs
  unfold integerText
  split
  · rw [integer?_minus, magnitude, Option.map_some]
    congr 1
    omega
  · obtain ⟨char, chars, text, unsigned⟩ :=
      exists_naturalText_unsigned binary bounded value.natAbs
    rw [text, integer?_of_unsigned unsigned, ← text, magnitude, Option.map_some]
    congr 1
    simp only [Int.ofNat_eq_natCast]
    omega

end Digits

theorem isDigit_of_mem_naturalText {value : Nat} :
    ∀ char ∈ naturalText 10 value, char.isDigit = true := by
  intro char member
  obtain ⟨digit, listed, rfl⟩ := List.mem_map.mp member
  exact isDigit_digitChar digit (digits_lt (by decide) value digit listed)

theorem naturalText_ne_nil (value : Nat) : naturalText 10 value ≠ [] := by
  intro none
  exact digits_ne_nil (by decide) value (List.map_eq_nil_iff.mp none)

/-- A decimal numeral begins with a digit. -/
theorem exists_naturalText_cons (value : Nat) :
    ∃ char chars, naturalText 10 value = char :: chars ∧ char.isDigit = true := by
  obtain ⟨char, chars, text⟩ := List.exists_cons_of_ne_nil (naturalText_ne_nil value)
  exact ⟨char, chars, text, isDigit_of_mem_naturalText char (text ▸ List.mem_cons_self)⟩

/-- A decimal numeral begins with a digit or a minus sign. -/
theorem exists_integerText_cons (value : Int) : ∃ char chars,
    integerText 10 value = char :: chars ∧ (char = '-' ∨ char.isDigit = true) := by
  unfold integerText
  split
  · exact ⟨_, _, rfl, .inl rfl⟩
  · obtain ⟨char, chars, text, digit⟩ := exists_naturalText_cons value.natAbs
    exact ⟨char, chars, text, .inr digit⟩

end TreeSelector.Text.Radix

namespace TreeSelector.Text

/-- A run of characters is cut off where the next character is not of its kind. -/
theorem takeWhile_append_of_ends {keep : Char → Bool} {taken rest : List Char}
    (all : ∀ char ∈ taken, keep char = true) (ends : ∀ char ∈ rest.head?, keep char = false) :
    (taken ++ rest).takeWhile keep = taken ∧ (taken ++ rest).dropWhile keep = rest := by
  rw [List.takeWhile_append_of_pos all, List.dropWhile_append_of_pos all]
  cases rest with
  | nil => exact ⟨List.append_nil taken, rfl⟩
  | cons char rest =>
      have stops : ¬ keep char = true := Bool.eq_false_iff.mp (ends char rfl)
      rw [List.takeWhile_cons_of_neg stops, List.dropWhile_cons_of_neg stops, List.append_nil]
      exact ⟨rfl, rfl⟩

theorem int32?_eq_some_iff {value : Int} {fit : Int32} :
    int32? value = some fit ↔ fit.toInt = value := by
  constructor
  · intro fits
    unfold int32? at fits
    split at fits
    · obtain rfl := Option.some.inj fits
      exact Int32.toInt_ofInt_of_le (by omega) (by omega)
    · cases fits
  · rintro rfl
    have least := fit.le_toInt
    have most := fit.toInt_lt
    unfold int32?
    rw [if_pos (by omega), Int32.ofInt_toInt]

theorem int32?_eq_none_iff {value : Int} :
    int32? value = none ↔ ¬ (-2147483648 ≤ value ∧ value ≤ 2147483647) := by
  unfold int32?
  split
  · rename_i fits
    exact iff_of_false nofun (not_not_intro fits)
  · rename_i large
    exact iff_of_true rfl large

theorem int32?_toInt (value : Int32) : int32? value.toInt = some value :=
  int32?_eq_some_iff.mpr rfl

theorem uint32?_toNat (value : UInt32) : uint32? value.toNat = some value := by
  have most := value.toNat_lt
  unfold uint32?
  rw [if_pos (by omega), UInt32.ofNat_toNat]

theorem uint64?_toNat (value : UInt64) : uint64? value.toNat = some value := by
  have most := value.toNat_lt
  unfold uint64?
  rw [if_pos (by omega), UInt64.ofNat_toNat]

end TreeSelector.Text
