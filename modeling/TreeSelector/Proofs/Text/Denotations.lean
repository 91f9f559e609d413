import Mathlib.Data.Nat.Digits.Lemmas
import TreeSelector.Proofs.Text.Numerals

/-!
# What numerals denote

Digits of a radix, in either case, denote a number, and an integer behind a sign.  Exactly
the texts that denote an integer are read as one; the text written for it is the shortest of
them, and the only one of its length up to the case of letters.
-/

namespace TreeSelector.Text.Radix

variable {radix : Nat}

/-- The digits of the greatest radix in their order. -/
def numerals : List Char := "0123456789abcdefghijklmnopqrstuvwxyz".toList

/-- The digit that a character stands for, in either case. -/
def standsFor? (char : Char) : Option Nat := numerals.idxOf? char.toLower

/-- Characters are digits of a radix, at least one, whose positional value is a number. -/
def DenotesNatural (radix : Nat) (chars : List Char) (value : Nat) : Prop :=
  ∃ digits : List Nat, digits ≠ [] ∧ chars.map standsFor? = digits.map some ∧
    (∀ digit ∈ digits, digit < radix) ∧ Nat.ofDigits radix digits.reverse = value

/-- Characters denote an integer in a radix, with or without a sign. -/
inductive Denotes (radix : Nat) : List Char → Int → Prop where
  | unsigned {chars : List Char} {magnitude : Nat} :
      DenotesNatural radix chars magnitude → Denotes radix chars magnitude
  | plus {chars : List Char} {magnitude : Nat} :
      DenotesNatural radix chars magnitude → Denotes radix ('+' :: chars) magnitude
  | minus {chars : List Char} {magnitude : Nat} :
      DenotesNatural radix chars magnitude → Denotes radix ('-' :: chars) (-magnitude)

section Reading

/-- What is read as a digit is what stands for it. -/
theorem digitValue?_eq_standsFor? : digitValue? = standsFor? := by
  funext char
  rcases Nat.lt_or_ge char.toNat 128 with early | late
  · have every : ∀ code < 128, digitValue? (Char.ofNat code) = standsFor? (Char.ofNat code) := by
      decide +kernel
    rw [← Char.ofNat_toNat char]
    exact every char.toNat early
  · have beyond : ∀ last : Char, last.toNat < 128 → ¬ char ≤ last := by
      intro last bound before
      have order : char.toNat ≤ last.toNat := UInt32.le_iff_toNat_le.mp before
      omega
    have same : char.toLower = char := by
      unfold Char.toLower
      exact dif_neg fun upper => beyond 'Z' (by decide) upper.2
    have none : digitValue? char = none := by
      unfold digitValue?
      rw [if_neg fun digit => beyond '9' (by decide) digit.2,
        if_neg fun lower => beyond 'z' (by decide) lower.2,
        if_neg fun upper => beyond 'Z' (by decide) upper.2]
    have early : numerals.all (·.toNat < 128) = true := by decide +kernel
    rw [none, standsFor?, same, eq_comm, List.idxOf?_eq_none_iff]
    exact fun listed => Nat.not_lt.mpr late
      (of_decide_eq_true (List.all_eq_true.mp early char listed))

/-- A number is denoted by some characters, and a sign is no digit. -/
theorem DenotesNatural.exists_cons {chars : List Char} {value : Nat}
    (denotes : DenotesNatural radix chars value) :
    ∃ char rest, chars = char :: rest ∧ char ≠ '-' ∧ char ≠ '+' := by
  obtain ⟨digits, ever, stand, _⟩ := denotes
  rw [← digitValue?_eq_standsFor?] at stand
  cases chars with
  | nil => exact absurd (List.map_eq_nil_iff.mp stand.symm) ever
  | cons char rest =>
      refine ⟨char, rest, rfl, ?_⟩
      constructor <;> rintro rfl <;> cases digits <;> cases stand

theorem pushDigit_eq_some_iff {start value : Nat} {char : Char} :
    pushDigit radix start char = some value ↔
      ∃ digit, digitValue? char = some digit ∧ digit < radix ∧ start * radix + digit = value := by
  unfold pushDigit
  cases digitValue? char <;> simp

/-- Reading digits onto a number shifts it by one place for each of them. -/
theorem foldlM_pushDigit_eq_some_iff {chars : List Char} {start value : Nat} :
    chars.foldlM (pushDigit radix) start = some value ↔
      ∃ digits : List Nat, chars.map digitValue? = digits.map some ∧
        (∀ digit ∈ digits, digit < radix) ∧
          digits.foldl (fun value digit => digit + radix * value) start = value := by
  induction chars generalizing start with
  | nil =>
      constructor
      · rintro ⟨⟩
        exact ⟨[], rfl, nofun, rfl⟩
      · rintro ⟨digits, stand, _, rfl⟩
        rw [List.map_eq_nil_iff.mp stand.symm]
        rfl
  | cons char chars hypothesis =>
      rw [List.foldlM_cons]
      constructor
      · intro read
        obtain ⟨pushed, first, rest⟩ := Option.bind_eq_some_iff.mp read
        obtain ⟨digit, stands, proper, rfl⟩ := pushDigit_eq_some_iff.mp first
        obtain ⟨digits, stand, below, rfl⟩ := hypothesis.mp rest
        refine ⟨digit :: digits, by simp [stands, stand], by simpa [proper] using below, ?_⟩
        rw [List.foldl_cons, Nat.add_comm digit, Nat.mul_comm radix]
      · rintro ⟨digits, stand, below, rfl⟩
        cases digits with
        | nil => cases stand
        | cons digit digits =>
            obtain ⟨stands, stand⟩ := List.cons.inj stand
            obtain ⟨proper, below⟩ := List.forall_mem_cons.mp below
            refine Option.bind_eq_some_iff.mpr ⟨start * radix + digit,
              pushDigit_eq_some_iff.mpr ⟨digit, stands, proper, rfl⟩,
              hypothesis.mpr ⟨digits, stand, below, ?_⟩⟩
            rw [List.foldl_cons, Nat.add_comm digit, Nat.mul_comm radix]

/-- Horner's rule gives the positional value. -/
theorem ofDigits_reverse_eq_foldl (radix : Nat) (digits : List Nat) :
    Nat.ofDigits radix digits.reverse =
      digits.foldl (fun value digit => digit + radix * value) 0 := by
  rw [Nat.ofDigits_eq_foldr, List.foldr_reverse]
  rfl

theorem natural?_eq_some_iff {chars : List Char} {value : Nat} :
    natural? radix chars = some value ↔ DenotesNatural radix chars value := by
  cases chars with
  | nil =>
      refine iff_of_false nofun fun denotes => ?_
      obtain ⟨_, _, none, _⟩ := denotes.exists_cons
      cases none
  | cons char chars =>
      have ever : ∀ digits : List Nat, (char :: chars).map digitValue? = digits.map some →
          digits ≠ [] := by
        rintro _ stand rfl
        cases stand
      simp only [DenotesNatural, ofDigits_reverse_eq_foldl, ← digitValue?_eq_standsFor?]
      rw [natural?, foldlM_pushDigit_eq_some_iff]
      · exact exists_congr fun digits =>
          ⟨fun read => ⟨ever digits read.1, read⟩, fun read => read.2⟩
      · exact nofun

/-- Exactly the characters that denote an integer are read as that integer. -/
theorem integer?_eq_some_iff {chars : List Char} {value : Int} :
    integer? radix chars = some value ↔ Denotes radix chars value := by
  constructor
  · intro read
    unfold integer? at read
    split at read
    · rename_i chars
      rw [← integer?, integer?_minus] at read
      obtain ⟨magnitude, natural, rfl⟩ := Option.map_eq_some_iff.mp read
      exact .minus (natural?_eq_some_iff.mp natural)
    · obtain ⟨magnitude, natural, rfl⟩ := Option.map_eq_some_iff.mp read
      exact .plus (natural?_eq_some_iff.mp natural)
    · obtain ⟨magnitude, natural, rfl⟩ := Option.map_eq_some_iff.mp read
      exact .unsigned (natural?_eq_some_iff.mp natural)
  · intro denotes
    cases denotes with
    | minus natural => rw [integer?_minus, natural?_eq_some_iff.mpr natural, Option.map_some]
    | plus natural => rw [integer?, natural?_eq_some_iff.mpr natural]; rfl
    | unsigned natural =>
        obtain ⟨char, rest, rfl, unsigned⟩ := natural.exists_cons
        rw [integer?_of_unsigned unsigned, natural?_eq_some_iff.mpr natural]
        rfl

end Reading

section Writing

theorem digits_eq_reverse (binary : 2 ≤ radix) {value : Nat} (positive : 0 < value) :
    digits radix value = (Nat.digits radix value).reverse := by
  induction value using Nat.strongRecOn with
  | ind value hypothesis =>
      rw [Nat.digits_eq_cons_digits_div binary (Nat.ne_of_gt positive), List.reverse_cons]
      rcases Nat.lt_or_ge value radix with small | large
      · rw [digits_of_lt small, Nat.div_eq_of_lt small, Nat.mod_eq_of_lt small, Nat.digits_zero]
        rfl
      · have less : value / radix < value := Nat.div_lt_self positive binary
        rw [digits_of_le binary large, hypothesis _ less (Nat.div_pos large (by omega))]

theorem ofDigits_reverse_digits (binary : 2 ≤ radix) (value : Nat) :
    Nat.ofDigits radix (digits radix value).reverse = value := by
  rcases Nat.eq_zero_or_pos value with rfl | positive
  · rw [digits_of_lt (Nat.lt_of_lt_of_le Nat.zero_lt_two binary)]
    rfl
  · rw [digits_eq_reverse binary positive, List.reverse_reverse, Nat.ofDigits_digits]

/-- Nothing shorter than its text denotes a number. -/
theorem DenotesNatural.length_le {chars : List Char} {value : Nat} (binary : 2 ≤ radix)
    (denotes : DenotesNatural radix chars value) :
    (naturalText radix value).length ≤ chars.length := by
  obtain ⟨others, ever, stand, below, rfl⟩ := denotes
  have same : chars.length = others.length := by simpa using congrArg List.length stand
  have few : Nat.ofDigits radix others.reverse < radix ^ others.length := by
    rw [← List.length_reverse]
    exact Nat.ofDigits_lt_base_pow_length binary fun digit member =>
      below digit (List.mem_reverse.mp member)
  rw [naturalText, List.length_map, same]
  rcases Nat.eq_zero_or_pos (Nat.ofDigits radix others.reverse) with zero | positive
  · rw [zero, digits_of_lt (Nat.lt_of_lt_of_le Nat.zero_lt_two binary)]
    exact List.length_pos_iff.mpr ever
  · rw [digits_eq_reverse binary positive, List.length_reverse]
    exact (Nat.digits_length_le_iff binary _).mpr few

theorem getElem?_numerals : ∀ digit < 36, numerals[digit]? = some (digitChar digit) := by
  decide +kernel

theorem toLower_of_standsFor? {char : Char} {digit : Nat}
    (stands : standsFor? char = some digit) : char.toLower = digitChar digit := by
  obtain ⟨inside, here, _⟩ := List.idxOf?_eq_some_iff.mp stands
  have listed := getElem?_numerals digit inside
  rw [List.getElem?_eq_getElem inside, here] at listed
  exact Option.some.inj listed

theorem map_toLower_of_map_standsFor? {chars : List Char} {digits : List Nat}
    (stand : chars.map standsFor? = digits.map some) :
    chars.map Char.toLower = digits.map digitChar := by
  induction chars generalizing digits with
  | nil => rw [List.map_eq_nil_iff.mp stand.symm, List.map_nil, List.map_nil]
  | cons char chars hypothesis =>
      cases digits with
      | nil => cases stand
      | cons digit digits =>
          obtain ⟨stands, stand⟩ := List.cons.inj stand
          rw [List.map_cons, List.map_cons, toLower_of_standsFor? stands, hypothesis stand]

/-- In the length of its text a number is denoted by its text only, up to the case of letters. -/
theorem DenotesNatural.map_toLower {chars : List Char} {value : Nat} (binary : 2 ≤ radix)
    (denotes : DenotesNatural radix chars value)
    (same : chars.length = (naturalText radix value).length) :
    chars.map Char.toLower = naturalText radix value := by
  obtain ⟨others, ever, stand, below, rfl⟩ := denotes
  have longs : chars.length = others.length := by simpa using congrArg List.length stand
  rw [naturalText, List.length_map] at same
  have only : others.reverse = (digits radix (Nat.ofDigits radix others.reverse)).reverse := by
    refine Nat.ofDigits_inj_of_len_eq binary ?_ ?_ ?_
      (ofDigits_reverse_digits binary (Nat.ofDigits radix others.reverse)).symm
    · rw [List.length_reverse, List.length_reverse, ← longs, same]
    · exact fun digit member => below digit (List.mem_reverse.mp member)
    · exact fun digit member => digits_lt binary _ digit (List.mem_reverse.mp member)
  rw [naturalText, ← List.reverse_injective only]
  exact map_toLower_of_map_standsFor? stand

theorem isDigit_or_isLower_digitChar : ∀ digit < 36,
    (digitChar digit).isDigit = true ∨ (digitChar digit).isLower = true := by
  decide +kernel

/-- How an integer is to be written in a radix. -/
structure Writes (radix : Nat) (value : Int) (text : List Char) : Prop where
  denotes : Denotes radix text value
  shortest : ∀ other, Denotes radix other value → text.length ≤ other.length
  /-- What else of this length denotes the integer differs in the case of letters. -/
  only : ∀ other, Denotes radix other value → other.length = text.length →
    other.map Char.toLower = text
  /-- A minus sign stands before a negative integer only, and a zero leads only itself. -/
  shape : ∃ digits : List Char, text = (if value < 0 then ['-'] else []) ++ digits ∧
    (digits.head? = some '0' → digits = ['0']) ∧
    ∀ char ∈ digits, char.isDigit = true ∨ char.isLower = true

theorem integerText_natCast (magnitude : Nat) :
    integerText radix magnitude = naturalText radix magnitude :=
  if_neg (Int.not_lt.mpr (Int.natCast_nonneg magnitude))

theorem integerText_neg {magnitude : Nat} (positive : 0 < magnitude) :
    integerText radix (-magnitude) = '-' :: naturalText radix magnitude := by
  unfold integerText
  rw [if_pos (by omega), Int.natAbs_neg, Int.natAbs_natCast]

/-- The text of an integer is at most as long as any that denotes it, and is the only one of
its length up to the case of letters. -/
theorem Denotes.length_le_and_map_toLower {chars : List Char} {value : Int}
    (binary : 2 ≤ radix) (denotes : Denotes radix chars value) :
    (integerText radix value).length ≤ chars.length ∧
      (chars.length = (integerText radix value).length →
        chars.map Char.toLower = integerText radix value) := by
  cases denotes with
  | unsigned natural =>
      rw [integerText_natCast]
      exact ⟨natural.length_le binary, natural.map_toLower binary⟩
  | plus natural =>
      rw [integerText_natCast, List.length_cons]
      have long := natural.length_le binary
      exact ⟨by omega, by omega⟩
  | @minus chars magnitude natural =>
      have long := natural.length_le binary
      rw [List.length_cons]
      rcases Nat.eq_zero_or_pos magnitude with rfl | positive
      · have text : integerText radix (-(0 : Nat)) = ['0'] := by
          rw [Int.natCast_zero, Int.neg_zero]
          exact (integerText_natCast 0).trans (naturalText_zero binary)
        rw [naturalText_zero binary, List.length_singleton] at long
        rw [text, List.length_singleton]
        exact ⟨by omega, by omega⟩
      · rw [integerText_neg positive, List.length_cons]
        refine ⟨Nat.succ_le_succ long, fun same => ?_⟩
        rw [List.map_cons, natural.map_toLower binary (Nat.succ.inj same)]
        rfl

theorem writes_integerText (binary : 2 ≤ radix) (bounded : radix ≤ 36) (value : Int) :
    Writes radix value (integerText radix value) where
  denotes := integer?_eq_some_iff.mp (integer?_integerText binary bounded value)
  shortest := fun _ denotes => (denotes.length_le_and_map_toLower binary).1
  only := fun _ denotes => (denotes.length_le_and_map_toLower binary).2
  shape := by
    refine ⟨naturalText radix value.natAbs, ?_, ?_, ?_⟩
    · unfold integerText
      split <;> rfl
    · intro leading
      rcases Nat.eq_zero_or_pos value.natAbs with zero | positive
      · rw [zero, naturalText_zero binary]
      · exact absurd leading (naturalText_head?_ne_zero binary bounded positive)
    · intro char member
      obtain ⟨digit, listed, rfl⟩ := List.mem_map.mp member
      have proper := digits_lt binary value.natAbs digit listed
      exact isDigit_or_isLower_digitChar digit (Nat.lt_of_lt_of_le proper bounded)

end Writing

end TreeSelector.Text.Radix
