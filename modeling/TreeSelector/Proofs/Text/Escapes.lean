import TreeSelector.Proofs.Text.Denotations
import TreeSelector.Text.Escape

/-!
# What the body of a literal stands for

A body consists of plain characters and of escapes, each of which denotes a character.  Exactly
such bodies can be read.  Of any other body the first backslash that opens no escape is reported,
in the range where it stands, whatever characters stand before and behind it.
-/

namespace TreeSelector.Text

namespace Radix

theorem utf8Size_of_digitValue? {char : Char} {digit : Nat}
    (read : digitValue? char = some digit) : char.utf8Size = 1 := by
  have letter : char ≤ 'z' := by
    unfold digitValue? at read
    split at read
    · rename_i between
      exact Char.le_trans between.2 (by decide)
    · split at read
      · rename_i between
        exact between.2
      · split at read
        · rename_i between
          exact Char.le_trans between.2 (by decide)
        · cases read
  have small : char.val ≤ 0x7f := UInt32.le_trans letter (by decide)
  unfold Char.utf8Size
  exact if_pos small

/-- Digits have as many bytes as characters. -/
theorem byteLength_of_foldlM {radix start value : Nat} {chars : List Char}
    (read : chars.foldlM (pushDigit radix) start = some value) :
    byteLength chars = chars.length := by
  induction chars generalizing start with
  | nil => rfl
  | cons char chars hypothesis =>
      rw [List.foldlM_cons] at read
      obtain ⟨next, pushed, onward⟩ := Option.bind_eq_some_iff.mp read
      obtain ⟨digit, single, _⟩ := Option.bind_eq_some_iff.mp pushed
      rw [byteLength, utf8Size_of_digitValue? single, hypothesis onward, List.length_cons,
        Nat.add_comm]

theorem byteLength_of_natural? {radix value : Nat} {chars : List Char}
    (read : natural? radix chars = some value) : byteLength chars = chars.length := by
  cases chars with
  | nil => rfl
  | cons char chars => exact byteLength_of_foldlM read

end Radix

namespace Escape

/-- The letters that stand for a character behind a backslash, each with this character. -/
def letters : List (Char × Char) :=
  [('\\', '\\'), ('"', '"'), ('\'', '\''), ('n', '\n'), ('r', '\r'), ('t', '\t'), ('b', '\x08')]

/-- The escapes, each with the character that it denotes: a backslash with one of the letters, or
with the hexadecimal digits of the character's code, two of them behind `x` and four behind `u`. -/
inductive Denotes : List Char → Char → Prop where
  | letter {letter char : Char} : (letter, char) ∈ letters → Denotes ['\\', letter] char
  | short {digits : List Char} {char : Char} : digits.length = 2 →
      Radix.DenotesNatural 16 digits char.toNat → Denotes ('\\' :: 'x' :: digits) char
  | long {digits : List Char} {char : Char} : digits.length = 4 →
      Radix.DenotesNatural 16 digits char.toNat → Denotes ('\\' :: 'u' :: digits) char

/-- A body of plain characters and escapes stands for the characters and for what the escapes
denote. -/
inductive StandsFor : List Char → List Char → Prop where
  | nil : StandsFor [] []
  | plain {char : Char} {body text : List Char} :
      char ≠ '\\' → StandsFor body text → StandsFor (char :: body) (char :: text)
  | escape {written : List Char} {char : Char} {body text : List Char} :
      Denotes written char → StandsFor body text → StandsFor (written ++ body) (char :: text)

/-- A body begins with a backslash but with no escape. -/
def IsStray (body : List Char) : Prop :=
  body.head? = some '\\' ∧ ∀ written char, Denotes written char → ¬ written <+: body

section Escapes

variable {letter char : Char} {digits rest : List Char} {width : Nat}

theorem simple?_eq_some_iff : simple? letter = some char ↔ (letter, char) ∈ letters := by
  constructor
  · intro known
    unfold simple? at known
    split at known <;> cases known <;> decide
  · intro listed
    simp only [letters, List.mem_cons, Prod.mk.injEq, List.not_mem_nil, or_false] at listed
    rcases listed with ⟨rfl, rfl⟩ | ⟨rfl, rfl⟩ | ⟨rfl, rfl⟩ | ⟨rfl, rfl⟩ | ⟨rfl, rfl⟩ |
      ⟨rfl, rfl⟩ | ⟨rfl, rfl⟩ <;> rfl

theorem scalar?_eq_some_iff {code : Nat} : scalar? code = some char ↔ char.toNat = code := by
  unfold scalar?
  constructor
  · intro named
    obtain ⟨valid, same⟩ := Option.ite_none_right_eq_some.mp named
    rw [← Option.some.inj same, Char.ofNat, dif_pos valid]
    rfl
  · rintro rfl
    rw [Char.ofNat_toNat]
    exact if_pos char.valid

theorem hexScalar?_eq_some_iff : hexScalar? width digits = some char ↔
    digits.length = width ∧ Radix.DenotesNatural 16 digits char.toNat := by
  simp [hexScalar?, Option.bind_eq_some_iff, scalar?_eq_some_iff, Radix.natural?_eq_some_iff]

/-- What an escape is, in terms of how it is read. -/
theorem denotes_iff {written : List Char} : Denotes written char ↔
    (∃ letter, written = ['\\', letter] ∧ simple? letter = some char) ∨
      ∃ letter width digits, written = '\\' :: letter :: digits ∧ hexWidth? letter = some width ∧
        hexScalar? width digits = some char := by
  constructor
  · rintro (listed | ⟨size, named⟩ | ⟨size, named⟩)
    · exact .inl ⟨_, rfl, simple?_eq_some_iff.mpr listed⟩
    · exact .inr ⟨_, 2, _, rfl, rfl, hexScalar?_eq_some_iff.mpr ⟨size, named⟩⟩
    · exact .inr ⟨_, 4, _, rfl, rfl, hexScalar?_eq_some_iff.mpr ⟨size, named⟩⟩
  · rintro (⟨letter, rfl, known⟩ | ⟨letter, width, digits, rfl, wide, read⟩)
    · exact .letter (simple?_eq_some_iff.mp known)
    · obtain ⟨size, named⟩ := hexScalar?_eq_some_iff.mp read
      unfold hexWidth? at wide
      split at wide <;> cases wide
      · exact .short size named
      · exact .long size named

theorem utf8Size_of_simple? (known : simple? letter = some char) : letter.utf8Size = 1 := by
  unfold simple? at known
  split at known <;> first | rfl | cases known

theorem utf8Size_of_hexWidth? (known : hexWidth? letter = some width) :
    letter.utf8Size = 1 := by
  unfold hexWidth? at known
  split at known <;> first | rfl | cases known

theorem simple?_of_hexWidth? (known : hexWidth? letter = some width) : simple? letter = none := by
  unfold hexWidth? at known
  split at known <;> first | rfl | cases known

theorem byteLength_of_hexScalar? (read : hexScalar? width digits = some char) :
    byteLength digits = width := by
  obtain ⟨exact, read⟩ := Option.ite_none_right_eq_some.mp read
  obtain ⟨value, digital, _⟩ := Option.bind_eq_some_iff.mp read
  rw [Radix.byteLength_of_natural? digital, exact]

theorem byteLength_escape (single : letter.utf8Size = 1) (rest : List Char) :
    byteLength ('\\' :: letter :: rest) = 2 + byteLength rest := by
  rw [byteLength, byteLength, single, ← Nat.add_assoc]
  rfl

end Escapes

section Reading

variable {offset : Nat} {letter char : Char} {digits rest written body text : List Char}
  {width : Nat}

theorem decodeFrom_numeric (wide : hexWidth? letter = some width)
    (read : hexScalar? width digits = some char) :
    decodeFrom offset ('\\' :: letter :: (digits ++ rest)) =
      (decodeFrom (offset + 2 + width) rest).map (char :: ·) := by
  have size : digits.length = width := (hexScalar?_eq_some_iff.mp read).1
  rw [decodeFrom]
  simp only [simple?_of_hexWidth? wide, wide, List.take_left' size, List.drop_left' size, read]

/-- An escape reads as what it denotes, whatever stands behind it. -/
theorem Denotes.decodeFrom_append (denotes : Denotes written char) (offset : Nat)
    (rest : List Char) :
    decodeFrom offset (written ++ rest) =
      (decodeFrom (offset + byteLength written) rest).map (char :: ·) := by
  rcases denotes_iff.mp denotes with
    ⟨letter, rfl, known⟩ | ⟨letter, width, digits, rfl, wide, read⟩
  · rw [byteLength_escape (utf8Size_of_simple? known)]
    exact decodeFrom_simple known
  · rw [byteLength_escape (utf8Size_of_hexWidth? wide), byteLength_of_hexScalar? read,
      ← Nat.add_assoc]
    exact decodeFrom_numeric wide read

/-- A front that can be read is read, whatever stands behind it. -/
theorem StandsFor.decodeFrom_append (stands : StandsFor body text) (offset : Nat)
    (rest : List Char) :
    decodeFrom offset (body ++ rest) =
      (decodeFrom (offset + byteLength body) rest).map (text ++ ·) := by
  induction stands generalizing offset with
  | nil =>
      rw [List.nil_append, byteLength, Nat.add_zero]
      cases decodeFrom offset rest <;> rfl
  | @plain char body text plain _ hypothesis =>
      rw [List.cons_append, decodeFrom_plain plain, hypothesis, byteLength, Nat.add_assoc]
      cases decodeFrom (offset + (char.utf8Size + byteLength body)) rest <;> rfl
  | @escape written char body text denotes _ hypothesis =>
      rw [List.append_assoc, denotes.decodeFrom_append, hypothesis, byteLength_append,
        Nat.add_assoc]
      cases decodeFrom (offset + (byteLength written + byteLength body)) rest <;> rfl

/-- Reading stops at a backslash with which no escape begins. -/
theorem IsStray.decodeFrom_eq_error (stray : IsStray body) (offset : Nat) :
    ∃ sequence after, body = sequence ++ after ∧ sequence.head? = some '\\' ∧
      decodeFrom offset body =
        .error ⟨String.ofList sequence, offset, offset + byteLength sequence⟩ := by
  obtain ⟨backslash, unopened⟩ := stray
  fun_cases decodeFrom offset body with
  | case1 => cases backslash
  | case2 => exact ⟨['\\'], [], rfl, rfl, rfl⟩
  | case3 letter rest char known =>
      have denotes : Denotes ['\\', letter] char := denotes_iff.mpr (.inl ⟨letter, rfl, known⟩)
      exact absurd ⟨rest, rfl⟩ (unopened _ char denotes)
  | case4 letter rest unknown narrow =>
      refine ⟨['\\', letter], rest, rfl, rfl, ?_⟩
      rw [byteLength, byteLength, byteLength, Nat.add_zero, ← Nat.add_assoc]
      rfl
  | case5 letter rest unknown width wide digits unread =>
      refine ⟨'\\' :: letter :: digits, rest.drop width, ?_, rfl, ?_⟩
      · rw [List.cons_append, List.cons_append, List.take_append_drop]
      · rw [byteLength_escape (utf8Size_of_hexWidth? wide), Nat.add_assoc]
  | case6 letter rest unknown width wide digits char read =>
      have denotes : Denotes ('\\' :: letter :: digits) char :=
        denotes_iff.mpr (.inr ⟨letter, width, digits, rfl, wide, read⟩)
      refine absurd ⟨rest.drop width, ?_⟩ (unopened _ char denotes)
      rw [List.cons_append, List.cons_append, List.take_append_drop]
  | case7 char rest lone followed =>
      obtain rfl := Option.some.inj backslash
      cases rest with
      | nil => exact absurd rfl (lone rfl)
      | cons letter rest => exact absurd rfl (followed letter rest rfl)

theorem Denotes.ne_nil (denotes : Denotes written char) : written ≠ [] := by
  cases denotes <;> exact List.cons_ne_nil _ _

/-- Of every body a front can be read, up to its end or to a stray backslash. -/
theorem exists_readable_front (body : List Char) : ∃ front text rest, body = front ++ rest ∧
    StandsFor front text ∧ (rest = [] ∨ IsStray rest) := by
  induction size : body.length using Nat.strongRecOn generalizing body with
  | ind size hypothesis =>
      subst size
      -- on the length, since an escape takes several characters at once
      by_cases opened : ∃ written char, Denotes written char ∧ written <+: body
      · obtain ⟨written, char, denotes, behind, rfl⟩ := opened
        have shorter : behind.length < (written ++ behind).length := by
          have some : 0 < written.length := List.length_pos_iff.mpr denotes.ne_nil
          rw [List.length_append]
          omega
        obtain ⟨front, text, rest, rfl, stands, stops⟩ := hypothesis _ shorter behind rfl
        exact ⟨written ++ front, char :: text, rest, (List.append_assoc _ _ _).symm,
          .escape denotes stands, stops⟩
      · cases body with
        | nil => exact ⟨[], [], [], rfl, .nil, .inl rfl⟩
        | cons char body =>
            by_cases backslash : char = '\\'
            · have unopened : ∀ written denoted, Denotes written denoted →
                  ¬ written <+: char :: body :=
                fun written denoted denotes begins => opened ⟨written, denoted, denotes, begins⟩
              exact ⟨[], [], char :: body, rfl, .nil, .inr ⟨congrArg some backslash, unopened⟩⟩
            · obtain ⟨front, text, rest, rfl, stands, stops⟩ :=
                hypothesis _ (Nat.lt_succ_self _) body rfl
              exact ⟨char :: front, char :: text, rest, rfl, .plain backslash stands, stops⟩

/-- A bad escape is reported of the first stray backslash: everything in front of it can be
read. -/
theorem exists_stray_of_error {bad : BadEscape}
    (failed : decodeFrom offset body = .error bad) :
    ∃ before sequence after text, body = before ++ (sequence ++ after) ∧ StandsFor before text ∧
      IsStray (sequence ++ after) ∧ sequence.head? = some '\\' ∧
      bad = ⟨String.ofList sequence, offset + byteLength before,
        offset + byteLength before + byteLength sequence⟩ := by
  obtain ⟨before, text, rest, rfl, stands, rfl | stray⟩ := exists_readable_front body
  · rw [stands.decodeFrom_append, decodeFrom] at failed
    cases failed
  · obtain ⟨sequence, after, rfl, begins, stops⟩ :=
      stray.decodeFrom_eq_error (offset + byteLength before)
    rw [stands.decodeFrom_append, stops] at failed
    exact ⟨before, sequence, after, text, rfl, stands, stray, begins,
      (Except.error.inj failed).symm⟩

theorem StandsFor.decode_eq_ok (stands : StandsFor body text) : decode body = .ok text := by
  have read := stands.decodeFrom_append 0 []
  rw [List.append_nil, decodeFrom, Except.map, List.append_nil] at read
  exact read

/-- Exactly the bodies that stand for a text can be read, and they are read as that text. -/
theorem decode_eq_ok_iff : decode body = .ok text ↔ StandsFor body text := by
  refine ⟨fun read => ?_, StandsFor.decode_eq_ok⟩
  obtain ⟨front, found, rest, rfl, stands, rfl | stray⟩ := exists_readable_front body
  · rw [List.append_nil] at read ⊢
    obtain rfl := Except.ok.inj (stands.decode_eq_ok.symm.trans read)
    exact stands
  · obtain ⟨sequence, after, _, _, stops⟩ := stray.decodeFrom_eq_error (0 + byteLength front)
    rw [decode, stands.decodeFrom_append, stops] at read
    cases read

/-- Reading a body is exact.  It succeeds just where the body consists of plain characters and
escapes, with the text for which these stand.  Otherwise it reports a sequence by where it begins
and ends in the body: a backslash with which no escape begins, behind a front that can be read. -/
theorem decode_reads_exactly (body : List Char) :
    (∀ text, decode body = .ok text ↔ StandsFor body text) ∧
      ∀ bad, decode body = .error bad →
        ∃ before sequence after, body = before ++ (sequence ++ after) ∧
          bad.start = byteLength before ∧ bad.stop = byteLength (before ++ sequence) ∧
          bad.sequence = String.ofList sequence ∧ sequence.head? = some '\\' ∧
          (∃ text, decode before = .ok text) ∧
          ∀ written char, Denotes written char → ¬ written <+: sequence ++ after := by
  refine ⟨fun text => decode_eq_ok_iff, fun bad failed => ?_⟩
  obtain ⟨before, sequence, after, text, split, stands, stray, begins, rfl⟩ :=
    exists_stray_of_error failed
  refine ⟨before, sequence, after, split, Nat.zero_add _, ?_, rfl, begins,
    ⟨text, stands.decode_eq_ok⟩, stray.2⟩
  rw [byteLength_append]
  exact congrArg (· + byteLength sequence) (Nat.zero_add _)

/-- One character of two bytes is not taken for two digits. -/
example : decode "é\\xé".toList = .error ⟨"\\xé", 2, 6⟩ := by
  decide +kernel

end Reading

/-- The sequence stands in the body where it is reported, if the body begins at the offset. -/
def BadEscape.StandsIn (bad : BadEscape) (offset : Nat) (body : List Char) : Prop :=
  ∃ before sequence after, body = before ++ (sequence ++ after) ∧
    bad.start = offset + byteLength before ∧ bad.stop = bad.start + byteLength sequence ∧
    bad.sequence = String.ofList sequence ∧ sequence ≠ []

/-- A bad escape stands in the body it was found in. -/
theorem decodeFrom_error {offset : Nat} {body : List Char} {bad : BadEscape}
    (read : decodeFrom offset body = .error bad) : bad.StandsIn offset body := by
  obtain ⟨before, sequence, after, text, split, _, _, begins, rfl⟩ := exists_stray_of_error read
  refine ⟨before, sequence, after, split, rfl, rfl, rfl, ?_⟩
  rintro rfl
  cases begins

end Escape

end TreeSelector.Text
