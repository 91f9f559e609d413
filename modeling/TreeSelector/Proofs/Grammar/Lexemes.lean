import TreeSelector.Proofs.Grammar.Reads
import TreeSelector.Proofs.Grammar.Tokens

/-!
# Lexemes

A source can be cut into lexemes without any knowledge of the grammar: a lexeme is a string, a
number, a name or a sign, and takes as many characters as it can get.  Where it ends depends on
no more than the next character, so it ends there as well if blanks come next.  Most scanners
of the grammar either cut off a whole lexeme or refuse it for what it is; those for the signs
that other signs begin with can also cut off a part of one.
-/

namespace TreeSelector.Grammar.Token

open Reader (isBlank)

/-- Signs that begin no other sign and no number. -/
def plainSigns : List String :=
  ["<<", "&&", "||", "!^=", "!*=", "!$=", "!~=", "!=", "^=", "*=", "$=", "~=", ">=", "<=", "=",
    "+", "[", "]", "\x7b", "\x7d", "(", ")", ",", ".", "@"]

/-- All signs, none of them behind one that it begins with. -/
def signs : List String := plainSigns ++ ["<", ">", "-"]

def sign : Scanner := anyOf (signs.map exactly)

/-- Cuts off a lexeme, whichever it is. -/
def lexeme : Scanner := anyOf [text, integer, name, sign]

/-- Whether a sign and the character behind it begin a longer lexeme. -/
def sticks (spelling : String) (char : Char) : Bool :=
  match spelling with
  | "<" => char = '<' || char = '='
  | ">" => char = '='
  | "-" => char.isDigit
  | _ => false

theorem anyOf_cons (scanner : Scanner) (scanners : List Scanner) (source : List Char) :
    anyOf (scanner :: scanners) source = (scanner source).or (anyOf scanners source) := by
  unfold anyOf
  rw [List.findSome?_cons]
  cases scanner source <;> rfl

theorem lexeme_eq (source : List Char) : lexeme source =
    (text source).or ((integer source).or ((name source).or (sign source))) := by
  unfold lexeme
  rw [anyOf_cons, anyOf_cons, anyOf_cons, anyOf_cons]
  exact congrArg _ (congrArg _ (congrArg _ (Option.or_none)))

section Splits

variable {source taken rest : List Char}

theorem stringBody_append (quote : Char) (source : List Char) :
    (stringBody quote source).1 ++ (stringBody quote source).2 = source := by
  fun_induction stringBody quote source <;> simp_all

theorem string_eq_some {quote : Char} (cut : string quote source = some (taken, rest)) :
    ∃ body, taken = quote :: body ++ [quote] ∧ source = taken ++ rest ∧
      stringBody quote (body ++ quote :: rest) = (body, quote :: rest) := by
  cases source with
  | nil => cases cut
  | cons opening source =>
      rw [string] at cut
      split at cut
      · rename_i same
        obtain rfl := same
        have whole := stringBody_append opening source
        split at cut
        · rename_i body closing behind read
          split at cut
          · rename_i closed
            obtain rfl := closed
            obtain ⟨rfl, rfl⟩ := Prod.mk.inj (Option.some.inj cut)
            rw [read] at whole
            refine ⟨body, rfl, ?_, ?_⟩
            · rw [← whole]
              simp
            · rw [whole, read]
          · cases cut
        · cases cut
      · cases cut

theorem string_of_text (cut : text source = some (taken, rest)) :
    ∃ quote, (quote = '"' ∨ quote = '\'') ∧ string quote source = some (taken, rest) := by
  obtain ⟨scanner, listed, cuts⟩ := List.exists_of_findSome?_eq_some cut
  rcases List.mem_cons.mp listed with rfl | listed
  · exact ⟨'"', .inl rfl, cuts⟩
  · obtain rfl := List.mem_singleton.mp listed
    exact ⟨'\'', .inr rfl, cuts⟩

theorem integer_eq_some (cut : integer source = some (taken, rest)) :
    (∃ char part, taken = char :: part ∧ char.isDigit = true ∧ digits source = some (taken, rest)) ∨
      ∃ part, taken = '-' :: part ∧ source = taken ++ rest ∧
        digits (part ++ rest) = some (part, rest) := by
  unfold integer at cut
  split at cut
  · obtain ⟨⟨part, behind⟩, found, same⟩ := Option.map_eq_some_iff.mp cut
    obtain ⟨rfl, rfl⟩ := Prod.mk.inj same
    obtain ⟨_, _, rfl, _⟩ := digits_eq_some found
    exact .inr ⟨part, rfl, rfl, found⟩
  · obtain ⟨some, all, _, _⟩ := digits_eq_some cut
    obtain ⟨char, part, rfl⟩ := List.exists_cons_of_ne_nil some
    exact .inl ⟨char, part, rfl, all char List.mem_cons_self, cut⟩

theorem sign_eq_some (cut : sign source = some (taken, rest)) :
    ∃ spelling ∈ signs, taken = spelling.toList ∧ source = spelling.toList ++ rest := by
  obtain ⟨_, among, cuts⟩ := List.exists_of_findSome?_eq_some cut
  obtain ⟨spelling, listed, rfl⟩ := List.mem_map.mp among
  exact ⟨spelling, listed, exactly_eq_some cuts⟩

/-- What a sign begins with begins nothing else, apart from a minus sign. -/
theorem head_of_mem_signs {spelling : String} (listed : spelling ∈ signs) :
    ∃ char part, spelling.toList = char :: part ∧ (char ≠ '"' ∧ char ≠ '\'') ∧
      char.isDigit = false ∧ isNameStart char = false ∧ isBlank char = false := by
  have all : (signs.all fun spelling => spelling.toList.head?.any fun char =>
      (char != '"' && char != '\'') && !char.isDigit && !isNameStart char && !isBlank char) =
        true := by
    decide +kernel
  have here := List.all_eq_true.mp all spelling listed
  cases shape : spelling.toList with
  | nil => simp [shape] at here
  | cons char part =>
      refine ⟨char, part, rfl, ?_⟩
      simpa [shape, and_assoc] using here

theorem not_isBlank_of_isNameChar {char : Char} (letter : isNameChar char = true) :
    isBlank char = false := by
  refine Bool.eq_false_iff.mpr fun blank => ?_
  simp only [isBlank, Bool.or_eq_true, decide_eq_true_eq] at blank
  rcases blank with ((rfl | rfl) | rfl) | rfl <;> exact absurd letter (by decide)

/-- A lexeme is the front of the source, and begins with a character that is not blank. -/
theorem lexeme_eq_some (cut : lexeme source = some (taken, rest)) :
    source = taken ++ rest ∧ ∃ char part, taken = char :: part ∧ isBlank char = false := by
  obtain ⟨scanner, listed, cuts⟩ := List.exists_of_findSome?_eq_some cut
  simp only [List.mem_cons, List.not_mem_nil, or_false] at listed
  rcases listed with rfl | rfl | rfl | rfl
  · obtain ⟨quote, quotes, cuts⟩ := string_of_text cuts
    obtain ⟨body, rfl, split, _⟩ := string_eq_some cuts
    exact ⟨split, quote, body ++ [quote], rfl, by rcases quotes with rfl | rfl <;> rfl⟩
  · rcases integer_eq_some cuts with ⟨char, part, rfl, digit, cuts⟩ | ⟨part, rfl, split, _⟩
    · exact ⟨(digits_eq_some cuts).2.2.1, char, part, rfl,
        not_isBlank_of_isNameChar (isNameChar_of_isDigit digit)⟩
    · exact ⟨split, '-', part, rfl, rfl⟩
  · obtain ⟨⟨char, part, rfl, starts, _⟩, split, _⟩ := isName_of_name cuts
    exact ⟨split, char, part, rfl, not_isBlank_of_isNameChar (isNameChar_of_isNameStart starts)⟩
  · obtain ⟨spelling, listed, rfl, split⟩ := sign_eq_some cuts
    obtain ⟨char, part, shape, _, _, _, solid⟩ := head_of_mem_signs listed
    exact ⟨split, char, part, shape, solid⟩

end Splits

section Heads

variable {char : Char} {source : List Char}

theorem sign_eq_none (other : (char = '"' ∨ char = '\'') ∨ char.isDigit = true ∨
    isNameStart char = true) : sign (char :: source) = none := by
  cases found : sign (char :: source) with
  | none => rfl
  | some cut =>
      obtain ⟨spelling, listed, _, split⟩ := sign_eq_some found
      obtain ⟨first, part, shape, ⟨notDouble, notSingle⟩, notDigit, notName, _⟩ :=
        head_of_mem_signs listed
      rw [shape] at split
      obtain rfl := (List.cons.inj split).1
      rcases other with (same | same) | digit | letter
      · exact absurd same notDouble
      · exact absurd same notSingle
      · rw [notDigit] at digit
        cases digit
      · rw [notName] at letter
        cases letter

theorem name_eq_none (other : isNameStart char = false) : name (char :: source) = none := by
  rw [name, if_neg (Bool.eq_false_iff.mp other)]

theorem ne_of_isNameChar (letter : isNameChar char = true) :
    (char ≠ '"' ∧ char ≠ '\'') ∧ char ≠ '-' := by
  refine ⟨⟨?_, ?_⟩, ?_⟩ <;> rintro rfl <;> exact absurd letter (by decide)

theorem isNameStart_of_isDigit (digit : char.isDigit = true) : isNameStart char = false :=
  fails_of_excludes isDigit_of_isNameStart digit

theorem lexeme_of_quote (quote : char = '"' ∨ char = '\'') :
    lexeme (char :: source) = text (char :: source) := by
  have noInteger : integer (char :: source) = none := by
    rcases quote with rfl | rfl <;> exact integer_eq_none (by decide) (by decide)
  have noName : name (char :: source) = none := by
    rcases quote with rfl | rfl <;> exact name_eq_none (by decide)
  rw [lexeme_eq, noInteger, noName, sign_eq_none (.inl quote)]
  simp

theorem lexeme_of_isNameStart (starts : isNameStart char = true) :
    lexeme (char :: source) = name (char :: source) := by
  obtain ⟨unquoted, unsigned⟩ := ne_of_isNameChar (isNameChar_of_isNameStart starts)
  rw [lexeme_eq, text_eq_none unquoted, integer_eq_none unsigned (isDigit_of_isNameStart starts),
    sign_eq_none (.inr (.inr starts))]
  simp

theorem lexeme_of_isDigit (digit : char.isDigit = true) :
    lexeme (char :: source) = integer (char :: source) := by
  obtain ⟨unquoted, _⟩ := ne_of_isNameChar (isNameChar_of_isDigit digit)
  rw [lexeme_eq, text_eq_none unquoted, name_eq_none (isNameStart_of_isDigit digit),
    sign_eq_none (.inr (.inl digit))]
  simp

theorem lexeme_of_minus :
    lexeme ('-' :: source) = (integer ('-' :: source)).or (some (['-'], source)) := by
  rw [lexeme_eq, text_eq_none (by decide), name_eq_none (by decide)]
  rfl

/-- Whatever is neither a string nor a number nor a name is a sign. -/
theorem lexeme_of_other (unquoted : char ≠ '"' ∧ char ≠ '\'') (unsigned : char ≠ '-')
    (noDigit : char.isDigit = false) (noName : isNameStart char = false) :
    lexeme (char :: source) = sign (char :: source) := by
  rw [lexeme_eq, text_eq_none unquoted, integer_eq_none unsigned noDigit, name_eq_none noName]
  simp

end Heads

section Signs

variable {spelling : String}

theorem lexeme_plain (listed : spelling ∈ plainSigns) (rest : List Char) :
    lexeme (spelling.toList ++ rest) = some (spelling.toList, rest) := by
  simp only [plainSigns, List.mem_cons, List.not_mem_nil, or_false] at listed
  rcases listed with rfl | rfl | rfl | rfl | rfl | rfl | rfl | rfl | rfl | rfl | rfl | rfl | rfl |
    rfl | rfl | rfl | rfl | rfl | rfl | rfl | rfl | rfl | rfl | rfl | rfl <;> rfl

theorem mem_signs_iff : spelling ∈ signs ↔
    spelling ∈ plainSigns ∨ spelling = "<" ∨ spelling = ">" ∨ spelling = "-" := by
  simp [signs]

/-- A sign is a lexeme if the next character does not stick to it. -/
theorem lexeme_sign (listed : spelling ∈ signs) {rest : List Char}
    (ends : ∀ char ∈ rest.head?, sticks spelling char = false) :
    lexeme (spelling.toList ++ rest) = some (spelling.toList, rest) := by
  rcases mem_signs_iff.mp listed with plain | rfl | rfl | rfl
  · exact lexeme_plain plain rest
  · cases rest with
    | nil => rfl
    | cons char rest =>
        obtain ⟨notLess, notEqual⟩ : char ≠ '<' ∧ char ≠ '=' := by
          simpa [sticks] using ends char rfl
        simp [lexeme_of_other, sign, anyOf, signs, plainSigns, exactly, Text.dropLeading?,
          isNameStart, notLess.symm, notEqual.symm]
  · cases rest with
    | nil => rfl
    | cons char rest =>
        have notEqual : char ≠ '=' := by simpa [sticks] using ends char rfl
        simp [lexeme_of_other, sign, anyOf, signs, plainSigns, exactly, Text.dropLeading?,
          isNameStart, notEqual.symm]
  · have noDigits : digits rest = none := by
      cases rest with
      | nil => rfl
      | cons char rest => exact digits_eq_none (ends char rfl)
    change lexeme ('-' :: rest) = _
    rw [lexeme_of_minus, integer, noDigits]
    rfl

/-- A sign is not a lexeme if the next character sticks to it: the lexeme goes on. -/
theorem lexeme_sticks {char : Char} (stuck : sticks spelling char = true) (rest : List Char) :
    ∃ more behind, char :: rest = char :: more ++ behind ∧
      lexeme (spelling.toList ++ char :: rest) =
        some (spelling.toList ++ char :: more, behind) := by
  unfold sticks at stuck
  split at stuck
  · rcases Bool.or_eq_true_iff.mp stuck with same | same
    · obtain rfl := of_decide_eq_true same
      exact ⟨[], rest, rfl, rfl⟩
    · obtain rfl := of_decide_eq_true same
      exact ⟨[], rest, rfl, rfl⟩
  · obtain rfl := of_decide_eq_true stuck
    exact ⟨[], rest, rfl, rfl⟩
  · refine ⟨rest.takeWhile Char.isDigit, rest.dropWhile Char.isDigit, ?_, ?_⟩
    · rw [List.cons_append, List.takeWhile_append_dropWhile]
    · change lexeme ('-' :: char :: rest) = _
      rw [lexeme_of_minus, integer, digits, List.takeWhile_cons_of_pos stuck,
        List.dropWhile_cons_of_pos stuck]
      rfl
  · cases stuck

/-- The lexeme that begins with a sign: more of it there is only if it sticks. -/
theorem lexeme_of_sign (listed : spelling ∈ signs) (source : List Char) :
    ∃ more rest, source = more ++ rest ∧
      lexeme (spelling.toList ++ source) = some (spelling.toList ++ more, rest) ∧
      ∀ char ∈ more.head?, sticks spelling char = true := by
  by_cases ends : ∀ char ∈ source.head?, sticks spelling char = false
  · refine ⟨[], source, rfl, ?_, nofun⟩
    rw [lexeme_sign listed ends, List.append_nil]
  · cases source with
    | nil => exact absurd nofun ends
    | cons char source =>
        have stuck : sticks spelling char = true := by simpa using ends
        obtain ⟨more, rest, split, whole⟩ := lexeme_sticks stuck source
        exact ⟨char :: more, rest, split, whole, fun _ found => Option.some.inj found ▸ stuck⟩

theorem not_sticks_of_isBlank {char : Char} (blank : isBlank char = true) :
    sticks spelling char = false := by
  simp only [isBlank, Bool.or_eq_true, decide_eq_true_eq] at blank
  unfold sticks
  rcases blank with ((rfl | rfl) | rfl) | rfl <;> split <;> rfl

end Signs

section Steadiness

/-- What a string holds does not depend on what comes behind it. -/
theorem stringBody_of_closed {quote : Char} (unescaped : quote ≠ '\\')
    {source body rest : List Char} (closed : stringBody quote source = (body, quote :: rest))
    (rest' : List Char) : stringBody quote (body ++ quote :: rest') = (body, quote :: rest') := by
  fun_induction stringBody quote source generalizing body with
  | case1 => cases closed
  | case2 =>
      obtain ⟨rfl, same⟩ := Prod.mk.inj closed
      exact absurd (List.cons.inj same).1.symm unescaped
  | case3 char source body' rest'' within hypothesis =>
      obtain ⟨rfl, rfl⟩ := Prod.mk.inj closed
      rw [List.cons_append, List.cons_append, stringBody, hypothesis within]
  | case4 source =>
      obtain ⟨rfl, _⟩ := Prod.mk.inj closed
      rw [List.nil_append, stringBody_cons unescaped, if_pos rfl]
  | case5 char source last escaped other body' rest'' within hypothesis =>
      obtain ⟨rfl, rfl⟩ := Prod.mk.inj closed
      have plainChar : char ≠ '\\' := by
        rintro rfl
        cases source with
        | nil => exact last rfl rfl
        | cons next source => exact escaped next source rfl rfl
      rw [List.cons_append, stringBody_cons plainChar, if_neg other, hypothesis within]

variable {taken rest rest' : List Char}

/-- The second remainder begins with a blank unless it begins like the first one. -/
def Follows (rest rest' : List Char) : Prop :=
  ∀ char ∈ rest'.head?, isBlank char = true ∨ char ∈ rest.head?

theorem Follows.ends {stops : Char → Prop} (follows : Follows rest rest')
    (blank : ∀ char, isBlank char = true → stops char) (ends : ∀ char ∈ rest.head?, stops char) :
    ∀ char ∈ rest'.head?, stops char :=
  fun char found => (follows char found).elim (blank char) (ends char)

theorem text_steady (cut : text (taken ++ rest) = some (taken, rest)) :
    text (taken ++ rest') = some (taken, rest') := by
  obtain ⟨quote, quotes, cut⟩ := string_of_text cut
  obtain ⟨body, rfl, _, closed⟩ := string_eq_some cut
  have unescaped : quote ≠ '\\' := by rcases quotes with rfl | rfl <;> decide
  have whole : string quote (quote :: (body ++ quote :: rest')) =
      some (quote :: body ++ [quote], rest') := by
    rw [string, if_pos rfl, stringBody_of_closed unescaped closed]
    simp
  have shape : quote :: body ++ [quote] ++ rest' = quote :: (body ++ quote :: rest') := by simp
  rw [shape]
  unfold text anyOf
  rcases quotes with rfl | rfl
  · rw [List.findSome?_cons, whole]
  · have other : string '"' ('\'' :: (body ++ '\'' :: rest')) = none := rfl
    rw [List.findSome?_cons, other, List.findSome?_cons, whole]

theorem digits_steady (follows : Follows rest rest')
    (cut : digits (taken ++ rest) = some (taken, rest)) :
    digits (taken ++ rest') = some (taken, rest') := by
  obtain ⟨some, all, _, ends⟩ := digits_eq_some cut
  refine digits_append_of_ends some all (follows.ends (fun char => fails_of_excludes ?_) ends)
  exact fun digit => not_isBlank_of_isNameChar (isNameChar_of_isDigit digit)

theorem name_steady (follows : Follows rest rest')
    (cut : name (taken ++ rest) = some (taken, rest)) :
    name (taken ++ rest') = some (taken, rest') := by
  obtain ⟨isName, _, ends⟩ := isName_of_name cut
  refine name_append isName ?_
  have blanks : ∀ char, isBlank char = true → isNameChar char = false :=
    fun char => fails_of_excludes not_isBlank_of_isNameChar
  have ends' := follows.ends blanks (head_of_not_continuesName ends)
  cases rest' with
  | nil => rfl
  | cons char rest' => exact ends' char rfl

theorem sign_steady {spelling : String} (listed : spelling ∈ signs) (follows : Follows rest rest')
    (cut : lexeme (spelling.toList ++ rest) = some (spelling.toList, rest)) :
    lexeme (spelling.toList ++ rest') = some (spelling.toList, rest') := by
  refine lexeme_sign listed (follows.ends (fun char => not_sticks_of_isBlank) fun char found => ?_)
  by_contra stuck
  cases rest with
  | nil => cases found
  | cons first rest =>
      obtain rfl := Option.some.inj found
      obtain ⟨more, behind, _, longer⟩ := lexeme_sticks (Bool.not_eq_false _ ▸ stuck) rest
      rw [cut] at longer
      have same := congrArg List.length (Prod.mk.inj (Option.some.inj longer)).1
      simp at same

/-- A lexeme stays one if blanks come behind it or what was behind it still is. -/
theorem lexeme_steady (follows : Follows rest rest')
    (cut : lexeme (taken ++ rest) = some (taken, rest)) :
    lexeme (taken ++ rest') = some (taken, rest') := by
  obtain ⟨scanner, listed, cuts⟩ := List.exists_of_findSome?_eq_some cut
  simp only [List.mem_cons, List.not_mem_nil, or_false] at listed
  rcases listed with rfl | rfl | rfl | rfl
  · rw [lexeme_eq, text_steady cuts, Option.some_or]
  · rcases integer_eq_some cuts with ⟨char, part, rfl, digit, cuts⟩ | ⟨part, rfl, _, cuts⟩
    · have whole := digits_steady follows cuts
      rw [List.cons_append] at whole ⊢
      rw [lexeme_of_isDigit digit,
        integer_of_unsigned (ne_of_isNameChar (isNameChar_of_isDigit digit)).2, whole]
    · rw [List.cons_append, lexeme_of_minus, integer, digits_steady follows cuts]
      rfl
  · obtain ⟨⟨char, part, rfl, starts, _⟩, _⟩ := isName_of_name cuts
    have whole := name_steady follows cuts
    rw [List.cons_append] at whole ⊢
    rw [lexeme_of_isNameStart starts, whole]
  · obtain ⟨spelling, listed, rfl, _⟩ := sign_eq_some cuts
    exact sign_steady listed follows cut

end Steadiness

section Scanners

/-- The scanner cuts off lexemes only, and decides by the lexeme itself whether to do so. -/
def IsLexical (scanner : Scanner) : Prop :=
  ∃ keeps : List Char → Bool, ∀ source,
    scanner source = (lexeme source).filter fun cut => keeps cut.1

theorem isLexical_of {scanner : Scanner} (keeps : List Char → Bool)
    (whole : ∀ source taken rest, scanner source = some (taken, rest) →
      lexeme source = some (taken, rest) ∧ keeps taken = true)
    (takes : ∀ source taken rest, lexeme source = some (taken, rest) → keeps taken = true →
      scanner source = some (taken, rest)) : IsLexical scanner := by
  refine ⟨keeps, fun source => Option.ext fun cut => ?_⟩
  obtain ⟨taken, rest⟩ := cut
  rw [Option.filter_eq_some_iff]
  exact ⟨whole source taken rest, fun kept => takes source taken rest kept.1 kept.2⟩

/-- A scanner is lexical if the first character tells whether it cuts off the lexeme. -/
theorem isLexical_of_head {scanner : Scanner} (begins : Char → Bool) (nothing : scanner [] = none)
    (here : ∀ char source, begins char = true →
      lexeme (char :: source) = scanner (char :: source))
    (elsewhere : ∀ char source, begins char = false → scanner (char :: source) = none) :
    IsLexical scanner := by
  refine isLexical_of (fun taken => taken.head?.any begins) ?_ ?_
  · intro source taken rest cut
    cases source with
    | nil => rw [nothing] at cut; cases cut
    | cons first source =>
        by_cases begun : begins first = true
        · have whole := (here first source begun).trans cut
          obtain ⟨split, char, part, rfl, _⟩ := lexeme_eq_some whole
          obtain rfl := (List.cons.inj split).1
          exact ⟨whole, begun⟩
        · rw [elsewhere first source (Bool.not_eq_true _ ▸ begun)] at cut
          cases cut
  · intro source taken rest cut kept
    obtain ⟨rfl, char, part, rfl, _⟩ := lexeme_eq_some cut
    exact (here char _ kept).symm.trans cut

theorem IsLexical.anyOf {scanners : List Scanner}
    (all : ∀ scanner ∈ scanners, IsLexical scanner) : IsLexical (anyOf scanners) := by
  induction scanners with
  | nil => exact isLexical_of (fun _ => false) nofun nofun
  | cons scanner scanners hypothesis =>
      obtain ⟨⟨keeps, first⟩, others⟩ := List.forall_mem_cons.mp all
      obtain ⟨keeps', rest⟩ := hypothesis others
      refine ⟨fun taken => keeps taken || keeps' taken, fun source => ?_⟩
      rw [anyOf_cons, rest, first]
      cases lexeme source with
      | none => rfl
      | some cut => cases kept : keeps cut.1 <;> simp [Option.filter_some, kept]

theorem isLexical_text : IsLexical text := by
  refine isLexical_of_head (fun char => char = '"' || char = '\'') rfl ?_ ?_
  · intro char source begun
    exact lexeme_of_quote (by simpa using begun)
  · intro char source other
    exact text_eq_none (by simpa using other)

theorem isLexical_name : IsLexical name :=
  isLexical_of_head isNameStart rfl (fun _ _ starts => lexeme_of_isNameStart starts)
    fun _ _ other => name_eq_none other

theorem isLexical_digits : IsLexical digits := by
  refine isLexical_of_head Char.isDigit rfl (fun char source digit => ?_) fun _ _ other =>
    digits_eq_none other
  rw [lexeme_of_isDigit digit,
    integer_of_unsigned (ne_of_isNameChar (isNameChar_of_isDigit digit)).2]

theorem isLexical_integer : IsLexical integer := by
  refine isLexical_of (fun taken => taken.head?.any Char.isDigit ||
    taken.head? == some '-' && !taken.tail.isEmpty) ?_ ?_
  · intro source taken rest cut
    rcases integer_eq_some cut with ⟨char, part, rfl, digit, found⟩ | ⟨part, rfl, rfl, found⟩
    · obtain ⟨_, _, rfl, _⟩ := digits_eq_some found
      exact ⟨(lexeme_of_isDigit digit).trans cut, by simp [digit]⟩
    · refine ⟨?_, by simpa using (digits_eq_some found).1⟩
      rw [List.cons_append] at cut ⊢
      rw [lexeme_of_minus, cut, Option.some_or]
  · intro source taken rest cut kept
    obtain ⟨rfl, char, part, rfl, _⟩ := lexeme_eq_some cut
    rcases Bool.or_eq_true_iff.mp kept with digit | signed
    · exact (lexeme_of_isDigit digit).symm.trans cut
    · obtain ⟨rfl, longer⟩ : char = '-' ∧ part ≠ [] := by simpa using signed
      rw [List.cons_append, lexeme_of_minus] at cut
      rw [List.cons_append]
      -- the sign alone is shorter than the lexeme
      rcases Option.or_eq_some_iff.mp cut with found | ⟨_, alone⟩
      · exact found
      · obtain ⟨short, _⟩ := Prod.mk.inj (Option.some.inj alone)
        exact absurd (List.cons.inj short).2.symm longer

theorem isLexical_exactly {spelling : String} (plain : spelling ∈ plainSigns) :
    IsLexical (exactly spelling) := by
  refine isLexical_of (fun taken => taken == spelling.toList) ?_ ?_
  · intro source taken rest cut
    obtain ⟨rfl, rfl⟩ := exactly_eq_some cut
    exact ⟨lexeme_plain plain rest, beq_self_eq_true _⟩
  · intro source taken rest cut same
    obtain ⟨rfl, _⟩ := lexeme_eq_some cut
    obtain rfl : taken = spelling.toList := by simpa using same
    exact exactly_append spelling rest

theorem isLexical_word {spelling : String} (named : IsName spelling.toList) :
    IsLexical (word spelling) := by
  obtain ⟨first, others, shape, starts, continues⟩ := id named
  refine isLexical_of (fun taken => taken == spelling.toList) ?_ ?_
  · intro source taken rest cut
    obtain ⟨found, ends⟩ := Option.filter_eq_some_iff.mp cut
    obtain ⟨rfl, rfl⟩ := exactly_eq_some found
    have whole := name_append named (by simpa using ends)
    rw [shape, List.cons_append] at whole ⊢
    exact ⟨(lexeme_of_isNameStart starts).trans whole, beq_self_eq_true _⟩
  · intro source taken rest cut same
    obtain ⟨rfl, _⟩ := lexeme_eq_some cut
    obtain rfl : taken = spelling.toList := by simpa using same
    rw [shape, List.cons_append, lexeme_of_isNameStart starts] at cut
    exact word_append (isName_of_name cut).2.2

theorem isName_of_mem_keywords {keyword : String} (listed : keyword ∈ keywords) :
    IsName keyword.toList := by
  have letters := letters_of_mem_keywords keyword listed
  simp only [keywords, List.mem_cons, List.not_mem_nil, or_false] at listed
  rcases listed with rfl | rfl | rfl | rfl | rfl
  all_goals
    exact ⟨_, _, rfl, by decide, fun char member => letters char (List.mem_cons_of_mem _ member)⟩

theorem isLexical_keyword {keyword : String} (listed : keyword ∈ keywords) :
    IsLexical (word keyword) :=
  isLexical_word (isName_of_mem_keywords listed)

theorem isLexical_null : IsLexical null := isLexical_keyword (by decide)

theorem isLexical_boolean : IsLexical boolean := by
  refine .anyOf fun scanner listed => ?_
  rcases List.mem_pair.mp listed with rfl | rfl <;> exact isLexical_keyword (by decide)

theorem isLexical_and : IsLexical and := by
  refine .anyOf fun scanner listed => ?_
  rcases List.mem_pair.mp listed with rfl | rfl
  · exact isLexical_exactly (by decide)
  · exact isLexical_keyword (by decide)

theorem isLexical_or : IsLexical or := by
  refine .anyOf fun scanner listed => ?_
  rcases List.mem_pair.mp listed with rfl | rfl
  · exact isLexical_exactly (by decide)
  · exact isLexical_keyword (by decide)

theorem isLexical_identifier : IsLexical identifier := by
  obtain ⟨keeps, names⟩ := isLexical_name
  obtain ⟨keeps', words⟩ : IsLexical (anyOf (keywords.map word)) := by
    refine .anyOf fun scanner listed => ?_
    obtain ⟨keyword, listed', rfl⟩ := List.mem_map.mp listed
    exact isLexical_keyword listed'
  refine ⟨fun taken => keeps taken && !keeps' taken, fun source => ?_⟩
  unfold identifier
  rw [names, words]
  cases lexeme source with
  | none => rfl
  | some cut => cases kept : keeps' cut.1 <;> simp [Option.filter_some, kept]

end Scanners

end TreeSelector.Grammar.Token
