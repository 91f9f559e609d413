import Mathlib.Data.List.Forall2
import TreeSelector.Text.Lowercase
import TreeSelector.Text.Search

/-!
# Sigmas and their surroundings

The lower-case form of a text consists of as many characters whatever stands around it, and only
its capital sigmas depend on that.  One that ends a word in the text alone does not do so if a
cased letter follows the text, and one that begins the text ends a word if a cased letter comes
before.  Where neither happens, the lower-case form of the text stands in that of the whole.
-/

namespace TreeSelector.Text

section Surroundings

/-- Whether a capital sigma ends a word, given the characters before it, the nearest first, and
those behind it. -/
def endsWord (before after : List Char) : Bool := leadsToCased before && !leadsToCased after

/-- The lower-case form of one character among others; those before it come nearest first. -/
def lowercaseCharAmid (before : List Char) (char : Char) (after : List Char) : List Char :=
  if char = 'Σ' then if endsWord before after then ['ς'] else ['σ'] else lowercaseChar char

/-- The lower-case form of a text among others; the characters before it come nearest first. -/
def lowercaseAmid (before : List Char) : (text after : List Char) → List Char
  | [], _ => []
  | char :: text, after =>
      lowercaseCharAmid before char (text ++ after) ++ lowercaseAmid (char :: before) text after

theorem lowercaseAfter_append (before text after : List Char) :
    lowercaseAfter before (text ++ after) =
      lowercaseAmid before text after ++ lowercaseAfter (text.reverse ++ before) after := by
  induction text generalizing before with
  | nil => rfl
  | cons char text hypothesis =>
      rw [lowercaseAmid, List.append_assoc, List.reverse_cons, List.append_assoc,
        List.singleton_append, ← hypothesis]
      rfl

theorem lowercaseAfter_eq (before text : List Char) :
    lowercaseAfter before text = lowercaseAmid before text [] := by
  have whole := lowercaseAfter_append before text []
  rwa [List.append_nil, lowercaseAfter, List.append_nil] at whole

theorem length_lowercaseCharAmid (before before' after after' : List Char) (char : Char) :
    (lowercaseCharAmid before char after).length =
      (lowercaseCharAmid before' char after').length := by
  unfold lowercaseCharAmid
  split
  · split <;> split <;> rfl
  · rfl

theorem length_lowercaseAmid (before before' text after after' : List Char) :
    (lowercaseAmid before text after).length = (lowercaseAmid before' text after').length := by
  induction text generalizing before before' with
  | nil => rfl
  | cons char text hypothesis =>
      rw [lowercaseAmid, lowercaseAmid, List.length_append, List.length_append,
        length_lowercaseCharAmid before before' _ (text ++ after'),
        hypothesis (char :: before) (char :: before')]

theorem lowercaseCharAmid_eq_iff {before before' after after' : List Char} {char : Char} :
    lowercaseCharAmid before char after = lowercaseCharAmid before' char after' ↔
      (char = 'Σ' → endsWord before after = endsWord before' after') := by
  unfold lowercaseCharAmid
  by_cases sigma : char = 'Σ'
  · cases endsWord before after <;> cases endsWord before' after' <;> simp [sigma]
  · simp [sigma]

/-- A text has the same lower-case form in two places exactly if each of its capital sigmas ends
a word in both or in neither of them. -/
theorem lowercaseAmid_eq_iff {before before' text after after' : List Char} :
    lowercaseAmid before text after = lowercaseAmid before' text after' ↔
      ∀ front rest, text = front ++ 'Σ' :: rest →
        endsWord (front.reverse ++ before) (rest ++ after) =
          endsWord (front.reverse ++ before') (rest ++ after') := by
  induction text generalizing before before' with
  | nil => simp [lowercaseAmid]
  | cons char text hypothesis =>
      have lengths := length_lowercaseCharAmid before before' (text ++ after) (text ++ after') char
      rw [lowercaseAmid, lowercaseAmid]
      constructor
      · intro same front rest split
        obtain ⟨first, others⟩ := List.append_inj same lengths
        cases front with
        | nil =>
            obtain ⟨rfl, rfl⟩ := List.cons.inj split
            exact lowercaseCharAmid_eq_iff.mp first rfl
        | cons passed front =>
            obtain ⟨rfl, rfl⟩ := List.cons.inj split
            simpa using hypothesis.mp others front rest rfl
      · intro alike
        have first : lowercaseCharAmid before char (text ++ after) =
            lowercaseCharAmid before' char (text ++ after') :=
          lowercaseCharAmid_eq_iff.mpr fun sigma => alike [] text (by rw [sigma]; rfl)
        have others := hypothesis.mpr fun front rest split => by
          simpa using alike (char :: front) rest (congrArg _ split)
        rw [first, others]

end Surroundings

section Turns

/-- A capital sigma of the text ends a word, unless a cased letter follows the text. -/
def LosesEnd (text after : List Char) : Prop :=
  leadsToCased after = true ∧ ∃ front rest, text = front ++ 'Σ' :: rest ∧
    leadsToCased front.reverse = true ∧ rest.all isCaseIgnorable = true

/-- A capital sigma that begins the text ends a word behind a cased letter. -/
def GainsEnd (before text after : List Char) : Prop :=
  leadsToCased before.reverse = true ∧ ∃ front rest, text = front ++ 'Σ' :: rest ∧
    front.all isCaseIgnorable = true ∧ leadsToCased (rest ++ after) = false

theorem leadsToCased_append (chars others : List Char) :
    leadsToCased (chars ++ others) =
      if chars.all isCaseIgnorable then leadsToCased others else leadsToCased chars := by
  induction chars with
  | nil => rfl
  | cons char chars hypothesis =>
      cases ignorable : isCaseIgnorable char with
      | true => simpa [leadsToCased, ignorable] using hypothesis
      | false => simp [leadsToCased, ignorable]

theorem leadsToCased_of_ignorable {chars : List Char}
    (ignorable : chars.all isCaseIgnorable = true) : leadsToCased chars = false := by
  have rest := leadsToCased_append chars []
  rwa [List.append_nil, if_pos ignorable] at rest

/-- A sigma ends a word amid others as it does alone, unless what is next to its word on one
side is ignorable up to the end of the text. -/
theorem endsWord_amid_iff {before front rest after : List Char} :
    endsWord (front ++ before) (rest ++ after) = endsWord front rest ↔
      ¬ (leadsToCased after = true ∧ leadsToCased front = true ∧
          rest.all isCaseIgnorable = true) ∧
        ¬ (leadsToCased before = true ∧ front.all isCaseIgnorable = true ∧
          leadsToCased (rest ++ after) = false) := by
  unfold endsWord
  rw [leadsToCased_append front before, leadsToCased_append rest after]
  cases frontOpen : front.all isCaseIgnorable with
  | true =>
      rw [leadsToCased_of_ignorable frontOpen]
      cases restOpen : rest.all isCaseIgnorable <;> simp
  | false =>
      cases restOpen : rest.all isCaseIgnorable with
      | true =>
          rw [leadsToCased_of_ignorable restOpen]
          cases leadsToCased front <;> simp
      | false => simp

end Turns

section Standing

/-- A text has the same lower-case form among others as alone, unless a sigma of it loses or
gains the end of a word. -/
theorem lowercaseAmid_eq_lowercaseChars_iff {before text after : List Char} :
    lowercaseAmid before.reverse text after = lowercaseChars text ↔
      ¬ LosesEnd text after ∧ ¬ GainsEnd before text after := by
  rw [lowercaseChars, lowercaseAfter_eq, lowercaseAmid_eq_iff]
  simp only [List.append_nil, endsWord_amid_iff, List.all_reverse, LosesEnd, GainsEnd]
  constructor
  · intro alike
    constructor
    · rintro ⟨follows, front, rest, split, leads, ignorable⟩
      exact (alike front rest split).1 ⟨follows, leads, ignorable⟩
    · rintro ⟨precedes, front, rest, split, ignorable, ends⟩
      exact (alike front rest split).2 ⟨precedes, ignorable, ends⟩
  · rintro ⟨noLoss, noGain⟩ front rest split
    constructor
    · rintro ⟨follows, leads, ignorable⟩
      exact noLoss ⟨follows, front, rest, split, leads, ignorable⟩
    · rintro ⟨precedes, ignorable, ends⟩
      exact noGain ⟨precedes, front, rest, split, ignorable, ends⟩

theorem not_losesEnd_nil (text : List Char) : ¬ LosesEnd text [] :=
  fun loses => Bool.noConfusion loses.1

theorem not_gainsEnd_nil (text after : List Char) : ¬ GainsEnd [] text after :=
  fun gains => Bool.noConfusion gains.1

theorem lowercaseAmid_front_iff {text after : List Char} :
    lowercaseAmid [] text after = lowercaseChars text ↔ ¬ LosesEnd text after :=
  (@lowercaseAmid_eq_lowercaseChars_iff [] text after).trans
    (and_iff_left (not_gainsEnd_nil text after))

theorem lowercaseAmid_back_iff {before text : List Char} :
    lowercaseAmid before.reverse text [] = lowercaseChars text ↔ ¬ GainsEnd before text [] :=
  lowercaseAmid_eq_lowercaseChars_iff.trans (and_iff_right (not_losesEnd_nil text))

theorem length_lowercaseChars (before text after : List Char) :
    (lowercaseChars text).length = (lowercaseAmid before text after).length := by
  rw [lowercaseChars, lowercaseAfter_eq]
  exact length_lowercaseAmid ..

theorem lowercaseChars_append (front rest : List Char) :
    lowercaseChars (front ++ rest) =
      lowercaseAmid [] front rest ++ lowercaseAmid front.reverse rest [] := by
  rw [lowercaseChars, lowercaseAfter_append, lowercaseAfter_eq, List.append_nil]

/-- The lower-case form of a text begins that of the text with something behind it. -/
theorem lowercaseChars_prefix_iff {text after : List Char} :
    lowercaseChars text <+: lowercaseChars (text ++ after) ↔ ¬ LosesEnd text after := by
  rw [← lowercaseAmid_front_iff, lowercaseChars_append]
  constructor
  · rintro ⟨rest, same⟩
    exact (List.append_inj same (length_lowercaseChars ..)).1.symm
  · intro same
    exact ⟨_, congrArg (· ++ _) same.symm⟩

/-- The lower-case form of a text ends that of the text with something before it. -/
theorem lowercaseChars_suffix_iff {before text : List Char} :
    lowercaseChars text <:+ lowercaseChars (before ++ text) ↔ ¬ GainsEnd before text [] := by
  rw [← lowercaseAmid_back_iff, lowercaseChars_append]
  constructor
  · rintro ⟨front, same⟩
    exact (List.append_inj' same (length_lowercaseChars ..)).2.symm
  · intro same
    exact ⟨_, congrArg (_ ++ ·) same.symm⟩

/-- Where its sigmas stay what they are, the lower-case form of a text stands in that of the
whole. -/
theorem lowercaseChars_infix {before text after : List Char} (noLoss : ¬ LosesEnd text after)
    (noGain : ¬ GainsEnd before text after) :
    lowercaseChars text <:+: lowercaseChars (before ++ text ++ after) := by
  have stands := lowercaseAmid_eq_lowercaseChars_iff.mpr ⟨noLoss, noGain⟩
  rw [lowercaseChars.eq_def (before ++ text ++ after), List.append_assoc, lowercaseAfter_append,
    lowercaseAfter_append, List.append_nil, stands, ← List.append_assoc]
  exact ⟨_, _, rfl⟩

end Standing

section Elsewhere

/-- The second lower-case form ends words with some of the sigmas of the first, and that is all
there is between them. -/
def EndsMore : List Char → List Char → Prop :=
  List.Forall₂ fun char char' => char = char' ∨ char = 'σ' ∧ char' = 'ς'

theorem EndsMore.eq_or_count_lt {lower lower' : List Char} (ends : EndsMore lower lower') :
    lower = lower' ∨
      lower.count 'ς' < lower'.count 'ς' ∧ lower'.count 'σ' < lower.count 'σ' := by
  induction ends with
  | nil => exact .inl rfl
  | cons first _ hypothesis =>
      rcases first with rfl | ⟨rfl, rfl⟩ <;> rcases hypothesis with rfl | less
      · exact .inl rfl
      · simp only [List.count_cons]
        exact .inr (by omega)
      · simp
      · simp only [List.count_cons_self, List.count_cons_of_ne (by decide : 'ς' ≠ 'σ'),
          List.count_cons_of_ne (by decide : 'σ' ≠ 'ς')]
        exact .inr (by omega)

theorem lowercaseAmid_endsMore {before before' text after after' : List Char}
    (more : ∀ front rest, text = front ++ 'Σ' :: rest →
      endsWord (front.reverse ++ before) (rest ++ after) = true →
        endsWord (front.reverse ++ before') (rest ++ after') = true) :
    EndsMore (lowercaseAmid before text after) (lowercaseAmid before' text after') := by
  induction text generalizing before before' with
  | nil => exact .nil
  | cons char text hypothesis =>
      refine List.rel_append ?_ (hypothesis fun front rest split => ?_)
      · unfold lowercaseCharAmid
        split
        · rename_i sigma
          have here : endsWord before (text ++ after) = true →
              endsWord before' (text ++ after') = true := more [] text (by rw [sigma]; rfl)
          cases ends : endsWord before (text ++ after) with
          | true =>
              rw [here ends]
              exact .cons (.inl rfl) .nil
          | false =>
              cases endsWord before' (text ++ after') with
              | true => exact .cons (.inr ⟨rfl, rfl⟩) .nil
              | false => exact .cons (.inl rfl) .nil
        · exact List.forall₂_same.mpr fun _ _ => .inl rfl
      · simpa using more (char :: front) rest (congrArg _ split)

theorem leadsToCased_mono {chars : List Char} (leads : leadsToCased chars = true)
    (others : List Char) : leadsToCased (chars ++ others) = true := by
  have mixed : ¬ chars.all isCaseIgnorable = true := fun ignorable => by
    rw [leadsToCased_of_ignorable ignorable] at leads
    cases leads
  rw [leadsToCased_append, if_neg mixed, leads]

theorem leadsToCased_letter : leadsToCased ['a'] = true := by decide +kernel

theorem lowercaseAmid_letter (before after : List Char) : lowercaseAmid before ['a'] after = ['a'] :=
  rfl

/-- Where a letter behind a text takes the end of a word from a sigma of it, the lower-case form
of the text is nowhere in that of both: it has a final sigma too many. -/
theorem not_infix_of_losesEnd {text after : List Char} (loses : LosesEnd text after) :
    ¬ lowercaseChars text <:+: lowercaseChars (text ++ ['a']) := by
  intro found
  have turned : lowercaseAmid [] text ['a'] ≠ lowercaseChars text := fun same =>
    lowercaseAmid_front_iff.mp same ⟨leadsToCased_letter, loses.2⟩
  have ends : EndsMore (lowercaseAmid [] text ['a']) (lowercaseAmid [] text []) := by
    refine lowercaseAmid_endsMore fun front rest _ amid => ?_
    simp only [endsWord, Bool.and_eq_true, Bool.not_eq_true', List.append_nil] at amid ⊢
    refine ⟨amid.1, Bool.eq_false_iff.mpr fun leads => ?_⟩
    rw [leadsToCased_mono leads] at amid
    cases amid.2
  rw [← lowercaseAfter_eq] at ends
  have fewer := (ends.eq_or_count_lt.resolve_left turned).1
  have most := found.sublist.count_le 'ς'
  rw [lowercaseChars_append, lowercaseAmid_letter, List.count_append,
    List.count_eq_zero_of_not_mem (by decide : 'ς' ∉ ['a'])] at most
  exact absurd most (Nat.not_le_of_lt fewer)

/-- Where a letter before a text gives the end of a word to a sigma of it, the lower-case form of
the text is nowhere in that of both: it has an inner sigma too many. -/
theorem not_infix_of_gainsEnd {before text after : List Char}
    (gains : GainsEnd before text after) :
    ¬ lowercaseChars text <:+: lowercaseChars (['a'] ++ text) := by
  intro found
  have turned : lowercaseChars text ≠ lowercaseAmid ['a'].reverse text [] := fun same => by
    obtain ⟨_, front, rest, split, ignorable, ends⟩ := gains
    refine lowercaseAmid_back_iff.mp same.symm
      ⟨leadsToCased_letter, front, rest, split, ignorable, ?_⟩
    rw [List.append_nil]
    exact Bool.eq_false_iff.mpr fun leads => by
      rw [leadsToCased_mono leads] at ends
      cases ends
  have ends : EndsMore (lowercaseAmid [] text []) (lowercaseAmid ['a'].reverse text []) := by
    refine lowercaseAmid_endsMore fun front rest _ alone => ?_
    simp only [endsWord, Bool.and_eq_true, Bool.not_eq_true', List.append_nil] at alone ⊢
    exact ⟨leadsToCased_mono alone.1 _, alone.2⟩
  rw [← lowercaseAfter_eq] at ends
  have fewer := (ends.eq_or_count_lt.resolve_left turned).2
  have most := found.sublist.count_le 'σ'
  rw [lowercaseChars_append, lowercaseAmid_letter, List.count_append,
    List.count_eq_zero_of_not_mem (by decide : 'σ' ∉ ['a']), Nat.zero_add] at most
  exact absurd most (Nat.not_le_of_lt fewer)

/-- The lower-case form of a text is in that of every whole exactly if no surroundings change a
sigma of the text. -/
theorem lowercaseChars_infix_always_iff {text : List Char} :
    (∀ before after, lowercaseChars text <:+: lowercaseChars (before ++ text ++ after)) ↔
      ∀ before after, ¬ LosesEnd text after ∧ ¬ GainsEnd before text after := by
  constructor
  · intro always before after
    refine ⟨fun loses => not_infix_of_losesEnd loses (always [] ['a']), fun gains => ?_⟩
    have found := always ['a'] []
    rw [List.append_nil] at found
    exact not_infix_of_gainsEnd gains found
  · intro never before after
    exact lowercaseChars_infix (never before after).1 (never before after).2

end Elsewhere

end TreeSelector.Text
