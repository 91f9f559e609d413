import TreeSelector.Proofs.Grammar.Lexemes

/-!
# Sources that differ in blanks

Two sources consist of the same lexemes if one comes of the other by putting blanks between
lexemes and at the ends, or other blanks where there are some.  Skipping blanks in both leads
to places where both go on with the same lexeme, so a scanner that cuts off lexemes does the
same in both.
-/

namespace TreeSelector.Grammar

open Reader (isBlank)
open Token (lexeme signs sticks IsLexical)

/-- Blanks in the place of blanks: where there are some, there still are. -/
structure Regapped (gap gap' : List Char) : Prop where
  blank : ∀ char ∈ gap, isBlank char = true
  blank' : ∀ char ∈ gap', isBlank char = true
  apart : gap ≠ [] → gap' ≠ []

instance (gap gap' : List Char) : Decidable (Regapped gap gap') :=
  decidable_of_iff (gap.all isBlank = true ∧ gap'.all isBlank = true ∧ (gap ≠ [] → gap' ≠ []))
    ⟨fun ⟨all, all', apart⟩ => ⟨List.all_eq_true.mp all, List.all_eq_true.mp all', apart⟩,
      fun ⟨blank, blank', apart⟩ =>
        ⟨List.all_eq_true.mpr blank, List.all_eq_true.mpr blank', apart⟩⟩

/-- The second source has the lexemes of the first one with other blanks around them.
What is left over behind the last lexeme is no lexeme, and the same in both. -/
inductive Respaced (leftover : List Char) : List Char → List Char → Prop
  | ended {gap gap' : List Char} (regapped : Regapped gap gap')
      (final : lexeme leftover = none) (solid : strip leftover = leftover) :
      Respaced leftover (gap ++ leftover) (gap' ++ leftover)
  | token {gap gap' token source source' : List Char} (regapped : Regapped gap gap')
      (cut : lexeme (token ++ source) = some (token, source))
      (onward : Respaced leftover source source') :
      Respaced leftover (gap ++ (token ++ source)) (gap' ++ (token ++ source'))

/-- The scanner refuses both sources, or cuts the same token off both and leaves remainders as
described. -/
def CutsBoth (scanner : Scanner) (source source' : List Char)
    (leaves : List Char → List Char → Prop) : Prop :=
  (scanner source = none ∧ scanner source' = none) ∨ ∃ token rest rest',
    scanner source = some (token, rest) ∧ scanner source' = some (token, rest') ∧
      leaves rest rest'

theorem Regapped.refl {gap : List Char} (blank : ∀ char ∈ gap, isBlank char = true) :
    Regapped gap gap :=
  ⟨blank, blank, id⟩

theorem length_strip_le (source : List Char) : (strip source).length ≤ source.length :=
  (List.dropWhile_suffix _).length_le

theorem strip_lexeme {token source : List Char}
    (cut : lexeme (token ++ source) = some (token, source)) (source' : List Char) :
    strip (token ++ source') = token ++ source' := by
  obtain ⟨_, char, part, rfl, solid⟩ := Token.lexeme_eq_some cut
  exact strip_cons solid _

/-- Every source consists of lexemes up to something left over. -/
theorem exists_respaced (source : List Char) : ∃ leftover, Respaced leftover source source := by
  -- the induction is on the length, since a lexeme may have many characters
  induction length : source.length using Nat.strong_induction_on generalizing source with
  | _ bound hypothesis =>
      have blank : ∀ char ∈ source.takeWhile isBlank, isBlank char = true :=
        fun char member => List.mem_takeWhile_imp member
      have whole : source.takeWhile isBlank ++ strip source = source :=
        List.takeWhile_append_dropWhile
      cases cut : lexeme (strip source) with
      | none =>
          refine ⟨strip source, ?_⟩
          have ended := Respaced.ended (.refl blank) cut (strip_strip source)
          rwa [whole] at ended
      | some cut' =>
          obtain ⟨token, rest⟩ := cut'
          obtain ⟨split, char, part, shape, _⟩ := Token.lexeme_eq_some cut
          have shorter : rest.length < bound := by
            have bounded := length_strip_le source
            rw [split, shape, List.length_append, List.length_cons] at bounded
            omega
          obtain ⟨leftover, onward⟩ := hypothesis rest.length shorter rest rfl
          refine ⟨leftover, ?_⟩
          rw [split] at cut whole
          have step := Respaced.token (.refl blank) cut onward
          rwa [whole] at step

variable {leftover source source' : List Char}

theorem Regapped.follows {gap gap' : List Char} (regapped : Regapped gap gap')
    (same : ∀ char ∈ source'.head?, char ∈ source.head?) :
    Token.Follows (gap ++ source) (gap' ++ source') := by
  intro char found
  cases gap' with
  | nil =>
      obtain rfl : gap = [] := by
        by_contra some
        exact regapped.apart some rfl
      exact .inr (same char found)
  | cons first gap' =>
      obtain rfl := Option.some.inj found
      exact .inl (regapped.blank' first List.mem_cons_self)

/-- Where a respaced source does not begin with a blank, it begins as the source does. -/
theorem Respaced.follows (respaced : Respaced leftover source source') :
    Token.Follows source source' := by
  cases respaced with
  | ended regapped => exact regapped.follows fun _ => id
  | token regapped cut onward =>
      obtain ⟨_, char, part, rfl, _⟩ := Token.lexeme_eq_some cut
      exact regapped.follows fun _ => id

theorem Respaced.strip (respaced : Respaced leftover source source') :
    Respaced leftover (strip source) (strip source') := by
  have none : Regapped [] [] := .refl nofun
  cases respaced with
  | ended regapped final solid =>
      rw [strip_blank_append regapped.blank, strip_blank_append regapped.blank', solid]
      exact .ended none final solid
  | token regapped cut onward =>
      rw [strip_blank_append regapped.blank, strip_blank_append regapped.blank',
        strip_lexeme cut, strip_lexeme cut]
      exact .token none cut onward

/-- Behind the blanks both sources go on with the same lexeme, if with any. -/
theorem Respaced.lexeme_strip (respaced : Respaced leftover source source') :
    CutsBoth lexeme (Grammar.strip source) (Grammar.strip source') (Respaced leftover) := by
  cases respaced with
  | ended regapped final solid =>
      rw [strip_blank_append regapped.blank, strip_blank_append regapped.blank', solid]
      exact .inl ⟨final, final⟩
  | token regapped cut onward =>
      rw [strip_blank_append regapped.blank, strip_blank_append regapped.blank',
        strip_lexeme cut, strip_lexeme cut]
      exact .inr ⟨_, _, _, cut, Token.lexeme_steady onward.follows cut, onward⟩

/-- At the end of one of the sources nothing is left over, and the other one is blank. -/
theorem Respaced.of_nil (respaced : Respaced leftover source source')
    (none : source = [] ∨ source' = []) :
    leftover = [] ∧ Grammar.strip source = [] ∧ Grammar.strip source' = [] := by
  cases respaced with
  | @ended gap gap' regapped =>
      obtain rfl : leftover = [] := by
        rcases none with none | none <;> exact (List.append_eq_nil_iff.mp none).2
      refine ⟨rfl, ?_, ?_⟩
      · rw [strip_blank_append regapped.blank]
        rfl
      · rw [strip_blank_append regapped.blank']
        rfl
  | token regapped cut =>
      obtain ⟨_, char, part, rfl, _⟩ := Token.lexeme_eq_some cut
      rcases none with none | none <;> simp at none

/-- Two remainders that differ in blanks, with fewer characters than the limits. -/
structure Remains (leftover : List Char) (limit limit' : Nat) (rest rest' : List Char) :
    Prop where
  respaced : Respaced leftover rest rest'
  below : rest.length < limit
  below' : rest'.length < limit'

/-- Two remainders behind blanks. -/
structure Aligned (leftover : List Char) (limit limit' : Nat) (rest rest' : List Char) : Prop
    extends Remains leftover limit limit' rest rest' where
  solid : strip rest = rest
  solid' : strip rest' = rest'

variable {limit limit' : Nat} {rest rest' : List Char}

theorem Remains.strip (remains : Remains leftover limit limit' rest rest') :
    Aligned leftover limit limit' (strip rest) (strip rest') where
  respaced := remains.respaced.strip
  below := (length_strip_le rest).trans_lt remains.below
  below' := (length_strip_le rest').trans_lt remains.below'
  solid := strip_strip rest
  solid' := strip_strip rest'

theorem Remains.mono {bound bound' : Nat} (remains : Remains leftover limit limit' rest rest')
    (wider : limit ≤ bound) (wider' : limit' ≤ bound') :
    Remains leftover bound bound' rest rest' :=
  ⟨remains.respaced, remains.below.trans_le wider, remains.below'.trans_le wider'⟩

theorem Remains.within (remains : Remains leftover source.length source'.length rest rest')
    (outer : Remains leftover limit limit' source source') :
    Remains leftover limit limit' rest rest' :=
  ⟨remains.respaced, remains.below.trans outer.below, remains.below'.trans outer.below'⟩

/-- What is behind some characters has fewer than what they are taken from. -/
theorem Remains.inside (remains : Remains leftover source.length source'.length rest rest')
    (outer : Remains leftover (limit + 1) (limit' + 1) source source') :
    Remains leftover limit limit' rest rest' :=
  remains.mono (Nat.le_of_lt_succ outer.below) (Nat.le_of_lt_succ outer.below')

/-- The remainders have fewer characters than one more than they have. -/
theorem Aligned.tight (aligned : Aligned leftover limit limit' source source') :
    Aligned leftover (source.length + 1) (source'.length + 1) source source' :=
  { aligned with below := Nat.lt_succ_self _, below' := Nat.lt_succ_self _ }

theorem Aligned.mono {bound bound' : Nat} (aligned : Aligned leftover limit limit' rest rest')
    (wider : limit ≤ bound) (wider' : limit' ≤ bound') :
    Aligned leftover bound bound' rest rest' :=
  { aligned with toRemains := aligned.toRemains.mono wider wider' }

theorem Aligned.within (aligned : Aligned leftover source.length source'.length rest rest')
    (outer : Remains leftover limit limit' source source') :
    Aligned leftover limit limit' rest rest' :=
  aligned.mono outer.below.le outer.below'.le

theorem Aligned.inside (aligned : Aligned leftover source.length source'.length rest rest')
    (outer : Remains leftover (limit + 1) (limit' + 1) source source') :
    Aligned leftover limit limit' rest rest' :=
  { aligned with toRemains := aligned.toRemains.inside outer }

/-- Both remainders go on with the same lexeme, or with none. -/
theorem Aligned.cut_lexeme (aligned : Aligned leftover limit limit' source source') :
    CutsBoth lexeme source source' (Remains leftover source.length source'.length) := by
  have cuts := aligned.respaced.lexeme_strip
  rw [aligned.solid, aligned.solid'] at cuts
  have shorter : ∀ {source token rest : List Char},
      lexeme source = some (token, rest) → rest.length < source.length := by
    intro source token rest cut
    obtain ⟨rfl, char, part, rfl, _⟩ := Token.lexeme_eq_some cut
    rw [List.length_append, List.length_cons]
    omega
  rcases cuts with none | ⟨token, rest, rest', cut, cut', respaced⟩
  · exact .inl none
  · exact .inr ⟨token, rest, rest', cut, cut', respaced, shorter cut, shorter cut'⟩

/-- A lexical scanner cuts the same lexeme off both remainders, or off neither. -/
theorem Aligned.cut_lexical (aligned : Aligned leftover limit limit' source source')
    {scanner : Scanner} (lexical : IsLexical scanner) :
    CutsBoth scanner source source' (Remains leftover source.length source'.length) := by
  obtain ⟨keeps, equation⟩ := lexical
  unfold CutsBoth
  rw [equation, equation]
  rcases aligned.cut_lexeme with ⟨none, none'⟩ | ⟨token, rest, rest', cut, cut', remains⟩
  · rw [none, none']
    exact .inl ⟨rfl, rfl⟩
  · rw [cut, cut', Option.filter_some, Option.filter_some]
    by_cases kept : keeps token = true
    · rw [if_pos kept, if_pos kept]
      exact .inr ⟨token, rest, rest', rfl, rfl, remains⟩
    · rw [if_neg kept, if_neg kept]
      exact .inl ⟨rfl, rfl⟩

theorem CutsBoth.mono {scanner : Scanner} {leaves leaves' : List Char → List Char → Prop}
    (cuts : CutsBoth scanner source source' leaves)
    (weaker : ∀ rest rest', leaves rest rest' → leaves' rest rest') :
    CutsBoth scanner source source' leaves' := by
  rcases cuts with none | ⟨token, rest, rest', cut, cut', holds⟩
  · exact .inl none
  · exact .inr ⟨token, rest, rest', cut, cut', weaker rest rest' holds⟩

theorem CutsBoth.anyOf {scanners : List Scanner} {leaves : List Char → List Char → Prop}
    (all : ∀ scanner ∈ scanners, CutsBoth scanner source source' leaves) :
    CutsBoth (Token.anyOf scanners) source source' leaves := by
  induction scanners with
  | nil => exact .inl ⟨rfl, rfl⟩
  | cons scanner scanners hypothesis =>
      obtain ⟨first, others⟩ := List.forall_mem_cons.mp all
      unfold CutsBoth
      rw [Token.anyOf_cons, Token.anyOf_cons]
      rcases first with ⟨none, none'⟩ | ⟨token, rest, rest', cut, cut', holds⟩
      · rw [none, none']
        exact hypothesis others
      · rw [cut, cut']
        exact .inr ⟨token, rest, rest', rfl, rfl, holds⟩

/-- A sign stands in front only as the beginning of a lexeme. -/
theorem exactly_eq_none {spelling : String} (listed : spelling ∈ signs)
    (other : ∀ token rest, lexeme source = some (token, rest) → ∀ more : List Char,
      (∀ char ∈ more.head?, sticks spelling char = true) → token ≠ spelling.toList ++ more) :
    Token.exactly spelling source = none := by
  cases found : Token.exactly spelling source with
  | none => rfl
  | some cut =>
      obtain ⟨_, split⟩ := Token.exactly_eq_some found
      obtain ⟨more, rest, _, whole, stuck⟩ := Token.lexeme_of_sign listed cut.2
      exact absurd rfl (other _ rest (split ▸ whole) more stuck)

/-- Both remainders begin with the same character, which is as described. -/
def BothBegin (begins : Char → Prop) (rest rest' : List Char) : Prop :=
  ∃ char part part', begins char ∧ rest = char :: part ∧ rest' = char :: part'

/-- The scanner for a sign cuts it off both remainders, or off neither.  It can be only
the beginning of the lexeme, and then the rest of the lexeme is left in both. -/
theorem Aligned.cut_sign (aligned : Aligned leftover limit limit' source source')
    {spelling : String} (listed : spelling ∈ signs) :
    CutsBoth (Token.exactly spelling) source source' fun rest rest' =>
      Remains leftover source.length source'.length rest rest' ∨
        BothBegin (fun char => sticks spelling char = true) rest rest' := by
  rcases aligned.cut_lexeme with ⟨none, none'⟩ | ⟨token, rest, rest', cut, cut', remains⟩
  · refine .inl ⟨exactly_eq_none listed ?_, exactly_eq_none listed ?_⟩
    · rw [none]
      exact nofun
    · rw [none']
      exact nofun
  · by_cases begins : ∃ more, token = spelling.toList ++ more ∧
        ∀ char ∈ more.head?, sticks spelling char = true
    · obtain ⟨more, rfl, stuck⟩ := begins
      obtain ⟨rfl, _⟩ := Token.lexeme_eq_some cut
      obtain ⟨rfl, _⟩ := Token.lexeme_eq_some cut'
      rw [List.append_assoc, List.append_assoc] at remains ⊢
      refine .inr ⟨_, more ++ rest, more ++ rest', Token.exactly_append spelling _,
        Token.exactly_append spelling _, ?_⟩
      cases more with
      | nil => exact .inl remains
      | cons char part =>
          exact .inr ⟨char, part ++ rest, part ++ rest', stuck char rfl, rfl, rfl⟩
    · have none : ∀ {source rest : List Char}, lexeme source = some (token, rest) →
          Token.exactly spelling source = none := by
        intro source rest cut
        refine exactly_eq_none listed fun found behind cut' more stuck same => ?_
        rw [cut] at cut'
        obtain ⟨rfl, _⟩ := Prod.mk.inj (Option.some.inj cut')
        exact begins ⟨more, same, stuck⟩
      exact .inl ⟨none cut, none cut'⟩

end TreeSelector.Grammar
