import TreeSelector.Language.Pattern
import TreeSelector.Proofs.Text.Sigmas

/-!
# Patterns and their own literals

A plain literal can be written in each of the three forms of a pattern.  The pattern accepts the
literal with anything around it that its form admits, unless a capital sigma of the literal has
another lower-case form there than alone.
-/

namespace TreeSelector

namespace Pattern

section Compilation

theorem literalBetween?_eq_some_iff {opening closing : String} {source middle : List Char} :
    literalBetween? opening closing source = some middle ↔
      source = opening.toList ++ (middle ++ closing.toList) ∧
        ∀ char ∈ middle, isSpecial char = false := by
  simp only [literalBetween?, Option.bind_eq_bind, Option.bind_eq_some_iff,
    Text.dropLeading?_eq_some_iff, Text.dropTrailing?_eq_some_iff]
  constructor
  · rintro ⟨rest, rfl, middle', rfl, plain⟩
    split at plain
    · cases plain
    · rename_i special
      obtain rfl := Option.some.inj plain
      exact ⟨rfl, by simpa using special⟩
  · rintro ⟨rfl, plain⟩
    exact ⟨_, rfl, middle, rfl, if_neg (by simpa using plain)⟩

/-- A source is in no form whose fixed ends leave a special character between them. -/
theorem foldedLiteral?_eq_none {opening closing : String} {source : List Char}
    (special : ∀ middle, source = opening.toList ++ (middle ++ closing.toList) →
      ∃ char ∈ middle, isSpecial char = true) : foldedLiteral? opening closing source = none := by
  refine Option.map_eq_none_iff.mpr (Option.eq_none_iff_forall_ne_some.mpr fun middle found => ?_)
  obtain ⟨same, plain⟩ := literalBetween?_eq_some_iff.mp found
  obtain ⟨char, member, meant⟩ := special middle same
  rw [plain char member] at meant
  cases meant

variable {literal : String} (plain : ∀ char ∈ literal.toList, isSpecial char = false)

include plain

theorem foldedLiteral?_of_plain (opening closing : String) :
    foldedLiteral? opening closing (opening.toList ++ (literal.toList ++ closing.toList)) =
      some (Text.lowercase literal) := by
  rw [foldedLiteral?, literalBetween?_eq_some_iff.mpr ⟨rfl, plain⟩]
  rfl

theorem compile?_leading :
    compile? ("(?is)" ++ literal ++ ".*") = some (.leading (Text.lowercase literal)) := by
  unfold compile?
  simp only [String.toList_append, List.append_assoc, foldedLiteral?_of_plain plain]
  rfl

theorem compile?_anywhere :
    compile? ("(?is).*" ++ literal ++ ".*") = some (.anywhere (Text.lowercase literal)) := by
  have notLeading : foldedLiteral? "(?is)" ".*"
      ("(?is).*".toList ++ (literal.toList ++ ".*".toList)) = none := by
    refine foldedLiteral?_eq_none fun middle same => ⟨'.', ?_, by decide⟩
    have between : '.' :: '*' :: literal.toList = middle :=
      List.append_cancel_right (@List.append_cancel_left _ "(?is)".toList _ _ same)
    exact between ▸ List.mem_cons_self
  unfold compile?
  simp only [String.toList_append, List.append_assoc, notLeading, foldedLiteral?_of_plain plain]
  rfl

/-- Only an empty literal leaves a source with a star at its end. -/
theorem eq_empty_of_endsInStar {front middle : List Char}
    (same : front ++ literal.toList = middle ++ ".*".toList) : literal = "" := by
  rcases literal.toList.eq_nil_or_concat with empty | ⟨chars, last, split⟩
  · exact String.toList_eq_nil_iff.mp empty
  · have star : last = '*' := by
      have ends := congrArg List.getLast? same
      simpa [split] using ends
    have special := plain last (by simp [split])
    rw [star] at special
    exact absurd special (by decide)

theorem compile?_trailing (filled : literal ≠ "") :
    compile? ("(?is).*" ++ literal) = some (.trailing (Text.lowercase literal)) := by
  have notLeading : foldedLiteral? "(?is)" ".*" ("(?is).*".toList ++ literal.toList) = none :=
    foldedLiteral?_eq_none fun middle same =>
      absurd (eq_empty_of_endsInStar plain (same.trans (List.append_assoc ..).symm)) filled
  have notAnywhere : foldedLiteral? "(?is).*" ".*" ("(?is).*".toList ++ literal.toList) = none :=
    foldedLiteral?_eq_none fun middle same =>
      absurd (eq_empty_of_endsInStar plain (same.trans (List.append_assoc ..).symm)) filled
  have folded := foldedLiteral?_of_plain plain "(?is).*" ""
  rw [String.toList_empty, List.append_nil] at folded
  unfold compile?
  simp only [String.toList_append, notLeading, notAnywhere, folded]
  rfl

end Compilation

section Literals

variable (literal text : String)

theorem accepts_leading_iff :
    (leading (Text.lowercase literal)).accepts text = true ↔
      Text.lowercaseChars literal.toList <+: Text.lowercaseChars text.toList := by
  simp [accepts, Text.beginsWith, Text.lowercase]

theorem accepts_anywhere_iff :
    (anywhere (Text.lowercase literal)).accepts text = true ↔
      Text.lowercaseChars literal.toList <:+: Text.lowercaseChars text.toList := by
  simp [accepts, Text.contains, Text.occursIn_iff, Text.lowercase]

theorem accepts_trailing_iff :
    (trailing (Text.lowercase literal)).accepts text = true ↔
      Text.lowercaseChars literal.toList <:+ Text.lowercaseChars text.toList := by
  simp [accepts, Text.endsWith, Text.lowercase]

/-- Where its sigmas stay what they are, a literal is found. -/
theorem accepts_anywhere_of_stays {before after : String}
    (noLoss : ¬ Text.LosesEnd literal.toList after.toList)
    (noGain : ¬ Text.GainsEnd before.toList literal.toList after.toList) :
    (anywhere (Text.lowercase literal)).accepts (before ++ literal ++ after) = true := by
  rw [accepts_anywhere_iff, String.toList_append, String.toList_append]
  exact Text.lowercaseChars_infix noLoss noGain

end Literals

/-- A plain literal makes a pattern in each of the three forms.  The literal with something behind
it is accepted by the first one exactly if no capital sigma loses the end of a word by that, and
the literal with something before it by the last one exactly if none gains it.  The literal with
something on both sides is accepted by the second one if neither happens; and it is accepted
whatever there is on both sides exactly if neither ever happens. -/
theorem accepts_own_literal_iff (literal : String)
    (plain : ∀ char ∈ literal.toList, isSpecial char = false) :
    (∃ pattern, compile? ("(?is)" ++ literal ++ ".*") = some pattern ∧
      ∀ after : String, pattern.accepts (literal ++ after) = true ↔
        ¬ Text.LosesEnd literal.toList after.toList) ∧
    (∃ pattern, compile? ("(?is).*" ++ literal ++ ".*") = some pattern ∧
      (∀ before after : String, ¬ Text.LosesEnd literal.toList after.toList →
        ¬ Text.GainsEnd before.toList literal.toList after.toList →
          pattern.accepts (before ++ literal ++ after) = true) ∧
      ((∀ before after : String, pattern.accepts (before ++ literal ++ after) = true) ↔
        ∀ before after : String, ¬ Text.LosesEnd literal.toList after.toList ∧
          ¬ Text.GainsEnd before.toList literal.toList after.toList)) ∧
    (∃ pattern, compile? ("(?is).*" ++ literal) = some pattern ∧
      ∀ before : String, pattern.accepts (before ++ literal) = true ↔
        ¬ Text.GainsEnd before.toList literal.toList []) := by
  refine ⟨⟨_, compile?_leading plain, fun after => ?_⟩,
    ⟨_, compile?_anywhere plain, fun _ _ => accepts_anywhere_of_stays literal, ?_⟩, ?_⟩
  · rw [accepts_leading_iff, String.toList_append]
    exact Text.lowercaseChars_prefix_iff
  · constructor
    · intro accepted before after
      refine Text.lowercaseChars_infix_always_iff.mp (fun front rest => ?_) before.toList after.toList
      have found := accepted (String.ofList front) (String.ofList rest)
      simpa [accepts_anywhere_iff] using found
    · intro never before after
      exact accepts_anywhere_of_stays literal (never before after).1 (never before after).2
  -- without a literal the last form is that of a pattern for the beginning of a text
  · rcases eq_or_ne literal "" with rfl | filled
    · refine ⟨.leading "", rfl, fun before => iff_of_true rfl ?_⟩
      rintro ⟨_, front, rest, split, _⟩
      simp at split
    · refine ⟨_, compile?_trailing plain filled, fun before => ?_⟩
      rw [accepts_trailing_iff, String.toList_append]
      exact Text.lowercaseChars_suffix_iff

theorem plain_of_all {literal : String}
    (all : literal.toList.all (fun char => !isSpecial char) = true) :
    ∀ char ∈ literal.toList, isSpecial char = false := by
  simpa using all

/-- A literal that ends in a sigma is found before a blank, and not before a letter. -/
theorem accepts_own_literal_odos :
    (∀ char ∈ "ΟΔΟΣ".toList, isSpecial char = false) ∧
      ∃ pattern, compile? ("(?is)" ++ "ΟΔΟΣ" ++ ".*") = some pattern ∧
        pattern.accepts ("ΟΔΟΣ" ++ " 5") = true ∧ pattern.accepts ("ΟΔΟΣ" ++ "Α") = false := by
  have plain : ∀ char ∈ "ΟΔΟΣ".toList, isSpecial char = false :=
    plain_of_all (by decide +kernel)
  obtain ⟨⟨pattern, compiled, accepted⟩, _⟩ := accepts_own_literal_iff "ΟΔΟΣ" plain
  have blank : Text.leadsToCased " 5".toList = false := by decide +kernel
  have letter : Text.leadsToCased "Α".toList = true := by decide +kernel
  have word : Text.leadsToCased ['Ο', 'Δ', 'Ο'].reverse = true := by decide +kernel
  refine ⟨plain, pattern, compiled, (accepted " 5").mpr fun loses => ?_, ?_⟩
  · exact Bool.noConfusion (blank.symm.trans loses.1)
  · exact Bool.eq_false_iff.mpr fun found => (accepted "Α").mp found
      ⟨letter, ['Ο', 'Δ', 'Ο'], [], by decide, word, rfl⟩

/-- A pattern can miss its own literal: a sigma ends a word in the literal and not in the text,
which begins with the literal. -/
theorem misses_own_literal :
    ¬ ∀ literal before after : String, (∀ char ∈ literal.toList, isSpecial char = false) →
      (∃ pattern, compile? ("(?is)" ++ literal ++ ".*") = some pattern ∧
        pattern.accepts (literal ++ after) = true) ∧
      (∃ pattern, compile? ("(?is).*" ++ literal ++ ".*") = some pattern ∧
        pattern.accepts (before ++ literal ++ after) = true) ∧
      (∃ pattern, compile? ("(?is).*" ++ literal) = some pattern ∧
        pattern.accepts (before ++ literal) = true) := by
  intro always
  obtain ⟨⟨pattern, compiled, accepted⟩, _⟩ := always "ΑΣ" "" "Α" (plain_of_all (by decide +kernel))
  have refused : (compile? "(?is)ΑΣ.*").map (·.accepts "ΑΣΑ") = some false := by decide +kernel
  rw [show compile? "(?is)ΑΣ.*" = some pattern from compiled] at refused
  exact Bool.noConfusion (accepted.symm.trans (Option.some.inj refused))

end Pattern

end TreeSelector
