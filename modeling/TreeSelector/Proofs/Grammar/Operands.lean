import TreeSelector.Language.Printer
import TreeSelector.Proofs.Grammar.Canonical

/-!
# Operands read back

An operand is written as a literal or a name, followed by members and calls one after
the other, and is read the same way.  Whatever follows the text of a canonical operand,
as long as it does not continue the operand, reading gives the operand back up to its
spans.
-/

namespace TreeSelector

open Grammar.Token (IsName IsIdentifier isNameStart isNameChar continuesName)

namespace Operand

/-- A member access or a call, as it stands behind an operand. -/
inductive Access where
  | member (property : Name)
  | call (arguments : List Operand)

namespace Access

/-- How the access is written. -/
def chars : Access → List Char
  | member property => '.' :: property.spelling.toList
  | call arguments => '(' :: ((renderAll arguments).toList ++ [')'])

def IsCanonical : Access → Prop
  | member property => property.IsWritten IsName
  | call arguments => AllCanonical arguments

end Access

/-- The literal or the name that an operand begins with. -/
def stem : Operand → Operand
  | member object _ _ | invoke object _ _ _ _ => object.stem
  | call function span _ _ => reference function span
  | other => other

/-- What stands behind the stem, in written order. -/
def accesses : Operand → List Access
  | member object property _ => object.accesses ++ [.member property]
  | call _ _ arguments _ => [.call arguments]
  | invoke object method _ arguments _ => object.accesses ++ [.member method, .call arguments]
  | _ => []

theorem accesses_stem : (operand : Operand) → operand.stem.accesses = []
  | null _ | boolean _ _ | integer _ _ | text _ _ _ | reference _ _ | call _ _ _ _ => rfl
  | member object _ _ | invoke object _ _ _ _ => accesses_stem object

theorem isCanonical_stem : {operand : Operand} → operand.IsCanonical → operand.stem.IsCanonical
  | null _, canonical | boolean _ _, canonical | integer _ _, canonical
  | text _ _ _, canonical | reference _ _, canonical => canonical
  | call _ _ _ _, canonical => canonical.1
  | member object _ _, canonical | invoke object _ _ _ _, canonical =>
      @isCanonical_stem object canonical.1

theorem isCanonical_accesses : {operand : Operand} → operand.IsCanonical →
    ∀ access ∈ operand.accesses, access.IsCanonical
  | null _, _ | boolean _ _, _ | integer _ _, _ | text _ _ _, _ | reference _ _, _ => nofun
  | call _ _ arguments _, canonical => by
      intro access member
      obtain rfl := List.mem_singleton.mp member
      exact canonical.2
  | member object property _, canonical => by
      intro access member
      rcases List.mem_append.mp member with front | last
      · exact isCanonical_accesses canonical.1 access front
      · obtain rfl := List.mem_singleton.mp last
        exact canonical.2
  | invoke object method _ arguments _, canonical => by
      intro access member
      rcases List.mem_append.mp member with front | last
      · exact isCanonical_accesses canonical.1 access front
      · rcases List.mem_cons.mp last with rfl | last
        · exact canonical.2.1
        · obtain rfl := List.mem_singleton.mp last
          exact canonical.2.2

/-- An operand is written as its stem and what stands behind it. -/
theorem toList_render : (operand : Operand) →
    operand.render.toList = operand.stem.render.toList ++ operand.accesses.flatMap Access.chars
  | null _ | boolean _ _ | integer _ _ | text _ _ _ | reference _ _ =>
      (List.append_nil _).symm
  | member object property _ => by
      simp [render, stem, accesses, Access.chars, toList_render object]
  | call function _ arguments _ => by
      simp [render, stem, accesses, Access.chars]
  | invoke object method _ arguments _ => by
      simp [render, stem, accesses, Access.chars, toList_render object]

theorem toList_renderAll (first : Operand) (others : List Operand) :
    (renderAll (first :: others)).toList =
      first.render.toList ++ others.flatMap fun other => ',' :: other.render.toList := by
  induction others generalizing first with
  | nil => simp [renderAll]
  | cons second others hypothesis => simp [renderAll, hypothesis second]

theorem unplacedAll_eq_map (operands : List Operand) :
    unplacedAll operands = operands.map unplaced := by
  induction operands with
  | nil => rfl
  | cons operand operands hypothesis => rw [unplacedAll, hypothesis, List.map_cons]

theorem length_le_of_mem_flatMap {α β : Type} {item : α} {items : List α}
    (listed : item ∈ items) (text : α → List β) :
    (text item).length ≤ (items.flatMap text).length := by
  rw [List.flatMap_def]
  exact (List.sublist_flatten_of_mem (List.mem_map_of_mem listed)).length_le

theorem length_render_of_mem {operand : Operand} {arguments : List Operand}
    (listed : operand ∈ arguments) :
    operand.render.toList.length ≤ (renderAll arguments).toList.length := by
  induction arguments with
  | nil => cases listed
  | cons first others hypothesis =>
      rw [toList_renderAll, List.length_append]
      rcases List.mem_cons.mp listed with rfl | later
      · omega
      · have bound := length_le_of_mem_flatMap later fun other => ',' :: other.render.toList
        rw [List.length_cons] at bound
        omega

end Operand

namespace Grammar

open Reader

/-- There is no error, and the value is the expected one as far as `forget` tells. -/
def Checked.Agrees {α β : Type} (forget : α → β) (expected : α) (checked : Checked α) : Prop :=
  ∃ value, checked = .ok value ∧ forget value = forget expected

theorem Checked.Agrees.all {α β : Type} {forget : α → β} {items : List α}
    {pieces : List (Checked α)} (agrees : List.Forall₂ (Checked.Agrees forget) items pieces) :
    ∃ values, Checked.all pieces = .ok values ∧ values.map forget = items.map forget := by
  induction agrees with
  | nil => exact ⟨[], rfl, rfl⟩
  | cons first _ hypothesis =>
      obtain ⟨value, rfl, same⟩ := first
      obtain ⟨values, read, others⟩ := hypothesis
      refine ⟨value :: values, ?_, ?_⟩
      · rw [Checked.all, read]
        rfl
      · rw [List.map_cons, List.map_cons, same, others]

theorem forall₂_append_split {α β : Type} {related : α → β → Prop} {first second : List α}
    {values : List β} (all : List.Forall₂ related (first ++ second) values) :
    ∃ front back, values = front ++ back ∧ List.Forall₂ related first front ∧
      List.Forall₂ related second back := by
  induction first generalizing values with
  | nil => exact ⟨[], values, rfl, .nil, all⟩
  | cons item first hypothesis =>
      cases all with
      | cons here others =>
          obtain ⟨front, back, rfl, left, right⟩ := hypothesis others
          exact ⟨_ :: front, back, rfl, .cons here left, right⟩

section Rebuilding

/-- The suffix is one that the access can be read as. -/
inductive Suffix.Spells : Operand.Access → Suffix → Prop
  | member {property : Name} {span : Span} : Spells (.member property) (.member property span)
  | call {arguments values : List Operand} {span : Span}
      (same : Operand.unplacedAll values = Operand.unplacedAll arguments) :
      Spells (.call arguments) (.call (.ok values) span)

/-- What it takes to rebuild an operand: its stem and suffixes for its accesses. -/
def Rebuilds (operand : Operand) : Prop :=
  ∀ {start : Operand} {suffixes : List Suffix}, start.unplaced = operand.stem.unplaced →
    List.Forall₂ Suffix.Spells operand.accesses suffixes →
      Checked.Agrees Operand.unplaced operand (suffixes.foldlM Suffix.applyTo start)

theorem rebuilds_plain {operand : Operand} (stem : operand.stem = operand)
    (plain : operand.accesses = []) : Rebuilds operand := by
  intro start suffixes same all
  rw [plain] at all
  cases all
  exact ⟨start, rfl, stem ▸ same⟩

theorem rebuilds_call (function : Name) (functionSpan : Span) (arguments : List Operand)
    (span : Span) : Rebuilds (.call function functionSpan arguments span) := by
  intro start suffixes same all
  cases all with
  | cons last none =>
      cases none
      cases last with
      | call sameArguments =>
          cases start with
          | reference name nameSpan =>
              obtain ⟨rfl, -⟩ := Operand.reference.inj same
              refine ⟨_, rfl, ?_⟩
              rw [Operand.unplaced, sameArguments, Operand.unplaced]
          | _ => cases same

theorem rebuilds_member {object : Operand} (rebuilds : Rebuilds object) (property : Name)
    (span : Span) : Rebuilds (.member object property span) := by
  intro start suffixes same all
  obtain ⟨front, back, rfl, left, right⟩ := forall₂_append_split all
  obtain ⟨value, built, agrees⟩ := rebuilds same left
  cases right with
  | cons last none =>
      cases last
      cases none
      rw [List.foldlM_append, built]
      refine ⟨_, rfl, ?_⟩
      rw [Operand.unplaced, agrees, Operand.unplaced]

theorem rebuilds_invoke {object : Operand} (rebuilds : Rebuilds object) (method : Name)
    (methodSpan : Span) (arguments : List Operand) (span : Span) :
    Rebuilds (.invoke object method methodSpan arguments span) := by
  intro start suffixes same all
  obtain ⟨front, back, rfl, left, right⟩ := forall₂_append_split all
  obtain ⟨value, built, agrees⟩ := rebuilds same left
  cases right with
  | cons access right =>
      cases access
      cases right with
      | cons last none =>
          cases none
          cases last with
          | call sameArguments =>
              rw [List.foldlM_append, built]
              refine ⟨_, rfl, ?_⟩
              rw [Operand.unplaced, agrees, sameArguments, Operand.unplaced]

/-- Applying what stands behind the stem to the stem gives the operand back. -/
theorem rebuilds : (operand : Operand) → Rebuilds operand
  | .null _ | .boolean _ _ | .integer _ _ | .text _ _ _ | .reference _ _ =>
      rebuilds_plain rfl rfl
  | .call function functionSpan arguments span =>
      rebuilds_call function functionSpan arguments span
  | .member object property span => rebuilds_member (rebuilds object) property span
  | .invoke object method methodSpan arguments span =>
      rebuilds_invoke (rebuilds object) method methodSpan arguments span

end Rebuilding

section Beginnings

/-- Whether an operand can begin with the character. -/
def opensOperand (char : Char) : Bool := isNameChar char || char = '-' || char = '"'

theorem ne_of_opensOperand {char : Char} (other : Char) (opens : opensOperand char = true)
    (different : opensOperand other = false) : char ≠ other := by
  rintro rfl
  rw [opens] at different
  cases different

theorem isBlank_of_opensOperand {char : Char} (opens : opensOperand char = true) :
    isBlank char = false := by
  have space := ne_of_opensOperand ' ' opens (by decide)
  have tab := ne_of_opensOperand '\t' opens (by decide)
  have carriage := ne_of_opensOperand '\r' opens (by decide)
  have line := ne_of_opensOperand '\n' opens (by decide)
  simp [isBlank, space, tab, carriage, line]

theorem opensOperand_of_isNameChar {char : Char} (name : isNameChar char = true) :
    opensOperand char = true := by
  unfold opensOperand
  rw [name]
  rfl

theorem head_of_isName {chars : List Char} (name : IsName chars) :
    ∃ char part, chars = char :: part ∧ isNameStart char = true := by
  obtain ⟨char, part, rfl, starts, _⟩ := name
  exact ⟨char, part, rfl, starts⟩

theorem head_of_stem {operand : Operand} (canonical : operand.IsCanonical)
    (plain : operand.accesses = []) :
    ∃ char part, operand.render.toList = char :: part ∧ opensOperand char = true := by
  cases operand with
  | null span => exact ⟨'n', ['u', 'l', 'l'], by simp [Operand.render], by decide⟩
  | boolean value span =>
      cases value with
      | true => exact ⟨'t', ['r', 'u', 'e'], by simp [Operand.render], by decide⟩
      | false => exact ⟨'f', ['a', 'l', 's', 'e'], by simp [Operand.render], by decide⟩
  | integer value span =>
      obtain ⟨char, part, text, minus | digit⟩ := Text.Radix.exists_integerText_cons value.toInt
      · exact ⟨char, part, by rw [Operand.render, Text.signedDecimal, String.toList_ofList, text],
          by rw [minus]; decide⟩
      · exact ⟨char, part, by rw [Operand.render, Text.signedDecimal, String.toList_ofList, text],
          opensOperand_of_isNameChar (Token.isNameChar_of_isDigit digit)⟩
  | text value pattern span => exact ⟨'"', _, String.toList_ofList, by decide⟩
  | reference name span =>
      obtain ⟨char, part, text, starts⟩ := head_of_isName canonical.shaped.1
      exact ⟨char, part, text,
        opensOperand_of_isNameChar (Token.isNameChar_of_isNameStart starts)⟩
  | call function functionSpan arguments span => cases plain
  | member object property span => exact absurd plain (by simp [Operand.accesses])
  | invoke object method methodSpan arguments span =>
      exact absurd plain (by simp [Operand.accesses])

theorem head_of_operand {operand : Operand} (canonical : operand.IsCanonical) :
    ∃ char part, operand.render.toList = char :: part ∧ opensOperand char = true := by
  obtain ⟨char, part, text, opens⟩ :=
    head_of_stem (Operand.isCanonical_stem canonical) (Operand.accesses_stem operand)
  refine ⟨char, part ++ operand.accesses.flatMap Operand.Access.chars, ?_, opens⟩
  rw [Operand.toList_render, text, List.cons_append]

theorem strip_operand {operand : Operand} (canonical : operand.IsCanonical) (rest : List Char) :
    strip (operand.render.toList ++ rest) = operand.render.toList ++ rest := by
  obtain ⟨char, part, text, opens⟩ := head_of_operand canonical
  rw [text, List.cons_append, strip_cons (isBlank_of_opensOperand opens)]

end Beginnings

section Stems

variable {rest : List Char}

theorem boolean_append (value : Bool) (ends : continuesName rest = false) :
    Token.boolean ((if value then "true" else "false").toList ++ rest) =
      some ((if value then "true" else "false").toList, rest) := by
  unfold Token.boolean Token.anyOf
  rw [List.findSome?_cons]
  cases value with
  | true =>
      rw [if_pos rfl, Token.word_append ends]
  | false =>
      have other : Token.word "true" ("false".toList ++ rest) = none :=
        Token.word_eq_none_of_head (by rfl) (by decide)
      rw [if_neg Bool.false_ne_true, other, List.findSome?_cons, Token.word_append ends]

theorem boolean_eq_none {source : List Char} (others : Token.word "true" source = none)
    (others' : Token.word "false" source = none) : Token.boolean source = none := by
  unfold Token.boolean Token.anyOf
  rw [List.findSome?_cons, others, List.findSome?_cons, others']
  rfl

theorem boolean_eq_none_of_head {char : Char} {source : List Char}
    (different : char ≠ 't' ∧ char ≠ 'f') : Token.boolean (char :: source) = none :=
  boolean_eq_none (Token.word_eq_none_of_head (by rfl) (Ne.symm different.1))
    (Token.word_eq_none_of_head (by rfl) (Ne.symm different.2))

theorem null_eq_none_of_head {char : Char} {source : List Char} (different : char ≠ 'n') :
    Token.null (char :: source) = none :=
  Token.word_eq_none_of_head (by rfl) (Ne.symm different)

/-- What reading the stem of an operand comes to. -/
def ReadsStem (operand : Operand) (rest : List Char) : Prop :=
  primary.Reads (operand.render.toList ++ rest) fun value rest' =>
    Checked.Agrees Operand.unplaced operand value ∧ rest' = rest

theorem boolean_reads (value : Bool) (span : Span) (ends : continuesName rest = false) :
    ReadsStem (.boolean value span) rest := by
  have notNull : Token.null ((if value then "true" else "false").toList ++ rest) = none := by
    cases value <;> exact null_eq_none_of_head (by decide)
  refine .right (.map (.token notNull)) (.left (.map (.token (boolean_append value ends) ?_)))
  refine fun span => ⟨⟨.boolean value span, ?_, rfl⟩, rfl⟩
  cases value <;> rfl

theorem integer_reads (value : Int32) (span : Span) (ends : continuesName rest = false) :
    ReadsStem (.integer value span) rest := by
  obtain ⟨char, part, text, first⟩ := Text.Radix.exists_integerText_cons value.toInt
  have shape : (Operand.integer value span).render.toList = char :: part := by
    rw [Operand.render, Text.signedDecimal, String.toList_ofList, text]
  have different : ∀ letter, letter ≠ '-' → letter.isDigit = false → char ≠ letter := by
    rintro letter unsigned other rfl
    rcases first with minus | digit
    · exact unsigned minus
    · rw [digit] at other
      cases other
  have cut := Token.integer_integerText value.toInt ends
  unfold ReadsStem
  rw [shape]
  rw [text] at cut
  refine .right (.map (.token (null_eq_none_of_head (different 'n' (by decide) rfl)))) ?_
  refine .right (.map (.token (boolean_eq_none_of_head
    ⟨different 't' (by decide) rfl, different 'f' (by decide) rfl⟩))) ?_
  refine .left (.map (.token cut fun span => ⟨⟨.integer value span, ?_, rfl⟩, rfl⟩))
  unfold integerOf
  rw [← text, Text.Radix.integer?_integerText (by decide) (by decide), Option.bind_some,
    Text.int32?_toInt]

theorem text_reads (value : String) (span : Span) (rest : List Char) :
    ReadsStem (.text value none span) rest := by
  have shape : (Operand.text value none span).render.toList =
      '"' :: (Text.Escape.encode value.toList ++ ['"']) := String.toList_ofList
  have cut : Token.text ((Operand.text value none span).render.toList ++ rest) =
      some ((Operand.text value none span).render.toList, rest) := Token.text_quote value rest
  unfold ReadsStem
  rw [shape] at cut ⊢
  refine .right (.map (.token (null_eq_none_of_head (by decide)))) ?_
  refine .right (.map (.token (boolean_eq_none_of_head (by decide)))) ?_
  refine .right (.map (.token (Token.integer_eq_none (by decide) (by decide)))) ?_
  refine .left (.map (.token cut fun span => ⟨⟨.text value none span, ?_, rfl⟩, rfl⟩))
  have body : Lexeme.body ⟨'"' :: (Text.Escape.encode value.toList ++ ['"']), span⟩ =
      Text.Escape.encode value.toList := List.dropLast_concat
  unfold textOf
  rw [body, Text.Escape.decode_encode]
  exact congrArg (fun text => Except.ok (Operand.text text none span)) String.ofList_toList

theorem reference_reads {name : Name} (written : name.IsWritten IsIdentifier) (span : Span)
    (ends : continuesName rest = false) : ReadsStem (.reference name span) rest := by
  obtain ⟨proper, noKeyword⟩ := written.shaped
  have refused : ∀ keyword ∈ Token.keywords,
      Token.word keyword (name.spelling.toList ++ rest) = none := fun keyword listed =>
    Token.word_eq_none proper ends (Token.letters_of_mem_keywords keyword listed)
      (noKeyword keyword listed)
  have cut := Token.identifier_append written.shaped ends
  have notNull : Token.null (name.spelling.toList ++ rest) = none :=
    refused "null" (by decide)
  have notBoolean : Token.boolean (name.spelling.toList ++ rest) = none :=
    boolean_eq_none (refused "true" (by decide)) (refused "false" (by decide))
  obtain ⟨char, part, text, starts⟩ := head_of_isName proper
  have different : ∀ other, isNameStart other = false → char ≠ other := by
    rintro other outside rfl
    rw [starts] at outside
    cases outside
  have notInteger : Token.integer (name.spelling.toList ++ rest) = none := by
    rw [text]
    exact Token.integer_eq_none (different '-' (by decide)) (Token.isDigit_of_isNameStart starts)
  have notText : Token.text (name.spelling.toList ++ rest) = none := by
    rw [text]
    exact Token.text_eq_none ⟨different '"' (by decide), different '\'' (by decide)⟩
  refine .right (.map (.token notNull)) (.right (.map (.token notBoolean)) ?_)
  refine .right (.map (.token notInteger)) (.right (.map (.token notText)) ?_)
  refine .map (.token cut fun span => ⟨⟨.reference name span, ?_, rfl⟩, rfl⟩)
  have content : Lexeme.content ⟨name.spelling.toList, span⟩ = name.spelling :=
    String.ofList_toList
  rw [content, ← written.faithful]

/-- The stem of an operand is read by its own alternative, as the earlier ones refuse it. -/
theorem primary_reads {operand : Operand} (canonical : operand.IsCanonical)
    (plain : operand.accesses = []) (ends : continuesName rest = false) :
    ReadsStem operand rest := by
  cases operand with
  | null span =>
      exact .left (.map (.token (Token.word_append ends) fun span => ⟨⟨_, rfl, rfl⟩, rfl⟩))
  | boolean value span => exact boolean_reads value span ends
  | integer value span => exact integer_reads value span ends
  | text value pattern span =>
      obtain rfl : pattern = none := canonical
      exact text_reads value span rest
  | reference name span => exact reference_reads canonical span ends
  | call function functionSpan arguments span => cases plain
  | member object property span => exact absurd plain (by simp [Operand.accesses])
  | invoke object method methodSpan arguments span =>
      exact absurd plain (by simp [Operand.accesses])

/-- No operand begins with a character that can neither begin a name, a number nor a string. -/
theorem primary_fails {char : Char} (closed : opensOperand char = false) (single : char ≠ '\'')
    (source : List Char) : primary.Fails (char :: source) := by
  have different : ∀ other, opensOperand other = true → char ≠ other := fun other opens same =>
    ne_of_opensOperand char opens closed same.symm
  have noName : ¬ isNameChar char = true :=
    fun letter => different char (opensOperand_of_isNameChar letter) rfl
  have noDigit : char.isDigit = false :=
    Bool.eq_false_iff.mpr fun digit => noName (Token.isNameChar_of_isDigit digit)
  have notName : Token.identifier (char :: source) = none := by
    have notStart : ¬ isNameStart char = true :=
      fun starts => noName (Token.isNameChar_of_isNameStart starts)
    unfold Token.identifier
    rw [Token.name, if_neg notStart]
    exact ite_self none
  refine .both (.map (.token (null_eq_none_of_head (different 'n' (by decide))))) ?_
  refine .both (.map (.token (boolean_eq_none_of_head
    ⟨different 't' (by decide), different 'f' (by decide)⟩))) ?_
  refine .both (.map (.token (Token.integer_eq_none (different '-' (by decide)) noDigit))) ?_
  exact .both (.map (.token (Token.text_eq_none ⟨different '"' (by decide), single⟩)))
    (.map (.token notName))

end Stems

section Accesses

/-- What can follow an operand: nothing that continues a name and, past blanks, neither
a dot nor an opening parenthesis. -/
structure EndsOperand (rest : List Char) : Prop where
  name : continuesName rest = false
  access : ∀ char ∈ (strip rest).head?, char ≠ '.' ∧ char ≠ '('

theorem EndsOperand.cons {char : Char} (solid : isBlank char = false)
    (outside : isNameChar char = false) (other : char ≠ '.' ∧ char ≠ '(') (rest : List Char) :
    EndsOperand (char :: rest) := by
  refine ⟨outside, ?_⟩
  rw [strip_cons solid]
  intro found member
  obtain rfl := Option.some.inj member
  exact other

/-- Whatever follows, the reader gets the operand off its text up to spans. -/
def ReadsOperand (reader : Reader (Checked Operand)) (operand : Operand) : Prop :=
  ∀ rest, EndsOperand rest → reader.Reads (operand.render.toList ++ rest) fun value rest' =>
    Checked.Agrees Operand.unplaced operand value ∧ strip rest' = strip rest

variable {argument : Reader (Checked Operand)} {rest : List Char}

theorem suffix_fails (ends : EndsOperand rest) :
    (memberSuffix.orElse (callSuffix argument)).Fails (strip rest) := by
  have noDot : (literal ".").Fails (strip rest) :=
    .sign rfl fun char found => (ends.access char found).1
  have noOpening : (literal "(").Fails (strip rest) :=
    .sign rfl fun char found => (ends.access char found).2
  exact .both (Fails.bind (.placed (.rule noDot.bind))) (Fails.bind (.placed (.rule noOpening.bind)))

theorem memberSuffix_reads {property : Name} (written : property.IsWritten IsName)
    (ends : continuesName rest = false) :
    memberSuffix.Reads ('.' :: (property.spelling.toList ++ rest)) fun suffix rest' =>
      Suffix.Spells (.member property) suffix ∧ rest' = rest := by
  obtain ⟨char, part, text, starts⟩ := head_of_isName written.shaped
  have solid : strip (property.spelling.toList ++ rest) = property.spelling.toList ++ rest := by
    rw [text, List.cons_append, strip_cons]
    exact isBlank_of_opensOperand (opensOperand_of_isNameChar
      (Token.isNameChar_of_isNameStart starts))
  have cut := Token.name_append written.shaped ends
  have dotted : (do
        let _ ← literal "."
        let _ ← blanks
        token .memberName Token.name).Reads ('.' :: (property.spelling.toList ++ rest))
      fun lexeme rest' => lexeme.text = property.spelling.toList ∧ rest' = rest := by
    refine .afterSign rfl fun _ => .afterBlanks fun _ => ?_
    rw [solid]
    exact .token cut fun _ => ⟨rfl, rfl⟩
  refine dotted.placed fun lexeme span rest' holds => .pure ⟨?_, holds.2⟩
  have content : lexeme.content = property.spelling := by
    rw [Lexeme.content, holds.1, String.ofList_toList]
  rw [content, ← written.faithful]
  exact .member

theorem commaSeparated_reads {first : Operand} {others : List Operand}
    (canonical : ∀ other ∈ first :: others, other.IsCanonical)
    (reads : ∀ other ∈ first :: others, ReadsOperand argument other) (rest : List Char) :
    (commaSeparated argument).Reads
      ((Operand.renderAll (first :: others)).toList ++ ')' :: rest) fun values rest' =>
        List.Forall₂ (Checked.Agrees Operand.unplaced) (first :: others) values ∧
          strip rest' = ')' :: rest := by
  let text : Operand → List Char := fun other => ',' :: other.render.toList
  have ends : ∀ after : List Operand, EndsOperand (after.flatMap text ++ ')' :: rest) := by
    intro after
    cases after with
    | nil => exact .cons (by decide) (by decide) (by decide) rest
    | cons other after => exact .cons (by decide) (by decide) (by decide) _
  have comma : ∀ source, strip (',' :: source) = ',' :: source := strip_cons (by decide)
  have closing : strip (')' :: rest) = ')' :: rest := strip_cons (by decide) rest
  have further : (many do
        let _ ← literal ","
        let _ ← blanks
        argument).Reads (strip (others.flatMap text ++ ')' :: rest)) fun values rest' =>
      List.Forall₂ (Checked.Agrees Operand.unplaced) others values ∧
        strip rest' = strip (')' :: rest) := by
    refine .many (fun other _ => ?_) ?_ fun other after within => ?_
    · rw [comma]
      exact List.cons_ne_nil _ _
    · rw [closing]
      refine Fails.bind (.sign rfl fun char found => ?_)
      obtain rfl := Option.some.inj found
      decide
    · have listed : other ∈ first :: others :=
        List.mem_cons_of_mem first (within.mem List.mem_cons_self)
      rw [List.cons_append, comma]
      refine .afterSign rfl fun _ => .afterBlanks fun _ => ?_
      rw [strip_operand (canonical other listed)]
      exact reads other listed _ (ends after)
  rw [Operand.toList_renderAll, List.append_assoc]
  refine (reads first List.mem_cons_self _ (ends others)).bind fun value rest' holds => ?_
  refine .afterBlanks fun _ => holds.2 ▸ further.bind fun values rest'' all => .pure ?_
  exact ⟨.cons holds.1 all.1, closing ▸ all.2⟩

theorem arguments_reads {arguments : List Operand}
    (canonical : ∀ other ∈ arguments, other.IsCanonical)
    (reads : ∀ other ∈ arguments, ReadsOperand argument other)
    (fails : argument.Fails (')' :: rest)) :
    (optional (commaSeparated argument)).Reads
      (strip ((Operand.renderAll arguments).toList ++ ')' :: rest)) fun found rest' =>
        List.Forall₂ (Checked.Agrees Operand.unplaced) arguments (found.getD []) ∧
          strip rest' = ')' :: rest := by
  have closing : strip (')' :: rest) = ')' :: rest := strip_cons (by decide) rest
  cases arguments with
  | nil =>
      have none : strip ((Operand.renderAll []).toList ++ ')' :: rest) = ')' :: rest := closing
      rw [none]
      exact .absent fails.bind ⟨.nil, closing⟩
  | cons first others =>
      have solid : strip ((Operand.renderAll (first :: others)).toList ++ ')' :: rest) =
          (Operand.renderAll (first :: others)).toList ++ ')' :: rest := by
        rw [Operand.toList_renderAll, List.append_assoc,
          strip_operand (canonical first List.mem_cons_self)]
      rw [solid]
      exact .present (commaSeparated_reads canonical reads rest)

theorem callSuffix_reads {arguments : List Operand}
    (canonical : ∀ other ∈ arguments, other.IsCanonical)
    (reads : ∀ other ∈ arguments, ReadsOperand argument other)
    (fails : argument.Fails (')' :: rest)) :
    (callSuffix argument).Reads
      ('(' :: ((Operand.renderAll arguments).toList ++ ')' :: rest)) fun suffix rest' =>
        Suffix.Spells (.call arguments) suffix ∧ rest' = rest := by
  have enclosed : (do
        let _ ← literal "("
        let _ ← blanks
        let arguments ← optional (commaSeparated argument)
        let _ ← blanks
        let _ ← literal ")"
        return arguments.getD []).Reads
      ('(' :: ((Operand.renderAll arguments).toList ++ ')' :: rest)) fun values rest' =>
        List.Forall₂ (Checked.Agrees Operand.unplaced) arguments values ∧ rest' = rest := by
    refine .afterSign rfl fun _ => .afterBlanks fun _ => ?_
    refine (arguments_reads canonical reads fails).bind fun found rest' holds => ?_
    refine .afterBlanks fun _ => ?_
    rw [holds.2]
    exact .afterSign rfl fun _ => .pure ⟨holds.1, rfl⟩
  refine enclosed.placed fun values span rest' holds => ?_
  obtain ⟨values, read, same⟩ := Checked.Agrees.all holds.1
  refine .pure ⟨?_, holds.2⟩
  rw [read]
  refine .call ?_
  rw [Operand.unplacedAll_eq_map, Operand.unplacedAll_eq_map, same]

theorem chars_head (access : Operand.Access) :
    ∃ char part, access.chars = char :: part ∧ (char = '.' ∨ char = '(') := by
  cases access with
  | member property => exact ⟨'.', _, rfl, .inl rfl⟩
  | call arguments => exact ⟨'(', _, rfl, .inr rfl⟩

theorem strip_access (access : Operand.Access) (rest : List Char) :
    strip (access.chars ++ rest) = access.chars ++ rest := by
  obtain ⟨char, part, text, rfl | rfl⟩ := chars_head access
  · rw [text, List.cons_append, strip_cons (by decide)]
  · rw [text, List.cons_append, strip_cons (by decide)]

theorem not_continuesName_accesses (ends : continuesName rest = false)
    (accesses : List Operand.Access) :
    continuesName (accesses.flatMap Operand.Access.chars ++ rest) = false := by
  cases accesses with
  | nil => exact ends
  | cons access accesses =>
      obtain ⟨char, part, text, rfl | rfl⟩ := chars_head access
      · rw [List.flatMap_cons, text]
        rfl
      · rw [List.flatMap_cons, text]
        rfl

theorem access_reads {access : Operand.Access} (canonical : access.IsCanonical)
    (reads : ∀ arguments, access = .call arguments →
      ∀ other ∈ arguments, ReadsOperand argument other)
    (fails : ∀ source, argument.Fails (')' :: source)) (ends : continuesName rest = false) :
    (memberSuffix.orElse (callSuffix argument)).Reads (access.chars ++ rest)
      fun suffix rest' => Suffix.Spells access suffix ∧ rest' = rest := by
  cases access with
  | member property => exact .left (memberSuffix_reads canonical ends)
  | call arguments =>
      have noDot : memberSuffix.Fails ((Operand.Access.call arguments).chars ++ rest) := by
        refine Fails.bind (.placed (.rule (Fails.bind (.sign rfl fun char found => ?_))))
        obtain rfl := Option.some.inj found
        decide
      refine .right noDot ?_
      rw [Operand.Access.chars, List.cons_append, List.append_assoc]
      exact callSuffix_reads (Operand.allCanonical_iff.mp canonical) (reads arguments rfl) (fails rest)

theorem operandAround_reads {operand : Operand} (canonical : operand.IsCanonical)
    (reads : ∀ arguments, .call arguments ∈ operand.accesses →
      ∀ other ∈ arguments, ReadsOperand argument other)
    (fails : ∀ source, argument.Fails (')' :: source)) :
    ReadsOperand (operandAround argument) operand := by
  intro rest ends
  rw [Operand.toList_render, List.append_assoc]
  have start := primary_reads (Operand.isCanonical_stem canonical)
    (Operand.accesses_stem operand) (not_continuesName_accesses ends.name operand.accesses)
  refine .rule (start.bind fun value rest' holds => .afterBlanks fun _ => ?_)
  have suffixes : (many (memberSuffix.orElse (callSuffix argument))).Reads
      (strip (operand.accesses.flatMap Operand.Access.chars ++ rest)) fun values rest' =>
        List.Forall₂ Suffix.Spells operand.accesses values ∧ strip rest' = strip rest := by
    refine .many (fun access _ => ?_) (suffix_fails ends) fun access after within => ?_
    · obtain ⟨char, part, text, opens⟩ := chars_head access
      have whole := strip_access access []
      rw [List.append_nil] at whole
      rw [whole, text]
      exact List.cons_ne_nil _ _
    · have listed : access ∈ operand.accesses := within.mem List.mem_cons_self
      have here := access_reads (Operand.isCanonical_accesses canonical access listed)
        (fun arguments same => reads arguments (same ▸ listed)) fails
        (not_continuesName_accesses ends.name after)
      rw [strip_access]
      exact here.mono fun suffix rest' spelled => ⟨spelled.1, congrArg strip spelled.2⟩
  rw [holds.2]
  refine suffixes.bind fun values rest'' all => .pure ⟨?_, all.2⟩
  obtain ⟨stem, rfl, same⟩ := holds.1
  exact rebuilds operand same all.1

theorem operand_fails (depth : Nat) {char : Char} (closed : opensOperand char = false)
    (single : char ≠ '\'') (source : List Char) : (operand depth).Fails (char :: source) := by
  cases depth with
  | zero => exact fun _ => rfl
  | succ depth => exact .rule (primary_fails closed single source).bind

theorem length_render_of_call {operand other : Operand} {arguments : List Operand}
    (called : .call arguments ∈ operand.accesses) (listed : other ∈ arguments) :
    other.render.toList.length < operand.render.toList.length := by
  have inside := Operand.length_render_of_mem listed
  have whole := Operand.length_le_of_mem_flatMap called Operand.Access.chars
  rw [Operand.toList_render operand, List.length_append]
  rw [Operand.Access.chars, List.length_cons, List.length_append] at whole
  omega

/-- An operand is read back from its text, up to spans, if the depth that calls may
have exceeds the length of that text. -/
theorem operand_reads {depth : Nat} {operand : Operand} (canonical : operand.IsCanonical)
    (deep : operand.render.toList.length < depth) :
    ReadsOperand (Grammar.operand depth) operand := by
  induction depth generalizing operand with
  | zero => exact absurd deep (Nat.not_lt_zero _)
  | succ depth hypothesis =>
      -- the arguments of a call have shorter texts, so one level less is enough for them
      refine operandAround_reads canonical ?_ (operand_fails depth (by decide) (by decide))
      intro arguments called other listed
      have proper := Operand.isCanonical_accesses canonical _ called
      have shorter := length_render_of_call called listed
      exact hypothesis (Operand.allCanonical_iff.mp proper other listed) (by omega)

end Accesses

end Grammar

end TreeSelector
