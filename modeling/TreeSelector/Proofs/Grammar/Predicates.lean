import TreeSelector.Proofs.Grammar.Operands

/-!
# Predicates read back

The canonical text of a predicate is a row of terms with junctions between them, where
a term is a comparison or a predicate in parentheses.  Combining the terms of the row
by precedence gives the predicate back, so the parentheses that are left out of the
text are never missed.
-/

namespace TreeSelector

namespace Predicate

open Grammar (Junction combine combineFrom)

/-- The text of a predicate as a term: all but comparisons are in parentheses. -/
def termText (predicate : Predicate) : String :=
  parenthesize (predicate.precedence ≤ 2) predicate.render

theorem toList_termText {predicate : Predicate} (loose : predicate.precedence ≤ 2) :
    predicate.termText.toList = '(' :: (predicate.render.toList ++ [')']) := by
  simp [termText, parenthesize, loose]

theorem toList_termText_compare (comparison : Comparison) :
    (compare comparison).termText.toList = comparison.left.render.toList ++
      (comparison.relation.spelling.toList ++ comparison.right.render.toList) := by
  simp [termText, precedence, parenthesize, render, Comparison.render]

theorem length_render_le (predicate : Predicate) :
    predicate.render.toList.length ≤ predicate.termText.toList.length := by
  by_cases loose : predicate.precedence ≤ 2
  · rw [toList_termText loose, List.length_cons, List.length_append]
    omega
  · simp [termText, parenthesize, loose]

/-- The first term of the row. -/
def leading : Predicate → Predicate
  | compare comparison => compare comparison
  | and left _ => if left.precedence < 2 then left else left.leading
  | or left _ => left.leading

/-- The terms behind the first one, each with the junction in front of it. -/
def others : Predicate → List (Junction × Predicate)
  | compare _ => []
  | and left right =>
      (if left.precedence < 2 then [] else left.others) ++ [(.conjunction, right)]
  | or left right =>
      left.others ++
        if right.precedence ≤ 1 then [(.disjunction, right)]
        else (.disjunction, right.leading) :: right.others

/-- How a term is written behind its junction. -/
def joinedText : Junction × Predicate → List Char
  | (.conjunction, term) => " && ".toList ++ term.termText.toList
  | (.disjunction, term) => " || ".toList ++ term.termText.toList

theorem precedence_ne_zero (predicate : Predicate) : predicate.precedence ≠ 0 := by
  cases predicate <;> simp [precedence]

/-- A predicate is written as its row of terms. -/
theorem toList_render (predicate : Predicate) :
    predicate.render.toList =
      predicate.leading.termText.toList ++ predicate.others.flatMap joinedText := by
  induction predicate with
  | compare comparison => exact (List.append_nil _).symm
  | and left right hypothesis _ =>
      unfold leading others render
      by_cases loose : left.precedence < 2
      · have wrapped : left.precedence ≤ 2 := Nat.le_of_lt loose
        simp [loose, termText, joinedText, wrapped]
      · simp [loose, parenthesize, hypothesis, joinedText, termText]
  | or left right hypothesis hypothesis' =>
      unfold leading others render
      by_cases loose : right.precedence ≤ 1
      · have wrapped : right.precedence ≤ 2 := Nat.le_succ_of_le loose
        simp [precedence_ne_zero, loose, parenthesize, hypothesis, joinedText, termText, wrapped]
      · simp [precedence_ne_zero, loose, parenthesize, hypothesis, hypothesis', joinedText]

/-- The row of a conjunction combines to the conjunction, whatever comes after it. -/
theorem combineFrom_others (predicate : Predicate) (tight : 2 ≤ predicate.precedence)
    (pending : Option Predicate) (more : List (Junction × Predicate)) :
    combineFrom pending predicate.leading (predicate.others ++ more) =
      combineFrom pending predicate more := by
  induction predicate generalizing more with
  | compare comparison => rfl
  | and left right hypothesis _ =>
      unfold leading others
      by_cases loose : left.precedence < 2
      · rw [if_pos loose, if_pos loose]
        rfl
      · rw [if_neg loose, if_neg loose, List.append_assoc, hypothesis (Nat.le_of_not_lt loose)]
        rfl
  | or left right _ _ => exact absurd tight (by simp [precedence])

/-- The row of a predicate combines to it before the next disjunction. -/
theorem combineFrom_others_disjunction (predicate next : Predicate)
    (more : List (Junction × Predicate)) :
    combineFrom none predicate.leading (predicate.others ++ (.disjunction, next) :: more) =
      combineFrom (some predicate) next more := by
  induction predicate generalizing next more with
  | compare comparison => rfl
  | and left right _ _ =>
      rw [combineFrom_others _ (by simp [precedence])]
      rfl
  | or left right hypothesis _ =>
      unfold leading others
      -- the right operand is one term in parentheses, or a row that binds tighter
      by_cases loose : right.precedence ≤ 1
      · rw [if_pos loose, List.append_assoc]
        exact hypothesis right _
      · rw [if_neg loose, List.append_assoc, List.cons_append, hypothesis,
          combineFrom_others _ (by omega)]
        rfl

/-- Combining the row of a predicate gives the predicate back. -/
theorem combine_others (predicate : Predicate) :
    combine predicate.leading predicate.others = predicate := by
  unfold combine
  cases predicate with
  | compare comparison => rfl
  | and left right =>
      have whole := combineFrom_others (.and left right) (by simp [precedence]) none []
      rwa [List.append_nil] at whole
  | or left right =>
      unfold leading others
      by_cases loose : right.precedence ≤ 1
      · rw [if_pos loose, combineFrom_others_disjunction]
        rfl
      · have whole := combineFrom_others right (by omega) (some left) []
        rw [List.append_nil] at whole
        rw [if_neg loose, combineFrom_others_disjunction, whole]
        rfl

end Predicate

namespace Grammar

open Reader
open Token (isNameChar continuesName)

/-- A predicate behind its junction, without spans. -/
def unplacedTerm (other : Junction × Predicate) : Junction × Predicate :=
  (other.1, other.2.unplaced)

theorem unplaced_combineFrom (pending : Option Predicate) (current : Predicate)
    (others : List (Junction × Predicate)) :
    (combineFrom pending current others).unplaced =
      combineFrom (pending.map Predicate.unplaced) current.unplaced (others.map unplacedTerm) := by
  have joined : ∀ current : Predicate,
      ((pending.map (Predicate.or · current)).getD current).unplaced =
        ((pending.map Predicate.unplaced).map (Predicate.or · current.unplaced)).getD
          current.unplaced := by
    intro current
    cases pending <;> rfl
  induction others generalizing pending current with
  | nil => exact joined current
  | cons other others hypothesis =>
      obtain ⟨junction, next⟩ := other
      cases junction with
      | conjunction => exact hypothesis pending (.and current next) joined
      | disjunction =>
          have onward := hypothesis
            (some ((pending.map (Predicate.or · current)).getD current)) next fun _ => rfl
          rw [Option.map_some, joined] at onward
          exact onward

/-- Rows that agree up to spans combine to predicates that do. -/
theorem unplaced_combine {first first' : Predicate} {others others' : List (Junction × Predicate)}
    (same : first'.unplaced = first.unplaced)
    (sameOthers : others'.map unplacedTerm = others.map unplacedTerm) :
    (combine first' others').unplaced = (combine first others).unplaced := by
  calc (combine first' others').unplaced
      = combine first'.unplaced (others'.map unplacedTerm) := unplaced_combineFrom none first' others'
    _ = combine first.unplaced (others.map unplacedTerm) := by rw [same, sameOthers]
    _ = (combine first others).unplaced := (unplaced_combineFrom none first others).symm

/-- The values of a row that is read combine to what the row combines to. -/
theorem combine_agrees {first : Predicate} {others : List (Junction × Predicate)}
    {checked : Checked Predicate} {checkedOthers : List (Junction × Checked Predicate)}
    (agrees : Checked.Agrees Predicate.unplaced first checked)
    (all : List.Forall₂ (fun other value => value.1 = other.1 ∧
      Checked.Agrees Predicate.unplaced other.2 value.2) others checkedOthers) :
    Checked.Agrees Predicate.unplaced (combine first others) (do
      let first ← checked
      let others ← Checked.all (checkedOthers.map fun other => (other.1, ·) <$> other.2)
      return combine first others) := by
  obtain ⟨value, rfl, same⟩ := agrees
  have pieces : List.Forall₂ (Checked.Agrees unplacedTerm) others
      (checkedOthers.map fun other => (other.1, ·) <$> other.2) := by
    refine List.forall₂_map_right_iff.mpr (all.imp ?_)
    rintro other ⟨junction, next⟩ ⟨rfl, value, rfl, same⟩
    exact ⟨(other.1, value), rfl, Prod.ext rfl same⟩
  obtain ⟨values, read, sameOthers⟩ := Checked.Agrees.all pieces
  refine ⟨combine value values, ?_, unplaced_combine same sameOthers⟩
  rw [read]
  rfl

section Comparisons

variable {depth : Nat} {rest : List Char}

theorem endsOperand_relation (relation : Relation) (rest : List Char) :
    EndsOperand (relation.spelling.toList ++ rest) := by
  cases relation <;> exact .cons (by decide) (by decide) (by decide) _

theorem strip_relation (relation : Relation) (rest : List Char) :
    strip (relation.spelling.toList ++ rest) = relation.spelling.toList ++ rest := by
  cases relation <;> exact strip_cons (by decide) _

theorem unplaced_withPattern (relation : Relation) (operand : Operand) :
    (withPattern relation operand).toOption.map Operand.unplaced =
      (withPattern relation operand.unplaced).toOption := by
  cases operand with
  | text value pattern span =>
      rw [Operand.unplaced, withPattern, withPattern]
      by_cases patterned : relation.isPattern
      · rw [if_pos patterned, if_pos patterned]
        cases Pattern.compile? value <;> rfl
      · rw [if_neg patterned, if_neg patterned]
        rfl
  | _ => rfl

/-- Operands that are the same up to spans get the same pattern. -/
theorem withPattern_agrees {relation : Relation} {right right' patterned : Operand}
    (same : right'.unplaced = right.unplaced)
    (checked : withPattern relation right = .ok patterned) :
    Checked.Agrees Operand.unplaced patterned (withPattern relation right') := by
  have expected := unplaced_withPattern relation right
  have found := unplaced_withPattern relation right'
  rw [same, ← expected, checked] at found
  cases read : withPattern relation right' with
  | error error =>
      rw [read] at found
      cases found
  | ok value =>
      rw [read] at found
      exact ⟨value, rfl, Option.some.inj found⟩

theorem render_withPattern {relation : Relation} {right patterned : Operand}
    (checked : withPattern relation right = .ok patterned) :
    patterned.render = right.render := by
  cases right with
  | text value pattern span =>
      rw [withPattern] at checked
      by_cases wanted : relation.isPattern
      · rw [if_pos wanted] at checked
        cases compiled : Pattern.compile? value with
        | none =>
            rw [compiled] at checked
            cases checked
        | some pattern =>
            rw [compiled] at checked
            obtain rfl := Except.ok.inj checked
            rfl
      · rw [if_neg wanted] at checked
        obtain rfl := Except.ok.inj checked
        rfl
  | _ =>
      obtain rfl := Except.ok.inj checked
      rfl

/-- Whatever follows, the reader gets the term off its text up to spans. -/
def ReadsTerm (reader : Reader (Checked Predicate)) (term : Predicate) : Prop :=
  ∀ rest, EndsOperand rest → reader.Reads (term.termText.toList ++ rest) fun value rest' =>
    Checked.Agrees Predicate.unplaced term value ∧ strip rest' = strip rest

/-- The relation is cut off between the two operands, as no operand begins with an
equals sign. -/
theorem relation_cut (relation : Relation) {right : Operand} (canonical : right.IsCanonical)
    (rest : List Char) :
    Token.relation (relation.spelling.toList ++ (right.render.toList ++ rest)) =
      some (relation.spelling.toList, right.render.toList ++ rest) := by
  obtain ⟨char, part, shape, opens⟩ := head_of_operand canonical
  rw [shape, List.cons_append]
  exact Token.relation_append relation _ (ne_of_opensOperand '=' opens (by decide))

theorem sides_read {left right : Operand} (canonicalLeft : left.IsCanonical)
    (canonicalRight : right.IsCanonical) (relation : Relation)
    (deepLeft : left.render.toList.length < depth)
    (deepRight : right.render.toList.length < depth) (ends : EndsOperand rest) :
    (do
      let left ← operand depth
      let _ ← blanks
      let relation ← token .relation Token.relation
      let _ ← blanks
      let right ← operand depth
      return (left, (Relation.ofSpelling? relation.content).getD .equal, right)).Reads
    (left.render.toList ++ (relation.spelling.toList ++ (right.render.toList ++ rest)))
    fun found rest' => (Checked.Agrees Operand.unplaced left found.1 ∧ found.2.1 = relation ∧
      Checked.Agrees Operand.unplaced right found.2.2) ∧ strip rest' = strip rest := by
  have readLeft := operand_reads canonicalLeft deepLeft _
    (endsOperand_relation relation (right.render.toList ++ rest))
  have readRight := operand_reads canonicalRight deepRight rest ends
  have readRelation : (token .relation Token.relation).Reads
      (relation.spelling.toList ++ (right.render.toList ++ rest)) fun lexeme rest' =>
        lexeme.content = relation.spelling ∧ rest' = right.render.toList ++ rest :=
    .token (relation_cut relation canonicalRight rest) fun _ => ⟨String.ofList_toList, rfl⟩
  refine readLeft.bind fun left' behind holds => .afterBlanks fun _ => ?_
  rw [holds.2, strip_relation]
  refine readRelation.bind fun lexeme behind' spelled => .afterBlanks fun _ => ?_
  rw [spelled.2, strip_operand canonicalRight]
  refine readRight.bind fun right' behind'' holds' => .pure ⟨⟨holds.1, ?_, holds'.1⟩, holds'.2⟩
  rw [spelled.1, Relation.ofSpelling?_spelling]
  rfl

theorem comparison_reads {comparison : Comparison} (canonical : comparison.IsCanonical)
    (deep : comparison.render.toList.length < depth) :
    ReadsTerm (Grammar.comparison depth) (.compare comparison) := by
  intro rest ends
  obtain ⟨left, relation, right, span⟩ := comparison
  obtain ⟨canonicalLeft, plain, canonicalPlain, patterned⟩ := canonical
  have text : (Predicate.compare ⟨left, relation, right, span⟩).termText.toList ++ rest =
      left.render.toList ++ (relation.spelling.toList ++ (plain.render.toList ++ rest)) := by
    rw [Predicate.toList_termText_compare, render_withPattern patterned, List.append_assoc,
      List.append_assoc]
  have length : (Comparison.render ⟨left, relation, right, span⟩).toList.length =
      left.render.toList.length + (relation.spelling.toList.length +
        plain.render.toList.length) := by
    simp [Comparison.render, render_withPattern patterned]
  have sides := sides_read canonicalLeft canonicalPlain relation
    (show left.render.toList.length < depth by omega)
    (show plain.render.toList.length < depth by omega) ends
  rw [text]
  refine sides.placed fun found span' rest' holds => .pure ⟨?_, holds.2⟩
  obtain ⟨left', relation', right'⟩ := found
  obtain ⟨⟨value, rfl, same⟩, rfl, ⟨value', rfl, same'⟩⟩ := holds.1
  obtain ⟨patterned', checked, same''⟩ := withPattern_agrees same' patterned
  refine ⟨.compare ⟨value, relation', patterned', span'⟩, ?_, ?_⟩
  · change (do
      let right ← withPattern relation' value'
      return Predicate.compare ⟨value, relation', right, span'⟩ : Checked Predicate) = _
    rw [checked]
    rfl
  · rw [Predicate.unplaced, Predicate.unplaced, Comparison.unplaced, Comparison.unplaced, same,
      same'']

end Comparisons

section Rows

variable {depth : Nat} {rest : List Char}

theorem isCanonical_row {predicate : Predicate} (canonical : predicate.IsCanonical) :
    predicate.leading.IsCanonical ∧ ∀ other ∈ predicate.others, other.2.IsCanonical := by
  induction predicate with
  | compare comparison => exact ⟨canonical, fun other member => nomatch member⟩
  | and left right hypothesis _ =>
      obtain ⟨canonicalLeft, canonicalRight⟩ := canonical
      obtain ⟨first, others⟩ := hypothesis canonicalLeft
      unfold Predicate.leading Predicate.others
      by_cases loose : left.precedence < 2
      · rw [if_pos loose, if_pos loose]
        refine ⟨canonicalLeft, fun other member => ?_⟩
        obtain rfl := List.mem_singleton.mp member
        exact canonicalRight
      · rw [if_neg loose, if_neg loose]
        refine ⟨first, fun other member => ?_⟩
        rcases List.mem_append.mp member with front | last
        · exact others other front
        · obtain rfl := List.mem_singleton.mp last
          exact canonicalRight
  | or left right hypothesis hypothesis' =>
      obtain ⟨canonicalLeft, canonicalRight⟩ := canonical
      obtain ⟨first, others⟩ := hypothesis canonicalLeft
      obtain ⟨first', others'⟩ := hypothesis' canonicalRight
      unfold Predicate.leading Predicate.others
      refine ⟨first, fun other member => ?_⟩
      rcases List.mem_append.mp member with front | back
      · exact others other front
      · by_cases loose : right.precedence ≤ 1
        · rw [if_pos loose] at back
          obtain rfl := List.mem_singleton.mp back
          exact canonicalRight
        · rw [if_neg loose] at back
          rcases List.mem_cons.mp back with rfl | back
          · exact first'
          · exact others' other back

theorem strip_term {term : Predicate} (canonical : term.IsCanonical) (rest : List Char) :
    strip (term.termText.toList ++ rest) = term.termText.toList ++ rest := by
  cases term with
  | compare comparison =>
      rw [Predicate.toList_termText_compare, List.append_assoc, strip_operand canonical.1]
  | and left right =>
      have loose : (Predicate.and left right).precedence ≤ 2 := Nat.le_refl 2
      rw [Predicate.toList_termText loose, List.cons_append, strip_cons (by decide)]
  | or left right =>
      have loose : (Predicate.or left right).precedence ≤ 2 := Nat.le_succ 1
      rw [Predicate.toList_termText loose, List.cons_append, strip_cons (by decide)]

theorem strip_predicate {predicate : Predicate} (canonical : predicate.IsCanonical)
    (rest : List Char) :
    strip (predicate.render.toList ++ rest) = predicate.render.toList ++ rest := by
  rw [Predicate.toList_render, List.append_assoc, strip_term (isCanonical_row canonical).1]

/-- The reader gets the predicate off its text up to spans, if a bracket follows. -/
def ReadsPredicate (reader : Reader (Checked Predicate)) (predicate : Predicate) : Prop :=
  ∀ closing rest, closing = ')' ∨ closing = ']' →
    reader.Reads (predicate.render.toList ++ closing :: rest) fun value rest' =>
      Checked.Agrees Predicate.unplaced predicate value ∧ strip rest' = closing :: rest

variable {inner : Reader (Checked Predicate)}

theorem group_reads {predicate : Predicate} (canonical : predicate.IsCanonical)
    (reads : ReadsPredicate inner predicate) (rest : List Char) :
    (group inner).Reads ('(' :: (predicate.render.toList ++ ')' :: rest)) fun value rest' =>
      Checked.Agrees Predicate.unplaced predicate value ∧ rest' = rest := by
  refine .afterSign rfl fun _ => .afterBlanks fun _ => ?_
  rw [strip_predicate canonical]
  refine (reads ')' rest (.inl rfl)).bind fun value rest' holds => .afterBlanks fun _ => ?_
  rw [holds.2]
  exact .afterSign rfl fun _ => .pure ⟨holds.1, rfl⟩

/-- A term is read as a group if it is in parentheses, and as a comparison if not. -/
theorem term_reads {term : Predicate} (canonical : term.IsCanonical)
    (reads : term.precedence ≤ 2 → ReadsPredicate inner term)
    (deep : term.render.toList.length < depth) :
    ReadsTerm ((group inner).orElse (comparison depth)) term := by
  have wrapped : term.precedence ≤ 2 → ReadsTerm ((group inner).orElse (comparison depth)) term := by
    intro loose rest ends
    rw [Predicate.toList_termText loose, List.cons_append, List.append_assoc]
    exact .left ((group_reads canonical (reads loose) rest).mono fun value rest' holds =>
      ⟨holds.1, congrArg strip holds.2⟩)
  cases term with
  | compare comparison =>
      intro rest ends
      refine .right ?_ (comparison_reads canonical deep rest ends)
      obtain ⟨char, part, shape, opens⟩ := head_of_operand canonical.1
      rw [Predicate.toList_termText_compare, shape, List.cons_append, List.cons_append]
      refine Fails.bind (.sign rfl fun found member => ?_)
      obtain rfl := Option.some.inj member
      exact ne_of_opensOperand '(' opens (by decide)
  | and left right => exact wrapped (by simp [Predicate.precedence])
  | or left right => exact wrapped (by simp [Predicate.precedence])

theorem junction_reads {other : Junction × Predicate} (more : List Char) :
    junction.Reads (strip (Predicate.joinedText other ++ more)) fun found rest' =>
      found = other.1 ∧ rest' = ' ' :: (other.2.termText.toList ++ more) := by
  obtain ⟨junction, term⟩ := other
  cases junction with
  | conjunction =>
      have shape : strip (Predicate.joinedText (.conjunction, term) ++ more) =
          "&&".toList ++ ' ' :: (term.termText.toList ++ more) := by
        simp [Predicate.joinedText, strip, isBlank]
      have cut : Token.and ("&&".toList ++ ' ' :: (term.termText.toList ++ more)) =
          some ("&&".toList, ' ' :: (term.termText.toList ++ more)) := by
        unfold Token.and Token.anyOf
        rw [List.findSome?_cons, Token.exactly_append]
      rw [shape]
      exact .left (.map (.token cut fun _ => ⟨rfl, rfl⟩))
  | disjunction =>
      have shape : strip (Predicate.joinedText (.disjunction, term) ++ more) =
          "||".toList ++ ' ' :: (term.termText.toList ++ more) := by
        simp [Predicate.joinedText, strip, isBlank]
      have cut : Token.or ("||".toList ++ ' ' :: (term.termText.toList ++ more)) =
          some ("||".toList, ' ' :: (term.termText.toList ++ more)) := by
        unfold Token.or Token.anyOf
        rw [List.findSome?_cons, Token.exactly_append]
      have other : Token.and ("||".toList ++ ' ' :: (term.termText.toList ++ more)) = none := by
        rfl
      rw [shape]
      exact .right (.map (.token other)) (.map (.token cut fun _ => ⟨rfl, rfl⟩))

theorem junction_fails {closing : Char} (bracket : closing = ')' ∨ closing = ']')
    (source : List Char) : junction.Fails (closing :: source) := by
  rcases bracket with rfl | rfl
  · exact .both (.map (.token rfl)) (.map (.token rfl))
  · exact .both (.map (.token rfl)) (.map (.token rfl))

theorem strip_joinedText_ne_nil (other : Junction × Predicate) :
    strip (Predicate.joinedText other) ≠ [] := by
  obtain ⟨junction, term⟩ := other
  cases junction <;> simp [Predicate.joinedText, strip, isBlank]

theorem endsOperand_row {closing : Char} (bracket : closing = ')' ∨ closing = ']')
    (others : List (Junction × Predicate)) (rest : List Char) :
    EndsOperand (others.flatMap Predicate.joinedText ++ closing :: rest) := by
  cases others with
  | nil => rcases bracket with rfl | rfl <;> exact .cons (by decide) (by decide) (by decide) rest
  | cons other others =>
      obtain ⟨junction, term⟩ := other
      cases junction with
      | conjunction =>
          refine ⟨by simp [Predicate.joinedText, continuesName, isNameChar], ?_⟩
          simp [Predicate.joinedText, strip, isBlank]
      | disjunction =>
          refine ⟨by simp [Predicate.joinedText, continuesName, isNameChar], ?_⟩
          simp [Predicate.joinedText, strip, isBlank]

theorem row_reads {term : Reader (Checked Predicate)} {others : List (Junction × Predicate)}
    (canonical : ∀ other ∈ others, other.2.IsCanonical)
    (reads : ∀ other ∈ others, ReadsTerm term other.2) {closing : Char}
    (bracket : closing = ')' ∨ closing = ']') (rest : List Char) :
    (many do
      let junction ← junction
      let _ ← blanks
      let next ← term
      return (junction, next)).Reads
    (strip (others.flatMap Predicate.joinedText ++ closing :: rest)) fun values rest' =>
      List.Forall₂ (fun other value => value.1 = other.1 ∧
        Checked.Agrees Predicate.unplaced other.2 value.2) others values ∧
        strip rest' = strip (closing :: rest) := by
  have solid : strip (closing :: rest) = closing :: rest := by
    rcases bracket with rfl | rfl <;> exact strip_cons (by decide) rest
  refine .many (fun other _ => strip_joinedText_ne_nil other) ?_ fun other after within => ?_
  · rw [solid]
    exact (junction_fails bracket rest).bind
  · have listed : other ∈ others := within.mem List.mem_cons_self
    refine (junction_reads _).bind fun found rest' holds => .afterBlanks fun _ => ?_
    have skipped : strip rest' = other.2.termText.toList ++
        (after.flatMap Predicate.joinedText ++ closing :: rest) := by
      rw [holds.2]
      exact strip_term (canonical other listed) _
    rw [skipped]
    have here := reads other listed _ (endsOperand_row bracket after rest)
    exact here.bind fun value rest'' agrees => .pure ⟨⟨holds.1, agrees.1⟩, agrees.2⟩

theorem predicateAround_reads {predicate : Predicate} (canonical : predicate.IsCanonical)
    (first : ReadsTerm ((group inner).orElse (comparison depth)) predicate.leading)
    (others : ∀ other ∈ predicate.others,
      ReadsTerm ((group inner).orElse (comparison depth)) other.2) :
    ReadsPredicate (predicateAround depth inner) predicate := by
  intro closing rest bracket
  have solid : strip (closing :: rest) = closing :: rest := by
    rcases bracket with rfl | rfl <;> exact strip_cons (by decide) rest
  rw [Predicate.toList_render, List.append_assoc]
  have start := first _ (endsOperand_row bracket predicate.others rest)
  refine .rule (start.bind fun value rest' holds => .afterBlanks fun _ => ?_)
  rw [holds.2]
  refine (row_reads (isCanonical_row canonical).2 others bracket rest).bind ?_
  intro values rest'' all
  have agrees := combine_agrees holds.1 all.1
  rw [predicate.combine_others] at agrees
  exact .pure ⟨agrees, all.2.trans solid⟩

theorem length_row (predicate : Predicate) :
    predicate.leading.termText.toList.length ≤ predicate.render.toList.length ∧
      ∀ other ∈ predicate.others,
        other.2.termText.toList.length ≤ predicate.render.toList.length := by
  rw [Predicate.toList_render, List.length_append]
  refine ⟨by omega, fun other listed => ?_⟩
  have within := Operand.length_le_of_mem_flatMap listed Predicate.joinedText
  have joined : other.2.termText.toList.length ≤ (Predicate.joinedText other).length := by
    obtain ⟨junction, term⟩ := other
    cases junction with
    | conjunction => exact (List.sublist_append_right _ _).length_le
    | disjunction => exact (List.sublist_append_right _ _).length_le
  omega

/-- A predicate is read back from its text, up to spans, if the depths that calls and
parentheses may have exceed the length of that text. -/
theorem predicate_reads {nesting : Nat} {predicate : Predicate}
    (canonical : predicate.IsCanonical) (deep : predicate.render.toList.length < depth)
    (nested : predicate.render.toList.length < nesting) :
    ReadsPredicate (Grammar.predicate depth nesting) predicate := by
  induction nesting generalizing predicate with
  | zero => exact absurd nested (Nat.not_lt_zero _)
  | succ nesting hypothesis =>
      have row := isCanonical_row canonical
      have bounds := length_row predicate
      have term : ∀ term : Predicate, term.IsCanonical →
          term.termText.toList.length ≤ predicate.render.toList.length →
          ReadsTerm ((group (Grammar.predicate depth nesting)).orElse (comparison depth)) term := by
        intro term proper short
        have bound := Predicate.length_render_le term
        refine term_reads proper (fun loose => ?_) (by omega)
        rw [Predicate.toList_termText loose, List.length_cons, List.length_append] at short
        exact hypothesis proper (by omega) (by omega)
      exact predicateAround_reads canonical (term _ row.1 bounds.1)
        fun other listed => term _ (row.2 other listed) (bounds.2 other listed)

end Rows

end Grammar

end TreeSelector
