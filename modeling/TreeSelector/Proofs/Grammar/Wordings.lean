import TreeSelector.Proofs.Grammar.Selectors

/-!
# Ways to write a predicate

A predicate can be written in many ways: its operators as signs or as words, and its operands
in as many parentheses as one likes.  Parentheses are needed only where the precedence of the
operators would group the operands otherwise, since operators of one precedence associate to
the left.  Whichever way a predicate is written, it is the same predicate that is read.
-/

namespace TreeSelector.Grammar

open Reader
open Token (continuesName)

namespace Junction

def precedence : Junction → Nat
  | conjunction => 2
  | disjunction => 1

/-- Joins two predicates. -/
def join : Junction → Predicate → Predicate → Predicate
  | conjunction => .and
  | disjunction => .or

end Junction

/-- A junction as it is written, with what stands between it and its operands. -/
structure Joint where
  junction : Junction
  /-- Whether the junction is written as a word instead of a sign. -/
  worded : Bool
  before : List Char
  after : List Char

namespace Joint

def spelling (joint : Joint) : List Char :=
  match joint.junction, joint.worded with
  | .conjunction, false => ['&', '&']
  | .conjunction, true => ['a', 'n', 'd']
  | .disjunction, false => ['|', '|']
  | .disjunction, true => ['o', 'r']

def text (joint : Joint) : List Char := joint.before ++ (joint.spelling ++ joint.after)

/-- There is nothing but blanks around the junction, and a word has some on both sides. -/
structure IsSetOff (joint : Joint) : Prop where
  before : ∀ char ∈ joint.before, isBlank char = true
  after : ∀ char ∈ joint.after, isBlank char = true
  apart : joint.worded = true → joint.before ≠ [] ∧ joint.after ≠ []

end Joint

/-- A way of writing a predicate. -/
inductive Wording where
  | bare (comparison : Comparison) (text : List Char)
  /-- In parentheses, with something in front of the wording and behind it. -/
  | grouped (front : List Char) (inner : Wording) (back : List Char)
  | joined (left : Wording) (joint : Joint) (right : Wording)

namespace Wording

def text : Wording → List Char
  | bare _ text => text
  | grouped front inner back => '(' :: (front ++ (inner.text ++ (back ++ [')'])))
  | joined left joint right => left.text ++ (joint.text ++ right.text)

/-- What is written. -/
def predicate : Wording → Predicate
  | bare comparison _ => .compare comparison
  | grouped _ inner _ => inner.predicate
  | joined left joint right => joint.junction.join left.predicate right.predicate

/-- The comparisons in written order. -/
def comparisons : Wording → List Comparison
  | bare comparison _ => [comparison]
  | grouped _ inner _ => inner.comparisons
  | joined left _ right => left.comparisons ++ right.comparisons

/-- How tightly a wording holds together: parentheses hold whatever is inside them. -/
def precedence : Wording → Nat
  | bare _ _ | grouped _ _ _ => 3
  | joined _ joint _ => joint.junction.precedence

end Wording

/-- Wherever a comparison can end, it is read off the text. -/
structure ReadsComparison (comparison : Comparison) (text : List Char) : Prop where
  opens : ∃ char part, text = char :: part ∧ isBlank char = false ∧ char ≠ '('
  reads : ∀ depth rest, text.length < depth → EndsOperand rest →
    (Grammar.comparison depth).Reads (text ++ rest) fun value rest' =>
      Checked.Agrees Predicate.unplaced (.compare comparison) value ∧ strip rest' = strip rest

/-- The canonical text of a comparison is one it is read off. -/
theorem readsComparison_render {comparison : Comparison} (canonical : comparison.IsCanonical) :
    ReadsComparison comparison comparison.render.toList where
  opens := by
    obtain ⟨char, part, shape, opens⟩ := head_of_operand canonical.1
    refine ⟨char, part ++ (comparison.relation.spelling.toList ++
      comparison.right.render.toList), ?_, isBlank_of_opensOperand opens,
      ne_of_opensOperand '(' opens (by decide)⟩
    simp [Comparison.render, shape]
  reads := fun _ rest deep ends => comparison_reads canonical deep rest ends

/-- A wording in which junctions are set off, and an operand is in parentheses if it would be
grouped otherwise without: on the left if it binds less tightly than the junction, and on the
right also if it binds as tightly. -/
inductive Wording.IsProper : Wording → Prop where
  | bare {comparison : Comparison} {text : List Char} (reads : ReadsComparison comparison text) :
      IsProper (.bare comparison text)
  | grouped {front back : List Char} {inner : Wording}
      (blankFront : ∀ char ∈ front, isBlank char = true) (proper : inner.IsProper)
      (blankBack : ∀ char ∈ back, isBlank char = true) : IsProper (.grouped front inner back)
  | joined {left right : Wording} {joint : Joint} (properLeft : left.IsProper)
      (setOff : joint.IsSetOff) (properRight : right.IsProper)
      (tightLeft : joint.junction.precedence ≤ left.precedence)
      (tightRight : joint.junction.precedence < right.precedence) :
      IsProper (.joined left joint right)

namespace Wording

/-- The first term of the row of terms that a wording is. -/
def leading : Wording → Wording
  | joined left _ _ => left.leading
  | term => term

/-- The terms behind the first one, each with the joint in front of it. -/
def others : Wording → List (Joint × Wording)
  | joined left joint right => left.others ++ (joint, right.leading) :: right.others
  | _ => []

/-- How a term is written behind its joint. -/
def joinedText (other : Joint × Wording) : List Char := other.1.text ++ other.2.text

/-- A wording is written as its row of terms. -/
theorem text_eq_row (wording : Wording) :
    wording.text = wording.leading.text ++ wording.others.flatMap joinedText := by
  induction wording with
  | bare | grouped => exact (List.append_nil _).symm
  | joined left joint right hypothesis hypothesis' =>
      rw [text, hypothesis, hypothesis']
      simp [leading, others, joinedText]

/-- What is said by a term behind its joint. -/
def joinedPredicate (other : Joint × Wording) : Junction × Predicate :=
  (other.1.junction, other.2.predicate)

/-- What binds tighter than a conjunction is a row of one term. -/
theorem row_of_tight {wording : Wording} (tight : 2 < wording.precedence) :
    wording.leading = wording ∧ wording.others = [] := by
  cases wording with
  | bare | grouped => exact ⟨rfl, rfl⟩
  | joined left joint right =>
      rw [precedence] at tight
      cases shape : joint.junction <;> simp [shape, Junction.precedence] at tight

theorem isProper_row {wording : Wording} (proper : wording.IsProper) :
    wording.leading.IsProper ∧ ∀ other ∈ wording.others, other.1.IsSetOff ∧ other.2.IsProper := by
  induction proper with
  | bare reads => exact ⟨.bare reads, nofun⟩
  | grouped blankFront proper blankBack => exact ⟨.grouped blankFront proper blankBack, nofun⟩
  | joined _ setOff _ _ _ hypothesis hypothesis' =>
      refine ⟨hypothesis.1, fun other listed => ?_⟩
      rcases List.mem_append.mp listed with front | back
      · exact hypothesis.2 other front
      · rcases List.mem_cons.mp back with rfl | back
        · exact ⟨setOff, hypothesis'.1⟩
        · exact hypothesis'.2 other back

/-- The row of a wording that binds as tightly as a conjunction combines to what is written,
whatever comes after it. -/
theorem combineFrom_tight {wording : Wording} (proper : wording.IsProper)
    (tight : 2 ≤ wording.precedence) (pending : Option Predicate)
    (more : List (Junction × Predicate)) :
    combineFrom pending wording.leading.predicate (wording.others.map joinedPredicate ++ more) =
      combineFrom pending wording.predicate more := by
  induction proper generalizing more with
  | bare | grouped => rfl
  | @joined left right joint _ _ _ tightLeft tightRight hypothesis _ =>
      cases shape : joint.junction with
      | disjunction => simp [precedence, shape, Junction.precedence] at tight
      | conjunction =>
          rw [shape] at tightLeft tightRight
          obtain ⟨same, single⟩ := row_of_tight tightRight
          simp only [leading, others, same, single, List.map_append, List.map_cons, List.map_nil,
            List.append_assoc, List.singleton_append, joinedPredicate, predicate, shape]
          exact hypothesis tightLeft _

/-- The row of a wording combines to what is written before the next disjunction. -/
theorem combineFrom_disjunction {wording : Wording} (proper : wording.IsProper) (next : Predicate)
    (more : List (Junction × Predicate)) :
    combineFrom none wording.leading.predicate
        (wording.others.map joinedPredicate ++ (.disjunction, next) :: more) =
      combineFrom (some wording.predicate) next more := by
  induction proper generalizing next more with
  | bare | grouped => rfl
  | @joined left right joint properLeft setOff properRight tightLeft tightRight hypothesis _ =>
      cases shape : joint.junction with
      | conjunction =>
          have tight : 2 ≤ (joined left joint right).precedence := by
            simp [precedence, shape, Junction.precedence]
          rw [combineFrom_tight (.joined properLeft setOff properRight tightLeft tightRight) tight]
          rfl
      | disjunction =>
          rw [shape] at tightRight
          simp only [leading, others, List.map_append, List.map_cons, List.append_assoc,
            List.cons_append, joinedPredicate, predicate, shape]
          rw [hypothesis, combineFrom_tight properRight tightRight]
          rfl

/-- The row of a wording combines to what is written. -/
theorem combine_row {wording : Wording} (proper : wording.IsProper) :
    combine wording.leading.predicate (wording.others.map joinedPredicate) = wording.predicate := by
  unfold combine
  cases proper with
  | bare | grouped => rfl
  | @joined left right joint properLeft setOff properRight tightLeft tightRight =>
      cases shape : joint.junction with
      | conjunction =>
          have tight : 2 ≤ (joined left joint right).precedence := by
            simp [precedence, shape, Junction.precedence]
          have whole := combineFrom_tight
            (.joined properLeft setOff properRight tightLeft tightRight) tight none []
          rwa [List.append_nil] at whole
      | disjunction =>
          rw [shape] at tightRight
          have whole := combineFrom_tight properRight tightRight (some left.predicate) []
          rw [List.append_nil] at whole
          simp only [leading, others, List.map_append, List.map_cons, joinedPredicate, predicate,
            shape]
          rw [combineFrom_disjunction properLeft, whole]
          rfl

end Wording

section Reading

variable {depth : Nat} {inner : Reader (Checked Predicate)}

/-- Wherever an operand can end, the reader gets the predicate off the text up to spans. -/
def ReadsOff (reader : Reader (Checked Predicate)) (text : List Char) (predicate : Predicate) :
    Prop :=
  ∀ rest, EndsOperand rest → reader.Reads (text ++ rest) fun value rest' =>
    Checked.Agrees Predicate.unplaced predicate value ∧ strip rest' = strip rest

/-- The reader gets the predicate off the text up to spans, if a bracket follows, perhaps
after blanks. -/
def ReadsInside (reader : Reader (Checked Predicate)) (text : List Char) (predicate : Predicate) :
    Prop :=
  ∀ gap closing rest, (∀ char ∈ gap, isBlank char = true) → closing = ')' ∨ closing = ']' →
    reader.Reads (text ++ (gap ++ closing :: rest)) fun value rest' =>
      Checked.Agrees Predicate.unplaced predicate value ∧ strip rest' = closing :: rest

theorem continuesName_of_blank {gap : List Char} (blank : ∀ char ∈ gap, isBlank char = true)
    (some : gap ≠ []) (rest : List Char) : continuesName (gap ++ rest) = false := by
  obtain ⟨char, others, rfl⟩ := List.exists_cons_of_ne_nil some
  have first := blank char List.mem_cons_self
  simp only [isBlank, Bool.or_eq_true, decide_eq_true_eq] at first
  rcases first with ((rfl | rfl) | rfl) | rfl <;> rfl

theorem strip_bracket {closing : Char} (bracket : closing = ')' ∨ closing = ']')
    (rest : List Char) : strip (closing :: rest) = closing :: rest := by
  rcases bracket with rfl | rfl <;> exact strip_cons (by decide) rest

theorem Wording.IsProper.strip_text {wording : Wording} (proper : wording.IsProper)
    (rest : List Char) : strip (wording.text ++ rest) = wording.text ++ rest := by
  induction proper generalizing rest with
  | bare reads =>
      obtain ⟨char, part, shape, solid, _⟩ := reads.opens
      rw [text, shape]
      exact strip_cons solid _
  | grouped => exact strip_cons (by decide) _
  | joined _ _ _ _ _ hypothesis _ =>
      rw [text, List.append_assoc]
      exact hypothesis _

theorem solid_spelling (joint : Joint) : ∃ char part, joint.spelling = char :: part ∧
    isBlank char = false ∧ char ≠ '.' ∧ char ≠ '(' := by
  obtain ⟨junction, worded, before, after⟩ := joint
  cases junction <;> cases worded <;> exact ⟨_, _, rfl, by decide⟩

/-- A joint is its spelling with blanks in front of it. -/
theorem strip_joint {joint : Joint} (setOff : joint.IsSetOff) (rest : List Char) :
    strip (joint.text ++ rest) = joint.spelling ++ (joint.after ++ rest) := by
  obtain ⟨char, part, shape, solid, _⟩ := solid_spelling joint
  rw [Joint.text, List.append_assoc, strip_blank_append setOff.before, List.append_assoc, shape]
  exact strip_cons solid _

theorem joint_reads {joint : Joint} (setOff : joint.IsSetOff) (rest : List Char) :
    junction.Reads (strip (joint.text ++ rest)) fun found rest' =>
      found = joint.junction ∧ strip rest' = strip rest := by
  have skipped := strip_blank_append setOff.after rest
  have ends : joint.worded = true → continuesName (joint.after ++ rest) = false :=
    fun word => continuesName_of_blank setOff.after (setOff.apart word).2 rest
  rw [strip_joint setOff]
  obtain ⟨junction, worded, before, after⟩ := joint
  cases junction with
  | conjunction =>
      cases worded with
      | false => exact .left (.map (.token rfl fun _ => ⟨rfl, skipped⟩))
      | true =>
          have cut : Token.and ("and".toList ++ (after ++ rest)) =
              some ("and".toList, after ++ rest) := by
            unfold Token.and Token.anyOf
            rw [List.findSome?_cons, List.findSome?_cons, Token.word_append (ends rfl)]
            rfl
          exact .left (.map (.token cut fun _ => ⟨rfl, skipped⟩))
  | disjunction =>
      cases worded with
      | false => exact .right (.map (.token rfl)) (.map (.token rfl fun _ => ⟨rfl, skipped⟩))
      | true =>
          have cut : Token.or ("or".toList ++ (after ++ rest)) =
              some ("or".toList, after ++ rest) := by
            unfold Token.or Token.anyOf
            rw [List.findSome?_cons, List.findSome?_cons, Token.word_append (ends rfl)]
            rfl
          exact .right (.map (.token rfl)) (.map (.token cut fun _ => ⟨rfl, skipped⟩))

/-- An operand can end in front of a joint. -/
theorem endsOperand_joint {joint : Joint} (setOff : joint.IsSetOff) (rest : List Char) :
    EndsOperand (joint.text ++ rest) := by
  constructor
  · by_cases adjacent : joint.before = []
    · have sign : joint.worded = false :=
        Bool.eq_false_iff.mpr fun word => (setOff.apart word).1 adjacent
      obtain ⟨junction, worded, before, after⟩ := joint
      obtain rfl : worded = false := sign
      obtain rfl : before = [] := adjacent
      cases junction <;> rfl
    · rw [Joint.text, List.append_assoc]
      exact continuesName_of_blank setOff.before adjacent _
  · obtain ⟨char, part, shape, _, other⟩ := solid_spelling joint
    rw [strip_joint setOff, shape]
    intro found here
    obtain rfl := Option.some.inj here
    exact other

/-- An operand can end in front of a bracket. -/
theorem endsOperand_bracket {gap : List Char} (blank : ∀ char ∈ gap, isBlank char = true)
    {closing : Char} (bracket : closing = ')' ∨ closing = ']') (rest : List Char) :
    EndsOperand (gap ++ closing :: rest) := by
  have next : EndsOperand (closing :: rest) := by
    rcases bracket with rfl | rfl <;> exact .cons (by decide) (by decide) (by decide) rest
  constructor
  · by_cases adjacent : gap = []
    · rw [adjacent]
      exact next.name
    · exact continuesName_of_blank blank adjacent _
  · rw [strip_blank_append blank]
    exact next.access

theorem group_readsOff {gap gap' text : List Char} {predicate : Predicate}
    (blank : ∀ char ∈ gap, isBlank char = true) (blank' : ∀ char ∈ gap', isBlank char = true)
    (solid : ∀ rest, strip (text ++ rest) = text ++ rest)
    (reads : ReadsInside inner text predicate) :
    ReadsOff (group inner) ('(' :: (gap ++ (text ++ (gap' ++ [')'])))) predicate := by
  intro rest _
  have shape : '(' :: (gap ++ (text ++ (gap' ++ [')']))) ++ rest =
      '(' :: (gap ++ (text ++ (gap' ++ ')' :: rest))) := by simp
  rw [shape]
  refine .afterSign rfl fun _ => .afterBlanks fun _ => ?_
  rw [strip_blank_append blank, solid]
  refine (reads gap' ')' rest blank' (.inl rfl)).bind fun value rest' holds =>
    .afterBlanks fun _ => ?_
  rw [holds.2]
  exact .afterSign rfl fun _ => .pure ⟨holds.1, rfl⟩

/-- An operand can end in front of the terms behind the first one. -/
theorem endsOperand_joined {others : List (Joint × Wording)}
    (proper : ∀ other ∈ others, other.1.IsSetOff ∧ other.2.IsProper) {gap : List Char}
    (blank : ∀ char ∈ gap, isBlank char = true) {closing : Char}
    (bracket : closing = ')' ∨ closing = ']') (rest : List Char) :
    EndsOperand (others.flatMap Wording.joinedText ++ (gap ++ closing :: rest)) := by
  cases others with
  | nil => exact endsOperand_bracket blank bracket rest
  | cons next others =>
      rw [List.flatMap_cons, Wording.joinedText, List.append_assoc, List.append_assoc]
      exact endsOperand_joint (proper next List.mem_cons_self).1 _

/-- The terms behind the first one are read, each with its joint. -/
theorem joined_read {term : Reader (Checked Predicate)} {others : List (Joint × Wording)}
    (proper : ∀ other ∈ others, other.1.IsSetOff ∧ other.2.IsProper)
    (reads : ∀ other ∈ others, ReadsOff term other.2.text other.2.predicate)
    {gap : List Char} (blank : ∀ char ∈ gap, isBlank char = true) {closing : Char}
    (bracket : closing = ')' ∨ closing = ']') (rest : List Char) :
    (many do
      let junction ← junction
      let _ ← blanks
      let next ← term
      return (junction, next)).Reads
    (strip (others.flatMap Wording.joinedText ++ (gap ++ closing :: rest))) fun values rest' =>
      List.Forall₂ (fun other value => value.1 = other.1.junction ∧
        Checked.Agrees Predicate.unplaced other.2.predicate value.2) others values ∧
        strip rest' = strip (gap ++ closing :: rest) := by
  have stop := (strip_blank_append blank (closing :: rest)).trans (strip_bracket bracket rest)
  refine .many (fun other listed => ?_) ?_ fun other after within => ?_
  · obtain ⟨setOff, _⟩ := proper other listed
    obtain ⟨char, part, shape, _⟩ := solid_spelling other.1
    rw [Wording.joinedText, strip_joint setOff, shape]
    exact List.cons_ne_nil _ _
  · rw [stop]
    exact (junction_fails bracket rest).bind
  · have listed : other ∈ others := within.mem List.mem_cons_self
    obtain ⟨setOff, properTerm⟩ := proper other listed
    rw [Wording.joinedText, List.append_assoc]
    refine (joint_reads setOff _).bind fun found rest' holds => .afterBlanks fun _ => ?_
    rw [holds.2, properTerm.strip_text]
    have ends := endsOperand_joined (fun next later =>
      proper next (within.mem (List.mem_cons_of_mem _ later))) blank bracket rest
    exact (reads other listed _ ends).bind fun value rest'' agrees =>
      .pure ⟨⟨holds.1, agrees.1⟩, agrees.2⟩

theorem predicateAround_readsInside {wording : Wording} (proper : wording.IsProper)
    (first : ReadsOff ((group inner).orElse (comparison depth)) wording.leading.text
      wording.leading.predicate)
    (others : ∀ other ∈ wording.others,
      ReadsOff ((group inner).orElse (comparison depth)) other.2.text other.2.predicate) :
    ReadsInside (predicateAround depth inner) wording.text wording.predicate := by
  intro gap closing rest blank bracket
  have stop := (strip_blank_append blank (closing :: rest)).trans (strip_bracket bracket rest)
  have row := joined_read (Wording.isProper_row proper).2 others blank bracket rest
  have ends := endsOperand_joined (Wording.isProper_row proper).2 blank bracket rest
  rw [wording.text_eq_row, List.append_assoc]
  refine .rule ((first _ ends).bind fun value rest' holds => .afterBlanks fun _ => ?_)
  rw [holds.2]
  refine row.bind fun values rest'' all => ?_
  have agrees := combine_agrees holds.1
    (List.forall₂_map_left_iff (f := Wording.joinedPredicate) |>.mpr all.1)
  rw [Wording.combine_row proper] at agrees
  exact .pure ⟨agrees, all.2.trans stop⟩

/-- Each term of a wording is read as a group if it is in parentheses, and as a comparison if
not. -/
theorem terms_read {wording : Wording} (proper : wording.IsProper) {nesting : Nat}
    (deep : wording.text.length < depth) (nested : wording.text.length ≤ nesting) :
    let term := (group (Grammar.predicate depth nesting)).orElse (comparison depth)
    ReadsOff term wording.leading.text wording.leading.predicate ∧
      ∀ other ∈ wording.others, ReadsOff term other.2.text other.2.predicate := by
  induction proper generalizing nesting with
  | bare reads =>
      obtain ⟨char, part, rfl, _, other⟩ := reads.opens
      refine ⟨fun rest ends => .right (Fails.bind ?_) (reads.reads depth rest deep ends), nofun⟩
      refine .sign rfl fun found here => ?_
      obtain rfl := Option.some.inj here
      exact other
  | @grouped front back inner blankFront proper blankBack hypothesis =>
      simp only [Wording.text, List.length_cons, List.length_append] at deep nested
      obtain ⟨nesting, rfl⟩ : ∃ less, nesting = less + 1 :=
        Nat.exists_eq_add_one.mpr (by omega)
      have shallow : inner.text.length ≤ nesting := by omega
      obtain ⟨first, others⟩ := hypothesis (by omega) shallow
      have inside := predicateAround_readsInside proper first others
      refine ⟨fun rest ends => .left ?_, nofun⟩
      exact group_readsOff blankFront blankBack proper.strip_text inside rest ends
  | @joined left right joint _ _ _ _ _ hypothesis hypothesis' =>
      simp only [Wording.text, List.length_append] at deep nested
      have shallow : left.text.length ≤ nesting := by omega
      have shallow' : right.text.length ≤ nesting := by omega
      obtain ⟨first, others⟩ := hypothesis (by omega) shallow
      obtain ⟨first', others'⟩ := hypothesis' (by omega) shallow'
      refine ⟨first, fun other listed => ?_⟩
      rcases List.mem_append.mp listed with front | back
      · exact others other front
      · rcases List.mem_cons.mp back with rfl | back
        · exact first'
        · exact others' other back

/-- Whichever way a predicate is written, it is read, if the depths that calls and parentheses
may have exceed the length of its text. -/
theorem wording_reads {wording : Wording} (proper : wording.IsProper) {nesting : Nat}
    (deep : wording.text.length < depth) (nested : wording.text.length < nesting) :
    ReadsInside (Grammar.predicate depth nesting) wording.text wording.predicate := by
  obtain ⟨nesting, rfl⟩ : ∃ less, nesting = less + 1 := Nat.exists_eq_add_one.mpr (by omega)
  obtain ⟨first, others⟩ := terms_read proper deep (Nat.le_of_lt_succ nested)
  exact predicateAround_readsInside proper first others

/-- Whichever way the predicate of a segment is written, the segment is read up to spans, if
no brace follows. -/
theorem segment_readsWording {segment : Segment}
    (ordered : ∀ window ∈ segment.window, window.IsOrdered) {wording : Wording}
    (proper : wording.IsProper) (written : segment.predicate = wording.predicate)
    (deep : wording.text.length < depth) {front back : List Char}
    (blankFront : ∀ char ∈ front, isBlank char = true)
    (blankBack : ∀ char ∈ back, isBlank char = true) {rest : List Char}
    (ends : ∀ char ∈ (strip rest).head?, char ≠ '\x7b') :
    (Grammar.segment depth).Reads
      (textAround segment (front ++ (wording.text ++ back)) ++ rest) fun value rest' =>
        Checked.Agrees Segment.unplaced segment value ∧ strip rest' = strip rest := by
  refine segment_readsAround ordered ?_ ends
  rw [List.append_assoc, List.append_assoc, strip_blank_append blankFront, proper.strip_text,
    written]
  exact wording_reads proper deep deep back ']' _ blankBack (.inr rfl)

end Reading

theorem Wording.comparisons_predicate (wording : Wording) :
    wording.predicate.comparisons = wording.comparisons := by
  induction wording with
  | bare => rfl
  | grouped _ _ _ hypothesis => exact hypothesis
  | joined left joint right hypothesis hypothesis' =>
      rw [predicate, comparisons, ← hypothesis, ← hypothesis']
      cases joint.junction <;> rfl

/-- Whichever way a predicate is written in a segment, with its operators as signs or as words
and with any parentheses beyond the necessary ones, it is that predicate which is read, up to
spans, with its comparisons in written order. -/
theorem parse_wording {wording : Wording} (proper : wording.IsProper) (target : Bool)
    {front back : List Char} (blankFront : ∀ char ∈ front, isBlank char = true)
    (blankBack : ∀ char ∈ back, isBlank char = true) :
    let mark := if target then ['@'] else []
    let source := String.ofList (mark ++ '[' :: (front ++ (wording.text ++ (back ++ [']']))))
    ∃ predicate span, Chain.parse source = .ok (.last ⟨target, predicate, none, span⟩) ∧
      predicate.unplaced = wording.predicate.unplaced ∧
      predicate.comparisons.map Comparison.unplaced =
        wording.comparisons.map Comparison.unplaced := by
  intro mark source
  let segment : Segment := ⟨target, wording.predicate, none, .nowhere⟩
  have written : source.toList = textAround segment (front ++ (wording.text ++ back)) ++ [] := by
    rw [String.toList_ofList, List.append_nil, textAround, List.append_assoc, List.append_assoc]
    rfl
  have deep : wording.text.length < source.toList.length + 1 := by
    rw [written, List.append_nil, textAround]
    simp only [List.length_append, List.length_cons]
    omega
  have solid : strip source.toList = source.toList := by
    rw [String.toList_ofList]
    cases target <;> exact strip_cons (by decide) _
  have reads : (writtenSelector (source.toList.length + 1)).Reads source.toList
      fun found _ => Checked.Agrees Segment.unplaced segment found.1 ∧ found.2 = [] := by
    refine .rule (.afterBlanks fun _ => ?_)
    have ordered : ∀ window ∈ segment.window, window.IsOrdered := by simp [segment]
    have ends : ∀ char ∈ (strip []).head?, char ≠ '\x7b' := by simp [strip]
    have first := segment_readsWording ordered proper rfl deep blankFront blankBack ends
    rw [← written] at first
    rw [solid]
    refine first.bind fun value rest' holds => .afterBlanks fun _ => ?_
    rw [holds.2]
    have others := @others_read (source.toList.length + 1) [] (List.forall_mem_nil _)
      (List.forall_mem_nil _)
    refine others.bind fun values rest'' all => .afterBlanks fun _ => ?_
    rw [all.2]
    have finished : endOfInput.Reads (strip []) fun _ _ => True := .token rfl fun _ => trivial
    exact finished.bind fun _ _ _ => .pure ⟨holds.1, List.forall₂_nil_left_iff.mp all.1⟩
  obtain ⟨⟨first, others⟩, _, ⟨⟨value, rfl, same⟩, rfl⟩, parsed⟩ := parse_of_reads reads
  obtain ⟨target', predicate, window, span⟩ := value
  obtain ⟨sameTarget, samePredicate, sameWindow, _⟩ := Segment.mk.inj same
  obtain rfl : window = none := sameWindow
  have read : Chain.parse source = .ok (.last ⟨target', predicate, none, span⟩) := parsed
  rw [show target' = target from sameTarget] at read
  refine ⟨predicate, span, read, samePredicate, ?_⟩
  rw [← Predicate.comparisons_unplaced, samePredicate, Predicate.comparisons_unplaced,
    wording.comparisons_predicate]

/-- Three comparisons, the last of them in superfluous parentheses, with a word and a sign
between them. -/
def looseWording (first second third : Comparison) : Wording :=
  let leaf := fun comparison : Comparison => Wording.bare comparison comparison.render.toList
  let either := .joined (leaf first) ⟨.disjunction, true, [' '], ['\n']⟩ (leaf second)
  .joined (.grouped [] either [' ']) ⟨.conjunction, false, [], []⟩
    (.grouped [] (.grouped ['\t'] (leaf third) []) [])

theorem looseWording_isProper {first second third : Comparison} (canonical : first.IsCanonical)
    (canonical' : second.IsCanonical) (canonical'' : third.IsCanonical) :
    (looseWording first second third).IsProper := by
  have word : Joint.IsSetOff ⟨.disjunction, true, [' '], ['\n']⟩ :=
    ⟨List.forall_mem_singleton.mpr rfl, List.forall_mem_singleton.mpr rfl, by decide⟩
  have sign : Joint.IsSetOff ⟨.conjunction, false, [], []⟩ := ⟨nofun, nofun, nofun⟩
  have disjunction := Wording.IsProper.joined (.bare (readsComparison_render canonical)) word
    (.bare (readsComparison_render canonical')) (Nat.le_of_ble_eq_true rfl)
    (Nat.le_of_ble_eq_true rfl)
  have last := @Wording.IsProper.grouped ['\t'] [] _ (List.forall_mem_singleton.mpr rfl)
    (.bare (readsComparison_render canonical'')) nofun
  have behind : ∀ char ∈ [' '], isBlank char = true := List.forall_mem_singleton.mpr rfl
  exact .joined (.grouped nofun disjunction behind) sign (.grouped nofun last nofun)
    (Nat.le_of_ble_eq_true rfl) (Nat.le_of_ble_eq_true rfl)

/-- The parentheses around the disjunction are kept to, and those around the last comparison
make no difference. -/
theorem parse_looseWording :
    let first : Comparison :=
      ⟨.reference (.known .parent) ⟨1, 7⟩, .equal, .null ⟨8, 12⟩, ⟨1, 12⟩⟩
    let second : Comparison :=
      ⟨.reference (.known .depth) ⟨14, 19⟩, .less, .integer 3 ⟨20, 21⟩, ⟨14, 21⟩⟩
    let third : Comparison :=
      ⟨.reference (.known .index) ⟨23, 28⟩, .moreEqual, .integer 1 ⟨30, 31⟩, ⟨23, 31⟩⟩
    (looseWording first second third).IsProper ∧
      ∃ predicate span, Chain.parse "@[(parent=null or\ndepth<3 )&&((\tindex>=1)) ]" =
          .ok (.last ⟨true, predicate, none, span⟩) ∧
        predicate.unplaced =
          (Predicate.and (.or (.compare first) (.compare second)) (.compare third)).unplaced ∧
        predicate.comparisons.map Comparison.unplaced =
          [first, second, third].map Comparison.unplaced := by
  intro first second third
  have parsed : Chain.parse "[parent=null&&depth<3&&index>=1]" =
      .ok (.last ⟨false, .and (.and (.compare first) (.compare second)) (.compare third), none,
        ⟨0, 32⟩⟩) := by
    decide +kernel
  obtain ⟨⟨canonical, canonical'⟩, canonical''⟩ := (Chain.isCanonical_of_parse parsed).1.predicate
  have proper := looseWording_isProper canonical canonical' canonical''
  obtain ⟨predicate, span, read, same, inOrder⟩ :=
    @parse_wording _ proper true [] [' '] nofun (List.forall_mem_singleton.mpr rfl)
  have written : "@[(parent=null or\ndepth<3 )&&((\tindex>=1)) ]" =
      String.ofList ('@' :: '[' :: ((looseWording first second third).text ++ [' ', ']'])) := by
    decide +kernel
  rw [written]
  exact ⟨proper, predicate, span, read, same, inOrder⟩

end TreeSelector.Grammar
