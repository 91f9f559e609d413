import TreeSelector.Proofs.Grammar.Layout
import TreeSelector.Proofs.Grammar.Pieces
import TreeSelector.Proofs.Grammar.Wordings

/-!
# The readers of the grammar are steady

What a reader of the grammar has taken it takes again whatever comes behind, as long as that
does not begin like a further part of it, and each of its failed attempts stands in a place up to
which the source can be completed.
-/

namespace TreeSelector.Grammar

open Reader
open Token (IsLexical lexeme plainSigns)

section Tokens

variable {α β ι : Type} {deep : ι → Nat} {scanner : Scanner}

/-- The reader reads one lexeme, which alone tells what comes of it but for the span. -/
def ReadsLexeme (reader : Reader α) (describes : List Char → (Span → α) → Prop) : Prop :=
  ∃ value? : List Char → Option (Span → α),
    (∀ source text rest make, lexeme source = some (text, rest) → value? text = some make →
      describes text make) ∧
    ∀ cursor, (reader cursor).result = (lexeme cursor.rest).bind fun cut =>
      (value? cut.1).map fun make =>
        (make ⟨cursor.offset, (cursor.past cut.1 cut.2).offset⟩, cursor.past cut.1 cut.2)

theorem ReadsLexeme.token {describes : List Char → (Span → α) → Prop} {name : Rule}
    (lexical : IsLexical scanner) {value : Lexeme → α}
    (holds : ∀ {source text rest}, scanner source = some (text, rest) →
      describes text fun span => value ⟨text, span⟩) :
    ReadsLexeme (value <$> Reader.token name scanner) describes := by
  obtain ⟨keeps, equation⟩ := lexical
  refine ⟨fun text => if keeps text then some fun span => value ⟨text, span⟩ else none, ?_, ?_⟩
  · intro source text rest make cut made
    obtain ⟨kept, same⟩ := Option.ite_none_right_eq_some.mp made
    obtain rfl := Option.some.inj same
    refine @holds source text rest ?_
    rw [equation, cut, Option.filter_some, if_pos kept]
  · intro cursor
    change ((Reader.token name scanner >>= fun lexeme => Pure.pure (value lexeme) : Reader α)
      cursor).result = _
    rw [result_bind, Reader.token, result_rule, result_scan, equation]
    cases lexeme cursor.rest with
    | none => rfl
    | some cut =>
        rw [Option.filter_some]
        dsimp only [Option.bind_some]
        by_cases kept : keeps cut.1 = true
        · rw [if_pos kept, if_pos kept]
          rfl
        · rw [if_neg kept, if_neg kept]
          rfl

theorem ReadsLexeme.orElse {describes : List Char → (Span → α) → Prop} {reader other : Reader α}
    (first : ReadsLexeme reader describes) (second : ReadsLexeme other describes) :
    ReadsLexeme (reader.orElse other) describes := by
  obtain ⟨value?, described, equation⟩ := first
  obtain ⟨value?', described', equation'⟩ := second
  refine ⟨fun text => (value? text).or (value?' text), ?_, ?_⟩
  · intro source text rest make cut made
    rcases Option.or_eq_some_iff.mp made with made | ⟨_, made⟩
    · exact described source text rest make cut made
    · exact described' source text rest make cut made
  · intro cursor
    rw [result_orElse, equation, equation']
    cases lexeme cursor.rest with
    | none => rfl
    | some cut =>
        dsimp only [Option.bind_some]
        cases value? cut.1 <;> cases value?' cut.1 <;> rfl

/-- The place where a token was attempted is the only one in its trace. -/
theorem offset_of_token {value : Lexeme → α} {name : Rule} {cursor : Cursor} {offset : Nat}
    (traced : offset ∈ ((value <$> token name scanner) cursor).trace.offsets) :
    offset = cursor.offset := by
  rcases mem_offsets_bind traced with early | ⟨_, _, _, nowhere⟩
  · refine (offset_of_rule early).resolve_right ?_
    unfold Reader.scan
    cases scanner cursor.rest <;> exact nofun
  · cases nowhere

theorem offset_of_firstOf {readers : List (Reader α)} {cursor : Cursor} {offset : Nat}
    (all : ∀ reader ∈ readers, offset ∈ (reader cursor).trace.offsets → offset = cursor.offset)
    (traced : offset ∈ (firstOf readers cursor).trace.offsets) : offset = cursor.offset := by
  fun_induction firstOf readers with
  | case1 => cases traced
  | case2 reader => exact all reader List.mem_cons_self traced
  | case3 reader readers some hypothesis =>
      obtain ⟨first, others⟩ := List.forall_mem_cons.mp all
      rcases mem_offsets_orElse traced with early | late
      · exact first early
      · exact hypothesis others late

/-- A reader of one lexeme is steady, whatever comes behind it. -/
theorem ReadsLexeme.steady {reader : Reader α} {alike : α → α → Prop} {opens : Option Char → Prop}
    (reads : ReadsLexeme reader fun _ make => ∀ span span', alike (make span) (make span'))
    (closed : ∀ source, ¬ opens source.head? → reader.Fails source)
    (offsets : ∀ cursor, ∀ offset ∈ (reader cursor).trace.offsets, offset = cursor.offset)
    (sample : Completable (fun _ : ι => reader) deep opens (fun _ => True) []) :
    Steady reader (fun _ : ι => reader) deep opens (fun _ => True) fun _ => alike := by
  obtain ⟨value?, described, equation⟩ := reads
  refine ⟨?_, fun _ offset traced => ⟨[], _, rfl, offsets _ offset traced, sample⟩, sample⟩
  intro cursor value behind solid success
  have opening : opens cursor.rest.head? := by
    by_contra other
    have fails := closed cursor.rest other cursor.offset
    rw [success] at fails
    cases fails
  rw [equation] at success
  obtain ⟨⟨text, rest⟩, cut, found⟩ := Option.bind_eq_some_iff.mp success
  obtain ⟨make, made, same⟩ := Option.map_eq_some_iff.mp found
  obtain ⟨rfl, rfl⟩ := Prod.mk.inj same
  obtain ⟨split, char, part, rfl, _⟩ := Token.lexeme_eq_some cut
  dsimp only at made split
  rw [split] at cut opening solid
  refine ⟨char :: part, ⟨split, rfl⟩, ahead_of_solid solid ▸ opening, ?_⟩
  intro i rest' resumes _ _ offset
  have again := Token.lexeme_steady (resumes.follows (List.cons_ne_nil char part)) cut
  let behind : Cursor := ⟨offset + Text.byteLength (char :: part), rest'⟩
  refine ⟨make ⟨offset, behind.offset⟩, behind, ?_, described _ _ _ make cut made _ _, .refl rest'⟩
  rw [equation, again, Option.bind_some, made]
  rfl

end Tokens

section Operands

variable {ι : Type} {deep : ι → Nat}

/-- How an operand begins. -/
def BeginsOperand (found : Option Char) : Prop :=
  ∃ char, found = some char ∧ (opensOperand char = true ∨ char = '\'')

theorem not_beginsOperand_none : ¬ BeginsOperand none := fun ⟨_, nothing, _⟩ => nomatch nothing

theorem ne_of_beginsOperand {found : Option Char} (begins : BeginsOperand found) {char : Char}
    (other : opensOperand char = false) (unquoted : char ≠ '\'') : found ≠ some char := by
  rintro rfl
  obtain ⟨char, same, opens | single⟩ := begins
  · obtain rfl := Option.some.inj same
    rw [opens] at other
    cases other
  · obtain rfl := Option.some.inj same
    exact unquoted single

/-- What comes behind an operand is no further part of it. -/
def LeavesOperand (found : Option Char) : Prop := found ≠ some '.' ∧ found ≠ some '('

theorem primary_closed {source : List Char} (other : ¬ BeginsOperand source.head?) :
    primary.Fails source := by
  cases source with
  | nil => exact .both (.map (.token rfl)) (.both (.map (.token rfl)) (.both (.map (.token rfl))
      (.both (.map (.token rfl)) (.map (.token rfl)))))
  | cons char source =>
      refine primary_fails (Bool.eq_false_iff.mpr fun opens => ?_) (fun single => ?_) source
      · exact other ⟨char, rfl, .inl opens⟩
      · exact other ⟨char, rfl, .inr single⟩

theorem primary_readsLexeme : ReadsLexeme primary fun _ make =>
    ∀ span span', Checked.Alike Operand.unplaced (make span) (make span') := by
  refine .orElse (.token Token.isLexical_null fun _ _ _ => .ok rfl) ?_
  refine .orElse (.token Token.isLexical_boolean fun _ _ _ => .ok rfl) ?_
  refine .orElse (.token Token.isLexical_integer fun _ _ _ => integerOf_alike rfl) ?_
  refine .orElse (.token Token.isLexical_text fun _ _ _ => textOf_alike rfl) ?_
  exact .token Token.isLexical_identifier fun _ _ _ => .ok rfl

theorem endsOperand_space {rest : List Char} (ending : LeavesOperand (ahead rest)) :
    EndsOperand (' ' :: rest) := by
  refine ⟨rfl, fun char found => ?_⟩
  rw [strip_space] at found
  exact ⟨fun dot => ending.1 (found.trans (congrArg some dot)),
    fun opening => ending.2 (found.trans (congrArg some opening))⟩

theorem primary_sample :
    Completable (fun _ : ι => primary) deep BeginsOperand (fun _ => True) [] := by
  refine ⟨['n', 'u', 'l', 'l'], ⟨'n', rfl, .inl rfl⟩, fun i rest _ _ => ?_⟩
  have reads : primary.Reads (['n', 'u', 'l', 'l'] ++ ' ' :: rest)
      fun _ rest' => rest' = ' ' :: rest :=
    .left (.map (.token (Token.word_append rfl) fun _ => rfl))
  exact reads.mono fun _ _ same => same ▸ strip_space rest

theorem primary_steady : Steady primary (fun _ : ι => primary) deep BeginsOperand (fun _ => True)
    fun _ => Checked.Alike Operand.unplaced := by
  refine primary_readsLexeme.steady (fun _ => primary_closed) (fun cursor offset traced => ?_)
    primary_sample
  refine offset_of_firstOf (fun reader listed here => ?_) traced
  simp only [List.mem_cons, List.not_mem_nil, or_false] at listed
  rcases listed with rfl | rfl | rfl | rfl | rfl <;> exact offset_of_token here

/-- A sign of one character is steady, whatever comes behind it. -/
theorem literal_steady {spelling : String} {char : Char} (spelled : spelling.toList = [char])
    (plain : spelling ∈ plainSigns) (solid : isBlank char = false) :
    Steady (literal spelling) (fun _ : ι => literal spelling) deep (· = some char) (fun _ => True)
      fun _ lexeme lexeme' => lexeme.text = lexeme'.text := by
  have begins : ∀ {source taken rest}, Token.exactly spelling source = some (taken, rest) →
      taken.head? = some char := by
    intro source taken rest cut
    rw [(Token.exactly_eq_some cut).1, spelled]
    rfl
  have cut : Token.exactly spelling [char] = some ([char], []) := by
    have whole := Token.exactly_append spelling []
    rwa [spelled] at whole
  exact Steady.scan (cuts_of_lexical (Token.isLexical_exactly plain) begins)
    (strip_cons solid []) cut

variable {α β : Type}

/-- A sign in front of a piece leaves less of the source for it. -/
theorem Reader.Steady.behindSign {inner : Reader α} {inners : ι → Reader β}
    {opens ends : Option Char → Prop} {alike : ι → α → β → Prop}
    (steady : Steady inner inners deep opens ends alike) (spelling : String) {char : Char}
    (spelled : spelling.toList = [char]) (plain : spelling ∈ plainSigns)
    (solid : isBlank char = false) :
    Steady (do
        let _ ← literal spelling
        let _ ← blanks
        inner) (fun i => do
        let _ ← literal spelling
        let _ ← blanks
        inners i) (fun i => deep i + 1) (· = some char) ends alike := by
  have behind : ∀ sign : Lexeme, Steady inner (fun i : ι × Lexeme => inners i.1)
      (fun i => deep i.1) opens ends fun i found found' =>
        sign.text = i.2.text → alike i.1 found found' :=
    fun _ => (steady.reindex Prod.fst).weaken fun _ _ _ same _ => same
  have begins : ¬ none = some char := nofun
  have shrinks : ∀ i : ι × Lexeme, deep i.1 + 1 ≤ deep i.1 ∨
      ¬ none = some char ∧ deep i.1 + 1 ≤ deep i.1 + 1 := fun _ => .inr ⟨begins, le_rfl⟩
  refine Steady.narrow (Steady.andThen (literal_steady spelled plain solid) behind .anywhere
    shrinks) (fun _ opening => ?_) fun _ => id
  exact opening.of_begins begins

theorem Reader.Steady.afterSign {inner : Reader α} {inners : ι → Reader β}
    {opens ends : Option Char → Prop} {alike : ι → α → β → Prop}
    (steady : Steady inner inners deep opens ends alike) (spelling : String) {char : Char}
    (spelled : spelling.toList = [char]) (plain : spelling ∈ plainSigns)
    (solid : isBlank char = false) :
    Steady (do
        let _ ← literal spelling
        let _ ← blanks
        inner) (fun i => do
        let _ ← literal spelling
        let _ ← blanks
        inners i) deep (· = some char) ends alike :=
  (steady.behindSign spelling spelled plain solid).shallower fun i => Nat.le_succ (deep i)

theorem name_steady : Steady (token .memberName Token.name)
    (fun _ : ι => token .memberName Token.name) deep (fun _ => True) (fun _ => True)
      fun _ lexeme lexeme' => lexeme.text = lexeme'.text :=
  (Steady.scan (cuts_of_lexical Token.isLexical_name fun _ => trivial)
    (rfl : strip ['x'] = ['x']) rfl).rule .memberName

theorem memberSuffix_steady : Steady memberSuffix (fun _ : ι => memberSuffix) deep (· = some '.')
    (fun _ => True) fun _ => Suffix.Alike := by
  have dotted := (@name_steady ι deep).afterSign "." rfl (by decide) rfl
  refine (dotted.rule .member).placed.result ?_
  rintro _ ⟨lexeme, span⟩ ⟨lexeme', span'⟩ same
  rw [content_eq same]
  exact .member

theorem literal_refuses {spelling : String} {char : Char} (spelled : spelling.toList = [char])
    {source : List Char} (other : ¬ source.head? = some char) : (literal spelling).Fails source :=
  .sign spelled fun _ here same => other (same ▸ here)

theorem memberSuffix_closed : Closed (fun _ : ι => memberSuffix) (· = some '.') :=
  fun _ _ other => Fails.bind (.placed (.rule (literal_refuses rfl other).bind))

theorem callSuffix_closed (arguments : ι → Reader (Checked Operand)) :
    Closed (fun i => callSuffix (arguments i)) (· = some '(') :=
  fun _ _ other => Fails.bind (.placed (.rule (literal_refuses rfl other).bind))

instance nonemptyChecked {α : Type} [Nonempty α] : Nonempty (Checked α) :=
  ⟨.ok (Classical.choice inferInstance)⟩

variable {item : Reader α} {items : ι → Reader β} {opens ends : Option Char → Prop}
  {alike : ι → α → β → Prop}

theorem commaSeparated_steady [Nonempty α] (steady : Steady item items deep opens ends alike)
    (begins : ¬ opens none) (comma : ends (some ',')) :
    Steady (commaSeparated item) (fun i => commaSeparated (items i)) deep opens
      (fun found => ends found ∧ found ≠ some ',') fun i => List.Forall₂ (alike i) := by
  have further := steady.afterSign "," rfl (by decide) rfl
  have closed : Closed (fun i => do
      let _ ← literal ","
      let _ ← blanks
      items i) (· = some ',') := fun _ _ other => (literal_refuses rfl other).bind
  have continues : ∀ found, found = some ',' → ends found := by
    rintro _ rfl
    exact comma
  have others := further.many closed nofun continues
  have adjoins : Adjoins (fun found => found = none ∨ found = some ',')
      (fun found => ends found ∧ found ≠ some ',') ends :=
    .of_optional continues fun _ ending => ending.1
  refine steady.append begins (fun first => ?_) adjoins
  exact (others.reindex Prod.fst).result fun _ _ _ all same => .cons same all

variable {argument : Reader (Checked Operand)} {arguments : ι → Reader (Checked Operand)}

theorem forall₂_getD {related : α → β → Prop} {values : Option (List α)} {values' : Option (List β)}
    (given : Option.Rel (List.Forall₂ related) values values') :
    List.Forall₂ related (values.getD []) (values'.getD []) := by
  cases given with
  | none => exact .nil
  | some all => exact all

/-- The arguments of a call are behind its parenthesis, so there is less left for them. -/
theorem callSuffix_steady (steady : Steady argument arguments deep BeginsOperand LeavesOperand
      fun _ => Checked.Alike Operand.unplaced) (closed : Closed arguments BeginsOperand) :
    Steady (callSuffix argument) (fun i => callSuffix (arguments i)) (fun i => deep i + 1)
      (· = some '(') (fun _ => True) fun _ => Suffix.Alike := by
  have given := (commaSeparated_steady steady not_beginsOperand_none ⟨by decide, by decide⟩).optional
    fun i source other => (closed i source other).bind
  have closing : LeavesOperand (some ')') ∧ some ')' ≠ some ',' :=
    ⟨⟨by decide, by decide⟩, by decide⟩
  have noOperand : ¬ BeginsOperand (some ')') :=
    fun begins => ne_of_beginsOperand begins (by decide) (by decide) rfl
  have adjoins : Adjoins (· = some ')') (fun _ => True) fun found =>
      (LeavesOperand found ∧ found ≠ some ',') ∧ ¬ BeginsOperand found :=
    .of_char ⟨closing, noOperand⟩
  have enclosed : Steady (do
      let values ← optional (commaSeparated argument)
      let _ ← blanks
      let _ ← literal ")"
      return values.getD []) (fun i => do
      let values ← optional (commaSeparated (arguments i))
      let _ ← blanks
      let _ ← literal ")"
      return values.getD []) deep
      (OpensEither (fun found => found = none ∨ BeginsOperand found) (· = some ')'))
      (fun _ => True) fun _ => List.Forall₂ (Checked.Alike Operand.unplaced) := by
    refine given.seq (fun values => (literal_steady rfl (by decide) rfl).result ?_) adjoins
    exact fun _ _ _ _ => forall₂_getD
  refine ((enclosed.behindSign "(" rfl (by decide) rfl).rule .call).placed.result ?_
  rintro _ ⟨values, span⟩ ⟨values', span'⟩ all
  exact .call (.all all)

theorem suffix_steady (steady : Steady argument arguments deep BeginsOperand LeavesOperand
      fun _ => Checked.Alike Operand.unplaced) (closed : Closed arguments BeginsOperand) :
    Steady (memberSuffix.orElse (callSuffix argument))
      (fun i => memberSuffix.orElse (callSuffix (arguments i))) (fun i => deep i + 1)
      (fun found => found = some '.' ∨ found = some '(') (fun _ => True) fun _ => Suffix.Alike := by
  refine memberSuffix_steady.orElse (callSuffix_steady steady closed) memberSuffix_closed ?_ nofun
  rintro _ rfl
  exact nofun

theorem suffix_closed (arguments : ι → Reader (Checked Operand)) :
    Closed (fun i => memberSuffix.orElse (callSuffix (arguments i)))
      fun found => found = some '.' ∨ found = some '(' := by
  intro i source other
  obtain ⟨noDot, noOpening⟩ := not_or.mp other
  exact .both (memberSuffix_closed i source noDot) (callSuffix_closed arguments i source noOpening)

theorem operandAround_steady (steady : Steady argument arguments deep BeginsOperand LeavesOperand
      fun _ => Checked.Alike Operand.unplaced) (closed : Closed arguments BeginsOperand) :
    Steady (operandAround argument) (fun i => operandAround (arguments i)) (fun i => deep i + 1)
      BeginsOperand LeavesOperand fun _ => Checked.Alike Operand.unplaced := by
  have suffixes := (suffix_steady steady closed).many (suffix_closed arguments) (by simp)
    fun _ _ => trivial
  have ending : ∀ found, LeavesOperand found →
      True ∧ ¬ (found = some '.' ∨ found = some '(') :=
    fun _ leaves => ⟨trivial, not_or.mpr leaves⟩
  have others := suffixes.narrow (fun _ => id) ending
  refine Steady.rule (primary_steady.append not_beginsOperand_none
    (fun start => (others.reindex Prod.fst).result ?_) .anywhere) .operand
  exact fun _ _ _ all alike => alike.bind fun _ _ => foldlM_applyTo_alike all

theorem operand_closed : Closed operand BeginsOperand := by
  intro depth source other
  cases depth with
  | zero => exact fun _ => rfl
  | succ depth => exact .rule (primary_closed other).bind

theorem operand_sample : Completable operand id BeginsOperand LeavesOperand [] := by
  refine ⟨['n', 'u', 'l', 'l'], ⟨'n', rfl, .inl rfl⟩, fun depth rest leaves deep => ?_⟩
  have short : (Operand.null .nowhere).render.toList.length < depth := by
    refine Nat.lt_of_le_of_lt ?_ deep
    rw [List.nil_append, List.length_cons, List.length_append]
    exact Nat.le_add_right_of_le (Nat.le_add_right 4 _)
  have reads := @operand_reads _ (.null .nowhere) trivial short _ (endsOperand_space leaves)
  exact reads.mono fun _ _ holds => holds.2.trans (strip_space rest)

/-- An operand is steady if the depth that its calls may have exceeds the length of the
source. -/
theorem operand_steady (depth : Nat) : Steady (operand depth) operand id BeginsOperand
    LeavesOperand fun _ => Checked.Alike Operand.unplaced := by
  induction depth with
  | zero => exact .fail operand_sample
  | succ depth hypothesis =>
      have around := operandAround_steady hypothesis operand_closed
      refine around.recast (fun _ => id) (fun _ => id) fun depth' positive => ?_
      obtain ⟨depth', rfl⟩ := Nat.exists_eq_add_one.mpr positive
      exact ⟨depth', rfl, le_rfl, fun _ _ => id⟩

end Operands

section Predicates

variable {ι : Type} {deep : ι → Nat}

/-- How a relation begins. -/
def BeginsRelation (found : Option Char) : Prop :=
  ∃ relation : Relation, found = relation.spelling.toList.head?

theorem head_ne_of_ahead {rest : List Char} {char : Char} (other : ahead rest ≠ some char)
    (solid : isBlank char = false) : ∀ found ∈ rest.head?, found ≠ char := by
  rintro found here rfl
  cases rest with
  | nil => cases here
  | cons first rest =>
      obtain rfl := Option.some.inj here
      refine other ?_
      rw [ahead, strip_cons solid]
      rfl

theorem relation_cuts : Cuts Token.relation BeginsRelation (· ≠ some '=') where
  split := by
    intro source taken rest cut
    obtain ⟨scanner, listed, found⟩ := List.exists_of_findSome?_eq_some cut
    obtain ⟨relation, _, rfl⟩ := List.mem_map.mp listed
    obtain ⟨rfl, split⟩ := Token.exactly_eq_some found
    exact ⟨split, relation, rfl⟩
  again := by
    intro taken rest rest' cut _ other
    obtain ⟨scanner, listed, found⟩ := List.exists_of_findSome?_eq_some cut
    obtain ⟨relation, _, rfl⟩ := List.mem_map.mp listed
    obtain ⟨rfl, _⟩ := Token.exactly_eq_some found
    cases rest' with
    | nil => cases relation <;> rfl
    | cons char rest' =>
        exact Token.relation_append relation rest' (head_ne_of_ahead other rfl char rfl)

theorem relation_steady : Steady (token .relation Token.relation)
    (fun _ : ι => token .relation Token.relation) deep BeginsRelation (· ≠ some '=')
      fun _ lexeme lexeme' => lexeme.text = lexeme'.text :=
  (Steady.scan relation_cuts (rfl : strip ['='] = ['=']) rfl).rule .relation

theorem leavesOperand_of_relation {found : Option Char} (begins : BeginsRelation found) :
    LeavesOperand found := by
  obtain ⟨relation, rfl⟩ := begins
  cases relation <;> exact ⟨by decide, by decide⟩

theorem comparison_steady (depth : Nat) : Steady (comparison depth) comparison id BeginsOperand
    LeavesOperand fun _ => Checked.Alike Predicate.unplaced := by
  have not_beginsRelation_none : ¬ BeginsRelation none := by
    rintro ⟨relation, nothing⟩
    cases relation <;> cases nothing
  have sides : Steady (do
      let left ← operand depth
      let _ ← blanks
      let relation ← token .relation Token.relation
      let _ ← blanks
      let right ← operand depth
      return (left, (Relation.ofSpelling? relation.content).getD .equal, right)) (fun depth => do
      let left ← operand depth
      let _ ← blanks
      let relation ← token .relation Token.relation
      let _ ← blanks
      let right ← operand depth
      return (left, (Relation.ofSpelling? relation.content).getD .equal, right)) id BeginsOperand
      LeavesOperand fun _ found found' => Checked.Alike Operand.unplaced found.1 found'.1 ∧
        found.2.1 = found'.2.1 ∧ Checked.Alike Operand.unplaced found.2.2 found'.2.2 := by
    refine (operand_steady depth).append not_beginsOperand_none (fun left => ?_)
      (.of_begins not_beginsRelation_none fun _ => leavesOperand_of_relation)
    refine relation_steady.append not_beginsRelation_none (fun relation => ?_)
      (.of_begins not_beginsOperand_none fun _ begins =>
        ne_of_beginsOperand begins (by decide) (by decide))
    refine ((operand_steady depth).reindex fun i : (Nat × Checked Operand) × Lexeme =>
      i.1.1).result fun _ _ _ same spelled alike => ?_
    exact ⟨alike, congrArg (fun content => (Relation.ofSpelling? content).getD .equal)
      (content_eq spelled), same⟩
  refine (sides.rule .comparison).placed.result ?_
  rintro _ ⟨⟨left, relation, right⟩, span⟩ ⟨⟨left', relation', right'⟩, span'⟩
    ⟨alike, rfl, alike'⟩
  refine alike.bind fun left left' same => alike'.bind fun right right' same' => ?_
  refine (withPattern_alike relation same').bind fun patterned patterned' same'' => .ok ?_
  rw [Predicate.unplaced, Predicate.unplaced, Comparison.unplaced, Comparison.unplaced]
  dsimp only at same same'' ⊢
  rw [same, same'']

/-- How a junction begins. -/
def BeginsJunction (found : Option Char) : Prop :=
  found = some '&' ∨ found = some 'a' ∨ found = some '|' ∨ found = some 'o'

theorem not_beginsJunction_none : ¬ BeginsJunction none := by
  simp [BeginsJunction]

instance : Nonempty Junction := ⟨.conjunction⟩

theorem junction_closed {source : List Char} (other : ¬ BeginsJunction source.head?) :
    junction.Fails source := by
  cases source with
  | nil => exact .both (.map (.token rfl)) (.map (.token rfl))
  | cons char source =>
      have different : ∀ letter, BeginsJunction (some letter) → letter ≠ char :=
        fun letter begins same => other (same ▸ begins)
      have sign := fun (spelling : String) (letter : Char) (part : List Char)
        (spelled : spelling.toList = letter :: part) (begins : BeginsJunction (some letter)) =>
          @Token.exactly_eq_none spelling letter char part source spelled (different letter begins)
      have word := fun (spelling : String) (letter : Char) (part : List Char)
        (spelled : spelling.toList = letter :: part) (begins : BeginsJunction (some letter)) =>
          @Token.word_eq_none_of_head spelling letter char part source spelled
            (different letter begins)
      refine .both (.map (.token ?_)) (.map (.token ?_))
      · unfold Token.and
        rw [Token.anyOf_cons, Token.anyOf_cons, sign "&&" '&' ['&'] rfl (.inl rfl),
          word "and" 'a' ['n', 'd'] rfl (.inr (.inl rfl))]
        rfl
      · unfold Token.or
        rw [Token.anyOf_cons, Token.anyOf_cons, sign "||" '|' ['|'] rfl (.inr (.inr (.inl rfl))),
          word "or" 'o' ['r'] rfl (.inr (.inr (.inr rfl)))]
        rfl

theorem junction_steady : Steady junction (fun _ : ι => junction) deep BeginsJunction
    (fun _ => True) fun _ => Eq := by
  have reads : ReadsLexeme junction fun _ make => ∀ span span', make span = make span' :=
    .orElse (.token Token.isLexical_and fun _ _ _ => rfl)
      (.token Token.isLexical_or fun _ _ _ => rfl)
  refine reads.steady (fun _ => junction_closed) (fun cursor offset traced => ?_) ?_
  · rcases mem_offsets_orElse traced with early | late
    · exact offset_of_token early
    · exact offset_of_token late
  · refine ⟨['&', '&'], .inl rfl, fun i rest _ _ => ?_⟩
    have cut : Token.and ("&&".toList ++ ' ' :: rest) = some ("&&".toList, ' ' :: rest) := by
      unfold Token.and Token.anyOf
      rw [List.findSome?_cons, Token.exactly_append]
    exact .left (.map (.token cut fun _ => strip_space rest))

variable {inner : Reader (Checked Predicate)} {inners : ι → Reader (Checked Predicate)}

/-- How a predicate begins. -/
def BeginsPredicate (found : Option Char) : Prop := found = some '(' ∨ BeginsOperand found

/-- What comes behind a predicate is a bracket. -/
def LeavesPredicate (found : Option Char) : Prop := found = some ')' ∨ found = some ']'

theorem LeavesPredicate.operand {found : Option Char} (leaves : LeavesPredicate found) :
    LeavesOperand found := by
  rcases leaves with rfl | rfl <;> exact ⟨by decide, by decide⟩

theorem not_beginsPredicate_none : ¬ BeginsPredicate none := by
  rintro (nothing | begins)
  · cases nothing
  · exact not_beginsOperand_none begins

theorem group_steady (steady : Steady inner inners deep BeginsPredicate LeavesPredicate
      fun _ => Checked.Alike Predicate.unplaced) :
    Steady (group inner) (fun i => group (inners i)) (fun i => deep i + 1) (· = some '(')
      (fun _ => True) fun _ => Checked.Alike Predicate.unplaced := by
  have closed : Steady (do
      let predicate ← inner
      let _ ← blanks
      let _ ← literal ")"
      return predicate) (fun i => do
      let predicate ← inners i
      let _ ← blanks
      let _ ← literal ")"
      return predicate) deep BeginsPredicate (fun _ => True)
      fun _ => Checked.Alike Predicate.unplaced := by
    refine steady.append not_beginsPredicate_none (fun predicate => ?_) (.of_char (.inl rfl))
    exact (literal_steady rfl (by decide) rfl).result fun _ _ _ _ alike => alike
  exact closed.behindSign "(" rfl (by decide) rfl

theorem group_closed : Closed (fun i => group (inners i)) (· = some '(') :=
  fun _ _ other => (literal_refuses rfl other).bind

variable {depths : ι → Nat}

theorem term_steady (depth : Nat) (steady : Steady inner inners deep BeginsPredicate
      LeavesPredicate fun _ => Checked.Alike Predicate.unplaced) :
    Steady ((group inner).orElse (comparison depth))
      (fun i => (group (inners i)).orElse (comparison (depths i)))
      (fun i => min (depths i) (deep i + 1)) BeginsPredicate LeavesOperand
      fun _ => Checked.Alike Predicate.unplaced := by
  have grouped := (group_steady steady).narrow (fun _ => id) fun found (_ : LeavesOperand found) =>
    trivial
  have compared := (comparison_steady depth).reindex depths
  refine Steady.orElse (grouped.shallower fun i => Nat.min_le_right _ _)
    (compared.shallower fun i => Nat.min_le_left _ _) group_closed ?_ not_beginsOperand_none
  exact fun found begins => ne_of_beginsOperand begins (by decide) (by decide)

theorem predicateAround_steady (depth : Nat) (steady : Steady inner inners deep BeginsPredicate
      LeavesPredicate fun _ => Checked.Alike Predicate.unplaced) :
    Steady (predicateAround depth inner) (fun i => predicateAround (depths i) (inners i))
      (fun i => min (depths i) (deep i + 1)) BeginsPredicate LeavesPredicate
      fun _ => Checked.Alike Predicate.unplaced := by
  have term := @term_steady _ _ _ _ depths depth steady
  have joined : Steady (do
      let junction ← junction
      let _ ← blanks
      let next ← (group inner).orElse (comparison depth)
      return (junction, next)) (fun i => do
      let junction ← junction
      let _ ← blanks
      let next ← (group (inners i)).orElse (comparison (depths i))
      return (junction, next)) (fun i => min (depths i) (deep i + 1)) BeginsJunction LeavesOperand
      fun _ => JoinedAlike Predicate.unplaced := by
    refine junction_steady.append not_beginsJunction_none
      (fun junction => (term.reindex Prod.fst).result ?_) .anywhere
    exact fun _ _ _ alike same => ⟨same, alike⟩
  have closed : Closed (fun i => do
      let junction ← junction
      let _ ← blanks
      let next ← (group (inners i)).orElse (comparison (depths i))
      return (junction, next)) BeginsJunction :=
    fun _ _ other => (junction_closed other).bind
  have leaves : ∀ found, BeginsJunction found → LeavesOperand found := by
    rintro _ (rfl | rfl | rfl | rfl) <;> exact ⟨by decide, by decide⟩
  have bracket : ∀ found, LeavesPredicate found → LeavesOperand found ∧ ¬ BeginsJunction found := by
    rintro _ (rfl | rfl) <;> exact ⟨⟨by decide, by decide⟩, by simp [BeginsJunction]⟩
  have others := (joined.many closed not_beginsJunction_none leaves).narrow (fun _ => id) bracket
  refine Steady.rule (term.append not_beginsPredicate_none (fun first => ?_)
    (.of_optional leaves fun _ => LeavesPredicate.operand)) .predicate
  exact (others.reindex Prod.fst).result fun _ _ _ all alike => combine_alike alike all

theorem exists_closing {rest : List Char} (leaves : LeavesPredicate (ahead rest)) :
    ∃ gap closing behind, (∀ char ∈ gap, isBlank char = true) ∧
      (closing = ')' ∨ closing = ']') ∧ rest = gap ++ closing :: behind := by
  obtain ⟨gap, blank, split⟩ := skips_strip rest
  unfold ahead at leaves
  cases found : strip rest with
  | nil => simp [found, LeavesPredicate] at leaves
  | cons closing behind =>
      rw [found] at leaves split
      exact ⟨gap, closing, behind, blank, by simpa [LeavesPredicate] using leaves, split⟩

theorem predicate_sample : Completable (fun i : Nat × Nat => predicate i.1 i.2)
    (fun i => min i.1 i.2) BeginsPredicate LeavesPredicate [] := by
  let comparison : Comparison := ⟨.null .nowhere, .equal, .null .nowhere, .nowhere⟩
  have proper : (Wording.bare comparison comparison.render.toList).IsProper :=
    .bare (readsComparison_render ⟨trivial, .null .nowhere, trivial, rfl⟩)
  have text : comparison.render.toList = ['n', 'u', 'l', 'l', '=', 'n', 'u', 'l', 'l'] := by
    decide +kernel
  rw [text] at proper
  refine ⟨['n', 'u', 'l', 'l', '=', 'n', 'u', 'l', 'l'], .inr ⟨'n', rfl, .inl rfl⟩, ?_⟩
  intro i rest leaves deep
  obtain ⟨gap, closing, behind, blank, bracket, rfl⟩ := exists_closing leaves
  rw [List.nil_append, List.length_cons, List.length_append] at deep
  have short : 9 < i.1 ∧ 9 < i.2 := by
    simp only [List.length_cons, List.length_nil] at deep
    omega
  have reads : ReadsInside (predicate i.1 i.2) _ _ := wording_reads proper short.1 short.2
  have spaced : ∀ char ∈ ' ' :: gap, isBlank char = true := List.forall_mem_cons.mpr ⟨rfl, blank⟩
  refine (reads (' ' :: gap) closing behind spaced bracket).mono fun _ _ holds => ?_
  rw [holds.2, strip_blank_append blank, strip_bracket bracket]

/-- A predicate is steady if the depths that its calls and parentheses may have exceed the length
of the source. -/
theorem predicate_steady (depth nesting : Nat) : Steady (predicate depth nesting)
    (fun i : Nat × Nat => predicate i.1 i.2) (fun i => min i.1 i.2) BeginsPredicate LeavesPredicate
      fun _ => Checked.Alike Predicate.unplaced := by
  induction nesting with
  | zero => exact .fail predicate_sample
  | succ nesting hypothesis =>
      have around := @predicateAround_steady _ _ _ _ Prod.fst depth hypothesis
      refine around.recast (fun _ => id) (fun _ => id) ?_
      rintro ⟨depth', nesting'⟩ positive
      obtain ⟨nesting', rfl⟩ := Nat.exists_eq_add_one.mpr (Nat.lt_min.mp positive).2
      exact ⟨(depth', nesting'), rfl, by dsimp only; omega, fun _ _ => id⟩

end Predicates

end TreeSelector.Grammar
