import TreeSelector.Proofs.Grammar.Selectors
import TreeSelector.Proofs.Grammar.Twins

/-!
# Blanks between tokens make no difference

Sources that differ in the blanks between their lexemes are read alike, reader by reader: the
same pieces are found in both, and they differ in nothing but spans.  So blanks can be put
between any two tokens of a selector, or others in the place of those there are, and it stays
the same selector.
-/

namespace TreeSelector.Grammar

open Reader
open Token (signs sticks)

section Values

variable {α β α' β' : Type} {forget : α → β} {forget' : α' → β'}

/-- There is an error in both, or there are values that are the same as far as `forget` tells. -/
inductive Checked.Alike (forget : α → β) : Checked α → Checked α → Prop
  | error {error error' : SelectorError} : Alike forget (.error error) (.error error')
  | ok {value value' : α} (same : forget value = forget value') :
      Alike forget (.ok value) (.ok value')

theorem Checked.Alike.bind {checked checked' : Checked α} {next next' : α → Checked α'}
    (alike : Checked.Alike forget checked checked')
    (onward : ∀ value value', forget value = forget value' →
      Checked.Alike forget' (next value) (next' value')) :
    Checked.Alike forget' (checked >>= next) (checked' >>= next') := by
  cases alike with
  | error => exact .error
  | ok same => exact onward _ _ same

theorem Checked.Alike.all {pieces pieces' : List (Checked α)}
    (alike : List.Forall₂ (Checked.Alike forget) pieces pieces') :
    Checked.Alike (List.map forget) (Checked.all pieces) (Checked.all pieces') := by
  induction alike with
  | nil => exact .ok rfl
  | cons first _ hypothesis =>
      refine first.bind fun value value' same => hypothesis.bind fun values values' others => ?_
      exact .ok (by rw [List.map_cons, List.map_cons, same, others])

/-- Suffixes that differ in nothing but spans. -/
inductive Suffix.Alike : Suffix → Suffix → Prop
  | member {property : Name} {span span' : Span} :
      Alike (.member property span) (.member property span')
  | call {arguments arguments' : Checked (List Operand)} {span span' : Span}
      (alike : Checked.Alike (List.map Operand.unplaced) arguments arguments') :
      Alike (.call arguments span) (.call arguments' span')

theorem Suffix.Alike.applyTo {suffix suffix' : Suffix} (alike : Suffix.Alike suffix suffix')
    {object object' : Operand} (same : object.unplaced = object'.unplaced) :
    Checked.Alike Operand.unplaced (suffix.applyTo object) (suffix'.applyTo object') := by
  cases alike with
  | member => exact .ok (by rw [Operand.unplaced, Operand.unplaced, same])
  | call alike =>
      refine alike.bind fun arguments arguments' sameArguments => ?_
      rw [← Operand.unplacedAll_eq_map, ← Operand.unplacedAll_eq_map] at sameArguments
      -- only a name and a member can be called
      cases object with
      | reference name span =>
          cases object' with
          | reference name' span' =>
              obtain ⟨rfl, -⟩ := Operand.reference.inj same
              exact .ok (by rw [Operand.unplaced, Operand.unplaced, sameArguments])
          | _ => cases same
      | member owner method span =>
          cases object' with
          | member owner' method' span' =>
              obtain ⟨sameOwner, rfl, -⟩ := Operand.member.inj same
              exact .ok (by rw [Operand.unplaced, Operand.unplaced, sameOwner, sameArguments])
          | _ => cases same
      | _ =>
          cases object' with
          | reference | member => cases same
          | _ => exact .error

theorem foldlM_applyTo_alike {suffixes suffixes' : List Suffix}
    (alike : List.Forall₂ Suffix.Alike suffixes suffixes') {object object' : Operand}
    (same : object.unplaced = object'.unplaced) :
    Checked.Alike Operand.unplaced (suffixes.foldlM Suffix.applyTo object)
      (suffixes'.foldlM Suffix.applyTo object') := by
  induction alike generalizing object object' with
  | nil => exact .ok same
  | cons first _ hypothesis =>
      rw [List.foldlM_cons, List.foldlM_cons]
      exact (first.applyTo same).bind fun _ _ => hypothesis

theorem withPattern_alike (relation : Relation) {right right' : Operand}
    (same : right.unplaced = right'.unplaced) :
    Checked.Alike Operand.unplaced (withPattern relation right) (withPattern relation right') := by
  have expected := unplaced_withPattern relation right
  rw [same, ← unplaced_withPattern relation right'] at expected
  cases read : withPattern relation right with
  | error =>
      cases read' : withPattern relation right' with
      | error => exact .error
      | ok => simp [read, read', Except.toOption] at expected
  | ok =>
      cases read' : withPattern relation right' with
      | error => simp [read, read', Except.toOption] at expected
      | ok => exact .ok (by simpa [read, read', Except.toOption] using expected)

end Values

section Operands

variable {leftover : List Char} {limit limit' : Nat} {argument argument' : Reader (Checked Operand)}
  {lexeme lexeme' : Lexeme}

theorem integerOf_alike (same : lexeme.text = lexeme'.text) :
    Checked.Alike Operand.unplaced (integerOf lexeme) (integerOf lexeme') := by
  unfold integerOf
  rw [same]
  cases (Text.Radix.integer? 10 lexeme'.text).bind Text.int32? with
  | none => exact .error
  | some value => exact .ok rfl

theorem textOf_alike (same : lexeme.text = lexeme'.text) :
    Checked.Alike Operand.unplaced (textOf lexeme) (textOf lexeme') := by
  unfold textOf Lexeme.body
  rw [same]
  cases Text.Escape.decode (lexeme'.text.drop 1).dropLast with
  | error => exact .error
  | ok value => exact .ok rfl

theorem content_eq (same : lexeme.text = lexeme'.text) : lexeme.content = lexeme'.content :=
  congrArg String.ofList same

theorem primary_twins :
    TwinPieces leftover limit limit' primary primary (Checked.Alike Operand.unplaced) := by
  intro source source' aligned
  -- each alternative reads one lexeme, and its value depends on the text of the lexeme only
  have one : ∀ {name : Rule} {scanner : Scanner} {value : Lexeme → Checked Operand},
      Token.IsLexical scanner → (∀ lexeme lexeme' : Lexeme, lexeme.text = lexeme'.text →
        Checked.Alike Operand.unplaced (value lexeme) (value lexeme')) →
      Twins (value <$> token name scanner) (value <$> token name scanner) source source'
        fun value value' rest rest' => Checked.Alike Operand.unplaced value value' ∧
          Remains leftover source.length source'.length rest rest' :=
    fun lexical alike => .map ((Twins.token aligned lexical).mono
      fun lexeme lexeme' _ _ holds => ⟨alike lexeme lexeme' holds.1, holds.2⟩)
  refine .orElse (one Token.isLexical_null fun _ _ _ => .ok rfl) ?_
  refine .orElse (one Token.isLexical_boolean fun _ _ same => .ok ?_) ?_
  · rw [content_eq same, Operand.unplaced, Operand.unplaced]
  refine .orElse (one Token.isLexical_integer fun _ _ => integerOf_alike) ?_
  refine .orElse (one Token.isLexical_text fun _ _ => textOf_alike) ?_
  refine one Token.isLexical_identifier fun _ _ same => .ok ?_
  rw [content_eq same, Operand.unplaced, Operand.unplaced]

theorem memberSuffix_twins :
    TwinPieces leftover limit limit' memberSuffix memberSuffix Suffix.Alike := by
  intro source source' aligned
  refine Twins.placed (?_ : Twins _ _ _ _ fun lexeme lexeme' rest rest' =>
    lexeme.text = lexeme'.text ∧ Remains leftover source.length source'.length rest rest') ?_
  · refine .afterSign aligned (by decide) fun remains _ _ => ?_
    refine .afterBlanks remains fun inner _ _ => ?_
    exact (Twins.token inner Token.isLexical_name).mono
      fun _ _ _ _ holds => ⟨holds.1, holds.2.within inner.toRemains⟩
  · intro lexeme lexeme' span span' rest rest' holds
    refine .pure ⟨?_, holds.2⟩
    rw [content_eq holds.1]
    exact .member

theorem commaSeparated_twins {α : Type} {item item' : Reader α} {alike : α → α → Prop}
    (items : TwinPieces leftover limit limit' item item' alike) :
    TwinPieces leftover limit limit' (commaSeparated item) (commaSeparated item')
      (List.Forall₂ alike) := by
  intro source source' aligned
  refine (items aligned).bind fun first first' rest rest' holds => ?_
  refine .afterBlanks holds.2 fun inner _ _ => ?_
  have further : TwinPieces leftover source.length source'.length (do
        let _ ← literal ","
        let _ ← blanks
        item) (do
        let _ ← literal ","
        let _ ← blanks
        item') alike := by
    intro source₁ source₁' there
    refine .afterSign there (by decide) fun remains _ _ => .afterBlanks remains fun inner _ _ => ?_
    have outer := there.toRemains.within aligned.toRemains
    exact (items (inner.within outer)).mono
      fun _ _ _ _ holds => ⟨holds.1, holds.2.within inner.toRemains⟩
  exact (further.many inner).bind fun others others' rest rest' all =>
    .pure ⟨.cons holds.1 all.1, all.2⟩

/-- The arguments of a call are behind its parenthesis, so there is less left for them. -/
theorem callSuffix_twins
    (arguments : TwinPieces leftover limit limit' argument argument'
      (Checked.Alike Operand.unplaced)) :
    TwinPieces leftover (limit + 1) (limit' + 1) (callSuffix argument) (callSuffix argument')
      Suffix.Alike := by
  intro source source' aligned
  refine Twins.placed (?_ : Twins _ _ _ _ fun values values' rest rest' =>
    List.Forall₂ (Checked.Alike Operand.unplaced) values values' ∧
      Remains leftover source.length source'.length rest rest') ?_
  · refine .afterSign aligned (by decide) fun remains _ _ => ?_
    refine .afterBlanks remains fun inner _ _ => ?_
    refine Twins.bind (?_ : Twins _ _ _ _ fun found found' rest rest' =>
      List.Forall₂ (Checked.Alike Operand.unplaced) (found.getD []) (found'.getD []) ∧
        Remains leftover source.length source'.length rest rest') ?_
    · refine .optional ?_ ⟨.nil, inner.toRemains⟩
      exact (commaSeparated_twins arguments (inner.inside aligned.toRemains)).mono
        fun _ _ _ _ holds => ⟨holds.1, holds.2.within inner.toRemains⟩
    · intro found found' rest rest' holds
      refine .afterBlanks holds.2 fun closing _ _ => .afterSign closing (by decide) ?_
      exact fun last _ _ => .pure ⟨holds.1, last.within closing.toRemains⟩
  · intro values values' span span' rest rest' holds
    exact .pure ⟨.call (.all holds.1), holds.2⟩

theorem operandAround_twins
    (arguments : TwinPieces leftover limit limit' argument argument'
      (Checked.Alike Operand.unplaced)) :
    TwinPieces leftover (limit + 1) (limit' + 1) (operandAround argument) (operandAround argument')
      (Checked.Alike Operand.unplaced) := by
  intro source source' aligned
  refine .rule ((primary_twins aligned).bind fun start start' rest rest' holds => ?_)
  refine .afterBlanks holds.2 fun inner _ _ => ?_
  have suffixes : TwinPieces leftover source.length source'.length
      (memberSuffix.orElse (callSuffix argument)) (memberSuffix.orElse (callSuffix argument'))
      Suffix.Alike := by
    intro source₁ source₁' there
    have outer := there.within aligned.toRemains
    exact .orElse (memberSuffix_twins there) (callSuffix_twins arguments outer)
  exact (suffixes.many inner).bind fun _ _ _ _ all =>
    .pure ⟨holds.1.bind fun _ _ => foldlM_applyTo_alike all.1, all.2⟩

/-- An operand is read alike if the depth that calls may have exceeds the lengths of both
sources. -/
theorem operand_twins (depth depth' : Nat) :
    TwinPieces leftover depth depth' (operand depth) (operand depth')
      (Checked.Alike Operand.unplaced) := by
  induction depth generalizing depth' with
  | zero => exact fun aligned => absurd aligned.below (Nat.not_lt_zero _)
  | succ depth hypothesis =>
      cases depth' with
      | zero => exact fun aligned => absurd aligned.below' (Nat.not_lt_zero _)
      | succ depth' => exact operandAround_twins (hypothesis depth')

end Operands

section Predicates

variable {leftover : List Char}

theorem mem_signs_of_relation (relation : Relation) : relation.spelling ∈ signs := by
  cases relation <;> decide

/-- A relation that is a part of a longer sign leaves what no operand begins with. -/
theorem sticks_relation {relation : Relation} {char : Char}
    (stuck : sticks relation.spelling char = true) : char = '<' ∨ char = '=' := by
  cases relation with
  | less => simpa [Relation.spelling, sticks] using stuck
  | more => exact .inr (by simpa [Relation.spelling, sticks] using stuck)
  | _ => cases stuck

theorem relation_twins {limit limit' : Nat} {source source' : List Char}
    (aligned : Aligned leftover limit limit' source source') :
    Twins (token .relation Token.relation) (token .relation Token.relation) source source'
      fun lexeme lexeme' rest rest' => lexeme.text = lexeme'.text ∧
        (Remains leftover source.length source'.length rest rest' ∨
          BothBegin (fun char => char = '<' ∨ char = '=') rest rest') := by
  refine .rule (.scan (.anyOf fun scanner listed => ?_))
  obtain ⟨relation, _, rfl⟩ := List.mem_map.mp listed
  refine (aligned.cut_sign (mem_signs_of_relation relation)).mono fun _ _ => Or.imp_right ?_
  rintro ⟨char, part, part', stuck, same, same'⟩
  exact ⟨char, part, part', sticks_relation stuck, same, same'⟩

theorem no_operand_behind {β : Type} (depth : Nat) {char : Char} (stuck : char = '<' ∨ char = '=')
    (part : List Char) (next : Checked Operand → Reader β) :
    (do
      let _ ← blanks
      let right ← operand depth
      next right).Fails (char :: part) := by
  refine .afterBlanks fun _ => Fails.bind ?_
  rcases stuck with rfl | rfl
  · rw [strip_cons (by decide)]
    exact operand_fails depth (by decide) (by decide) part
  · rw [strip_cons (by decide)]
    exact operand_fails depth (by decide) (by decide) part

theorem comparison_twins (depth depth' : Nat) :
    TwinPieces leftover depth depth' (comparison depth) (comparison depth')
      (Checked.Alike Predicate.unplaced) := by
  intro source source' aligned
  refine Twins.placed (?_ : Twins _ _ _ _ fun found found' rest rest' =>
    (Checked.Alike Operand.unplaced found.1 found'.1 ∧ found.2.1 = found'.2.1 ∧
      Checked.Alike Operand.unplaced found.2.2 found'.2.2) ∧
      Remains leftover source.length source'.length rest rest') ?_
  · refine (operand_twins depth depth' aligned).bind fun left left' rest rest' holds => ?_
    refine .afterBlanks holds.2 fun middle _ _ => ?_
    refine (relation_twins middle).bind fun lexeme lexeme' rest rest' spelled => ?_
    rw [content_eq spelled.1]
    rcases spelled.2 with remains | ⟨char, part, part', stuck, rfl, rfl⟩
    · refine .afterBlanks (remains.within middle.toRemains) fun inner _ _ => ?_
      have there := inner.within aligned.toRemains
      refine (operand_twins depth depth' there).bind fun right right' rest rest' holds' => ?_
      exact .pure ⟨⟨holds.1, rfl, holds'.1⟩, holds'.2.within inner.toRemains⟩
    · exact .fails (no_operand_behind depth stuck part _) (no_operand_behind depth' stuck part' _)
  · intro found found' span span' rest rest' holds
    obtain ⟨left, relation, right⟩ := found
    obtain ⟨left', relation', right'⟩ := found'
    obtain ⟨⟨alike, rfl, alike'⟩, remains⟩ := holds
    refine .pure ⟨?_, remains⟩
    refine alike.bind fun left left' same => alike'.bind fun right right' same' => ?_
    refine (withPattern_alike relation same').bind fun patterned patterned' same'' => .ok ?_
    rw [Predicate.unplaced, Predicate.unplaced, Comparison.unplaced, Comparison.unplaced]
    dsimp only
    rw [same, same'']

theorem junction_twins {limit limit' : Nat} :
    TwinPieces leftover limit limit' junction junction Eq := by
  intro source source' aligned
  refine .orElse (.map ?_) (.map ?_)
  · exact (Twins.token aligned Token.isLexical_and).mono fun _ _ _ _ holds => ⟨rfl, holds.2⟩
  · exact (Twins.token aligned Token.isLexical_or).mono fun _ _ _ _ holds => ⟨rfl, holds.2⟩

variable {limit limit' : Nat} {inner inner' : Reader (Checked Predicate)}

theorem group_twins
    (inside : TwinPieces leftover limit limit' inner inner' (Checked.Alike Predicate.unplaced)) :
    TwinPieces leftover (limit + 1) (limit' + 1) (group inner) (group inner')
      (Checked.Alike Predicate.unplaced) := by
  intro source source' aligned
  refine .afterSign aligned (by decide) fun remains _ _ => .afterBlanks remains fun first _ _ => ?_
  refine (inside (first.inside aligned.toRemains)).bind fun predicate predicate' rest rest' holds => ?_
  refine .afterBlanks (holds.2.within first.toRemains) fun closing _ _ => ?_
  exact .afterSign closing (by decide) fun last _ _ =>
    .pure ⟨holds.1, last.within closing.toRemains⟩

/-- A term behind its junction is read alike. -/
def JoinedAlike {α β γ : Type} (forget : α → β) (value value' : γ × Checked α) : Prop :=
  value.1 = value'.1 ∧ Checked.Alike forget value.2 value'.2

theorem combine_alike {first first' : Checked Predicate}
    {others others' : List (Junction × Checked Predicate)}
    (alike : Checked.Alike Predicate.unplaced first first')
    (all : List.Forall₂ (JoinedAlike Predicate.unplaced) others others') :
    Checked.Alike Predicate.unplaced
      (do
        let first ← first
        let others ← Checked.all (others.map fun (junction, next) => (junction, ·) <$> next)
        return combine first others)
      (do
        let first ← first'
        let others ← Checked.all (others'.map fun (junction, next) => (junction, ·) <$> next)
        return combine first others) := by
  refine alike.bind fun value value' same => ?_
  have pieces : List.Forall₂ (Checked.Alike unplacedTerm)
      (others.map fun (junction, next) => (junction, ·) <$> next)
      (others'.map fun (junction, next) => (junction, ·) <$> next) := by
    refine List.forall₂_map_left_iff.mpr (List.forall₂_map_right_iff.mpr (all.imp ?_))
    rintro ⟨junction, next⟩ ⟨junction', next'⟩ ⟨rfl, alike⟩
    exact alike.bind fun _ _ same => .ok (Prod.ext rfl same)
  refine (Checked.Alike.all pieces).bind fun values values' sameOthers => .ok ?_
  exact (unplaced_combine same.symm sameOthers.symm).symm

theorem predicateAround_twins {depth depth' : Nat} (le : limit + 1 ≤ depth)
    (le' : limit' + 1 ≤ depth')
    (inside : TwinPieces leftover limit limit' inner inner' (Checked.Alike Predicate.unplaced)) :
    TwinPieces leftover (limit + 1) (limit' + 1) (predicateAround depth inner)
      (predicateAround depth' inner') (Checked.Alike Predicate.unplaced) := by
  intro source source' aligned
  have term : TwinPieces leftover (limit + 1) (limit' + 1)
      ((group inner).orElse (comparison depth)) ((group inner').orElse (comparison depth'))
      (Checked.Alike Predicate.unplaced) :=
    fun there => .orElse (group_twins inside there)
      (comparison_twins depth depth' (there.mono le le'))
  refine .rule ((term aligned).bind fun first first' rest rest' holds => ?_)
  refine .afterBlanks holds.2 fun behind _ _ => ?_
  have joined : TwinPieces leftover source.length source'.length (do
        let junction ← junction
        let _ ← blanks
        let next ← (group inner).orElse (comparison depth)
        return (junction, next)) (do
        let junction ← junction
        let _ ← blanks
        let next ← (group inner').orElse (comparison depth')
        return (junction, next)) (JoinedAlike Predicate.unplaced) := by
    intro source₁ source₁' there
    refine (junction_twins there).bind fun junction junction' rest rest' same => ?_
    refine .afterBlanks same.2 fun next _ _ => ?_
    have outer := there.toRemains.within aligned.toRemains
    refine (term (next.within outer)).bind fun value value' rest rest' holds => ?_
    exact .pure ⟨⟨same.1, holds.1⟩, holds.2.within next.toRemains⟩
  exact (joined.many behind).bind fun others others' rest rest' all =>
    .pure ⟨combine_alike holds.1 all.1, all.2⟩

/-- A predicate is read alike if the depths that calls and parentheses may have exceed the
lengths of both sources. -/
theorem predicate_twins {depth depth' : Nat} (nesting nesting' : Nat) (le : nesting ≤ depth)
    (le' : nesting' ≤ depth') :
    TwinPieces leftover nesting nesting' (predicate depth nesting) (predicate depth' nesting')
      (Checked.Alike Predicate.unplaced) := by
  induction nesting generalizing nesting' with
  | zero => exact fun aligned => absurd aligned.below (Nat.not_lt_zero _)
  | succ nesting hypothesis =>
      cases nesting' with
      | zero => exact fun aligned => absurd aligned.below' (Nat.not_lt_zero _)
      | succ nesting' =>
          exact predicateAround_twins le le'
            (hypothesis nesting' (Nat.le_of_succ_le le) (Nat.le_of_succ_le le'))

end Predicates

section Windows

variable {leftover : List Char} {limit limit' : Nat}

theorem offset?_congr {lexeme lexeme' : Lexeme} (same : lexeme.text = lexeme'.text) :
    offset? lexeme = offset? lexeme' := by
  unfold offset?
  rw [same]

/-- Digits with the same text, or none in both cases. -/
def SameDigits : Option Lexeme → Option Lexeme → Prop :=
  Option.Rel fun lexeme lexeme' => lexeme.text = lexeme'.text

theorem window?_range_congr {min min' max max' : Option Lexeme} (same : SameDigits min min')
    (same' : SameDigits max max') :
    (Bounds.range min max).window? = (Bounds.range min' max').window? := by
  unfold Bounds.window?
  cases same with
  | none =>
      cases same' with
      | none => rfl
      | some text => dsimp only; rw [offset?_congr text]
  | some text =>
      dsimp only
      rw [offset?_congr text]
      cases same' with
      | none => rfl
      | some text' => dsimp only; rw [offset?_congr text']

theorem checkedWindow_alike {bounds bounds' : Bounds} (same : bounds.window? = bounds'.window?)
    (written written' : String) (span span' : Span) :
    Checked.Alike id (checkedWindow written span bounds)
      (checkedWindow written' span' bounds') := by
  unfold checkedWindow
  rw [same]
  cases bounds'.window? with
  | none => exact .error
  | some window =>
      dsimp only
      split
      · exact .error
      · exact .ok rfl

/-- An offset is read from both sources, or left out in both. -/
theorem bound_twins (name : Rule) {source source' : List Char}
    (aligned : Aligned leftover limit limit' source source') :
    Twins (optional (token name Token.digits)) (optional (token name Token.digits)) source source'
      fun found found' rest rest' => SameDigits found found' ∧
        Remains leftover limit limit' rest rest' := by
  refine .optional ((Twins.token aligned Token.isLexical_digits).mono ?_) ⟨.none, aligned.toRemains⟩
  exact fun _ _ _ _ holds => ⟨.some holds.1, holds.2.within aligned.toRemains⟩

theorem bounds_twins :
    TwinPieces leftover limit limit' (windowRange.orElse windowExact)
      (windowRange.orElse windowExact) fun bounds bounds' => bounds.window? = bounds'.window? := by
  intro source source' aligned
  refine .orElse (.rule ?_) (.map ?_)
  · refine (bound_twins .windowMin aligned.tight).bind fun min min' rest rest' holds => ?_
    refine .afterBlanks holds.2 fun comma _ _ => .afterSign comma (by decide) fun behind _ _ => ?_
    -- the comma makes the difference, as there may be no digits
    refine .afterBlanks (behind.inside comma.toRemains) fun last _ _ => (bound_twins .windowMax last).bind ?_
    exact fun max max' rest rest' holds' => .pure ⟨window?_range_congr holds.1 holds'.1, holds'.2⟩
  · refine (Twins.token aligned Token.isLexical_digits).mono fun _ _ _ _ holds => ⟨?_, holds.2⟩
    unfold Bounds.window?
    dsimp only
    rw [offset?_congr holds.1]

theorem spelled_twins {α β : Type} {name : Rule} {reader reader' : Reader α}
    {source source' : List Char} {post : α → α → List Char → List Char → Prop}
    {next next' : α × Lexeme → Reader β} {final : β → β → List Char → List Char → Prop}
    (twins : Twins reader reader' source source' post)
    (second : ∀ value value' lexeme lexeme' rest rest', post value value' rest rest' →
      Twins (next (value, lexeme)) (next' (value', lexeme')) rest rest' final) :
    Twins (spelled (rule name reader) >>= next) (spelled (rule name reader') >>= next')
      source source' final :=
  (Twins.noted (result_spelled _) (result_spelled _) twins.rule).bind
    fun found found' => second found.1 found'.1 found.2 found'.2

theorem window_twins : TwinPieces leftover limit limit' window window (Checked.Alike id) := by
  intro source source' aligned
  refine spelled_twins (?_ : Twins _ _ _ _ fun bounds bounds' rest rest' =>
    bounds.window? = bounds'.window? ∧ Remains leftover source.length source'.length rest rest') ?_
  · refine .afterSign aligned (by decide) fun remains _ _ => ?_
    refine .afterBlanks remains fun inner _ _ => ?_
    refine (bounds_twins inner).bind fun bounds bounds' rest rest' holds => ?_
    refine .afterBlanks (holds.2.within inner.toRemains) fun closing _ _ => ?_
    exact .afterSign closing (by decide) fun last _ _ =>
      .pure ⟨holds.1, last.within closing.toRemains⟩
  · intro bounds bounds' lexeme lexeme' rest rest' holds
    exact .pure ⟨checkedWindow_alike holds.1 _ _ _ _, holds.2⟩

end Windows

section Segments

variable {leftover : List Char} {limit limit' : Nat} {source source' : List Char}

theorem segment_alike {predicate predicate' : Checked Predicate}
    {window window' : Option (Checked Window)} (target : Bool)
    (alike : Checked.Alike Predicate.unplaced predicate predicate')
    (windows : Option.Rel (Checked.Alike id) window window') (span span' : Span) :
    Checked.Alike Segment.unplaced
      (do
        let predicate ← predicate
        match window with
        | some window => return ⟨target, predicate, some (← window), span⟩
        | none => return ⟨target, predicate, none, span⟩)
      (do
        let predicate ← predicate'
        match window' with
        | some window => return ⟨target, predicate, some (← window), span'⟩
        | none => return ⟨target, predicate, none, span'⟩) := by
  refine alike.bind fun predicate predicate' same => ?_
  cases windows with
  | none =>
      refine .ok ?_
      rw [Segment.unplaced, Segment.unplaced]
      dsimp only
      rw [same]
  | some windowAlike =>
      refine windowAlike.bind fun window window' sameWindow => .ok ?_
      rw [Segment.unplaced, Segment.unplaced]
      dsimp only
      rw [same, show window = window' from sameWindow]

theorem segment_twins (depth depth' : Nat) :
    TwinPieces leftover depth depth' (segment depth) (segment depth')
      (Checked.Alike Segment.unplaced) := by
  intro source source' aligned
  refine Twins.placed (?_ : Twins _ _ _ _ fun found found' rest rest' =>
    (found.1 = found'.1 ∧ Checked.Alike Predicate.unplaced found.2.1 found'.2.1 ∧
      Option.Rel (Checked.Alike id) found.2.2 found'.2.2) ∧
      Remains leftover source.length source'.length rest rest') ?_
  · have tight := aligned.tight
    refine Twins.bind (?_ : Twins _ _ _ _ fun found found' rest rest' =>
      found.isSome = found'.isSome ∧
        Remains leftover (source.length + 1) (source'.length + 1) rest rest') ?_
    · refine .optional ((Twins.token tight (Token.isLexical_exactly (by decide))).mono ?_)
        ⟨rfl, tight.toRemains⟩
      exact fun _ _ _ _ holds => ⟨rfl, holds.2.within tight.toRemains⟩
    intro target target' rest rest' marked
    refine .afterBlanks marked.2 fun opening _ _ => .afterSign opening (by decide) ?_
    -- the bracket makes the difference, as there may be no mark
    intro rest rest' behind _ _
    refine .afterBlanks (behind.inside opening.toRemains) fun inner _ _ => ?_
    have there := inner.within aligned.toRemains
    refine (predicate_twins depth depth' le_rfl le_rfl there).bind ?_
    intro predicate predicate' rest rest' holds
    refine .afterBlanks (holds.2.within inner.toRemains) fun closing _ _ => ?_
    refine .afterSign closing (by decide) fun last _ _ => ?_
    refine .afterBlanks (last.within closing.toRemains) fun end' _ _ => ?_
    refine Twins.bind (?_ : Twins _ _ _ _ fun found found' rest rest' =>
      Option.Rel (Checked.Alike id) found found' ∧
        Remains leftover source.length source'.length rest rest') ?_
    · refine .optional ((window_twins end').mono ?_) ⟨.none, end'.toRemains⟩
      exact fun _ _ _ _ holds => ⟨.some holds.1, holds.2.within end'.toRemains⟩
    · exact fun window window' _ _ found => .pure ⟨⟨marked.1, holds.1, found.1⟩, found.2⟩
  · intro found found' span span' rest rest' holds
    obtain ⟨target, predicate, window⟩ := found
    obtain ⟨target', predicate', window'⟩ := found'
    obtain ⟨⟨rfl, alike, windows⟩, remains⟩ := holds
    exact .pure ⟨segment_alike target alike windows span span', remains⟩

theorem segment_fails (depth : Nat) {char : Char} (solid : isBlank char = false)
    (unmarked : char ≠ '@') (closed : char ≠ '[') (part : List Char) :
    (segment depth).Fails (char :: part) := by
  have noMark : Token.exactly "@" (char :: part) = none :=
    Token.exactly_eq_none (by rfl) unmarked.symm
  refine Fails.bind (.placed (.rule (.after (.absent (.token noMark) rfl :
    (optional (token .target (Token.exactly "@"))).Reads (char :: part)
      fun _ rest => rest = char :: part) fun _ rest here => ?_)))
  rw [here]
  refine .afterBlanks fun _ => Fails.bind (.sign rfl ?_)
  rw [strip_cons solid]
  intro found member
  obtain rfl := Option.some.inj member
  exact closed

theorem mem_signs_of_connector (connector : Connector) : connector.spelling ∈ signs := by
  cases connector <;> decide

/-- A connector that is a part of a longer sign or of a number leaves what no segment begins
with. -/
theorem no_segment_behind {β : Type} (depth : Nat) {spelling : String} {char : Char}
    (stuck : sticks spelling char = true) (part : List Char) (next : Checked Segment → Reader β) :
    (do
      let _ ← blanks
      let segment ← segment depth
      next segment).Fails (char :: part) := by
  have other : ∀ char, sticks spelling char = true → char ≠ '@' ∧ char ≠ '[' := by
    intro char stuck
    constructor
    all_goals
      rintro rfl
      unfold sticks at stuck
      split at stuck <;> cases stuck
  have solid : isBlank char = false :=
    Token.fails_of_excludes Token.not_sticks_of_isBlank stuck
  refine .afterBlanks fun _ => Fails.bind ?_
  rw [strip_cons solid]
  exact segment_fails depth solid (other char stuck).1 (other char stuck).2 part

theorem connector_twins (aligned : Aligned leftover limit limit' source source') :
    Twins connector connector source source' fun found found' rest rest' =>
      found = found' ∧ (Remains leftover source.length source'.length rest rest' ∨
        BothBegin (fun char => sticks found.spelling char = true) rest rest') := by
  refine .rule (.firstOf fun reader listed => ?_)
  obtain ⟨connector, _, rfl⟩ := List.mem_map.mp listed
  refine .map (Twins.mono (.rule (.scan (aligned.cut_sign (mem_signs_of_connector connector)))) ?_)
  exact fun _ _ _ _ holds => ⟨rfl, holds.2⟩

/-- The end is reached in both sources at once, and only if nothing is left over. -/
theorem endOfInput_twins (aligned : Aligned leftover limit limit' source source') :
    Twins endOfInput endOfInput source source' fun _ _ _ _ => leftover = [] := by
  have cuts : CutsBoth (fun source => if source.isEmpty then some ([], []) else none)
      source source' fun _ _ => leftover = [] := by
    by_cases none : source = [] ∨ source' = []
    · obtain ⟨nothing, blank, blank'⟩ := aligned.respaced.of_nil none
      rw [aligned.solid] at blank
      rw [aligned.solid'] at blank'
      rw [blank, blank']
      exact .inr ⟨[], [], [], rfl, rfl, nothing⟩
    · obtain ⟨some, some'⟩ := not_or.mp none
      exact .inl ⟨if_neg (by simpa using some), if_neg (by simpa using some')⟩
  exact .rule ((Twins.scan cuts).mono fun _ _ _ _ holds => holds.2)

theorem joinedSegment_twins (depth depth' : Nat) :
    TwinPieces leftover depth depth' (do
      let connector ← connector
      let _ ← blanks
      let next ← segment depth
      return (connector, next)) (do
      let connector ← connector
      let _ ← blanks
      let next ← segment depth'
      return (connector, next)) (JoinedAlike Segment.unplaced) := by
  intro source source' aligned
  refine (connector_twins aligned).bind fun connector connector' rest rest' holds => ?_
  obtain ⟨rfl, remains | ⟨char, part, part', stuck, rfl, rfl⟩⟩ := holds
  · refine .afterBlanks remains fun inner _ _ => ?_
    have there := inner.within aligned.toRemains
    refine (segment_twins depth depth' there).bind fun value value' rest rest' alike => ?_
    exact .pure ⟨⟨rfl, alike.1⟩, alike.2.within inner.toRemains⟩
  · exact .fails (no_segment_behind depth stuck part _) (no_segment_behind depth' stuck part' _)

/-- Whole sources are read alike, to their ends. -/
theorem writtenSelector_twins {depth depth' : Nat}
    (remains : Remains leftover depth depth' source source') :
    Twins (writtenSelector depth) (writtenSelector depth') source source'
      fun written written' _ _ => leftover = [] ∧
        Checked.Alike Segment.unplaced written.1 written'.1 ∧
        List.Forall₂ (JoinedAlike Segment.unplaced) written.2 written'.2 := by
  refine .rule (.afterBlanks remains fun start _ _ => ?_)
  refine (segment_twins depth depth' start).bind fun first first' rest rest' holds => ?_
  refine .afterBlanks (holds.2.within start.toRemains) fun inner _ _ => ?_
  refine (TwinPieces.many (joinedSegment_twins depth depth') inner).bind
    fun others others' _ _ all => ?_
  refine .afterBlanks all.2 fun last _ _ => (endOfInput_twins last).bind ?_
  exact fun _ _ _ _ nothing => .pure ⟨nothing, holds.1, all.1⟩

end Segments

section Checking

theorem parts_of_unplaced {segment segment' : Segment}
    (same : segment.unplaced = segment'.unplaced) :
    segment.target = segment'.target ∧ segment.window = segment'.window := by
  have target : segment.unplaced.target = segment'.unplaced.target := by rw [same]
  have window : segment.unplaced.window = segment'.unplaced.window := by rw [same]
  exact ⟨target, window⟩

theorem extendChecked_alike (targeted : Bool) {chain chain' : Chain}
    (same : chain.unplaced = chain'.unplaced) {others others' : List (Connector × Checked Segment)}
    (all : List.Forall₂ (JoinedAlike Segment.unplaced) others others') :
    Checked.Alike Chain.unplaced (extendChecked targeted chain others)
      (extendChecked targeted chain' others') := by
  induction all generalizing targeted chain chain' with
  | nil => exact .ok same
  | @cons other other' _ _ first _ hypothesis =>
      obtain ⟨connector, segment⟩ := other
      obtain ⟨connector', segment'⟩ := other'
      obtain ⟨rfl, alike⟩ := first
      rw [extendChecked, extendChecked]
      refine alike.bind fun segment segment' sameSegment => ?_
      rw [(parts_of_unplaced sameSegment).1]
      by_cases second : (targeted && segment'.target) = true
      · rw [if_pos second, if_pos second]
        exact .error
      · rw [if_neg second, if_neg second]
        refine hypothesis _ ?_
        rw [Chain.unplaced, Chain.unplaced, sameSegment, same]

theorem checkedChain_alike {first first' : Checked Segment}
    (alike : Checked.Alike Segment.unplaced first first')
    {others others' : List (Connector × Checked Segment)}
    (all : List.Forall₂ (JoinedAlike Segment.unplaced) others others') :
    Checked.Alike Chain.unplaced (checkedChain first others) (checkedChain first' others') := by
  refine alike.bind fun segment segment' same => ?_
  obtain ⟨marked, window⟩ := parts_of_unplaced same
  rw [marked, window]
  cases segment'.window with
  | some window => exact .error
  | none => exact extendChecked_alike _ (by rw [Chain.unplaced, Chain.unplaced, same]) all

theorem read_twins {leftover : List Char} {source source' : List Char}
    (respaced : Respaced leftover source source') :
    ((Grammar.read source).result = none ∧ (Grammar.read source').result = none) ∨
      ∃ written written' behind behind', (Grammar.read source).result = some (written, behind) ∧
        (Grammar.read source').result = some (written', behind') ∧ leftover = [] ∧
        Checked.Alike Segment.unplaced written.1 written'.1 ∧
        List.Forall₂ (JoinedAlike Segment.unplaced) written.2 written'.2 :=
  writtenSelector_twins ⟨respaced, Nat.lt_succ_self _, Nat.lt_succ_self _⟩ 0 0

/-- Sources that differ in blanks only are both refused, or give the same chain up to spans.
They are refused unless they consist of lexemes to the end. -/
theorem parse_alike {leftover : List Char} {source source' : String}
    (respaced : Respaced leftover source.toList source'.toList) :
    Checked.Alike Chain.unplaced (Chain.parse source) (Chain.parse source') ∧
      ∀ chain, Chain.parse source = .ok chain → leftover = [] := by
  rw [parse_eq, parse_eq]
  rcases read_twins respaced with ⟨none, none'⟩ |
    ⟨written, written', _, _, found, found', nothing, alike, all⟩
  · rw [none, none']
    exact ⟨.error, nofun⟩
  · rw [found, found']
    exact ⟨checkedChain_alike alike all, fun _ _ => nothing⟩

end Checking

/-- An accepted source consists of lexemes, and blanks between them make no difference: whatever
has the same lexemes, with blanks at least where there are some, is the same selector with the
same target. -/
theorem parse_respaced {source : String} {chain : Chain} (parsed : Chain.parse source = .ok chain) :
    Respaced [] source.toList source.toList ∧
      ∀ source' : String, Respaced [] source.toList source'.toList →
        ∃ chain', Chain.parse source' = .ok chain' ∧ chain'.unplaced = chain.unplaced ∧
          chain'.targetIndex = chain.targetIndex := by
  constructor
  · obtain ⟨leftover, respaced⟩ := exists_respaced source.toList
    obtain rfl := (parse_alike respaced).2 chain parsed
    exact respaced
  · intro source' respaced
    have alike := (parse_alike respaced).1
    rw [parsed] at alike
    cases read : Chain.parse source' with
    | error => rw [read] at alike; cases alike
    | ok chain' =>
        rw [read] at alike
        cases alike with
        | ok same =>
            refine ⟨chain', rfl, same.symm, ?_⟩
            exact Chain.eq_of_unplaced Chain.targetIndex_unplaced same.symm

/-- A source with as few blanks as there can be: a word behind a number, and a sign in front of
another one and in a string. -/
def tightSource : String := "@[1<-1or id='<']"

/-- The same lexemes with blanks around most of them. -/
def airySource : String := " @ [1 <\n-1 or\t\r\nid= '<'] "

theorem respaced_airySource : Respaced [] tightSource.toList airySource.toList := by
  have step : ∀ (gap gap' token : List Char) {source source' : List Char}, Regapped gap gap' →
      Token.lexeme (token ++ source) = some (token, source) → Respaced [] source source' →
      Respaced [] (gap ++ (token ++ source)) (gap' ++ (token ++ source')) :=
    fun _ _ _ _ _ => .token
  exact step [] [' '] ['@'] (by decide) rfl <| step [] [' '] ['['] (by decide) rfl <|
    step [] [] ['1'] (by decide) rfl <| step [] [' '] ['<'] (by decide) rfl <|
    step [] ['\n'] ['-', '1'] (by decide) rfl <| step [] [' '] ['o', 'r'] (by decide) rfl <|
    step [' '] ['\t', '\r', '\n'] ['i', 'd'] (by decide) rfl <| step [] [] ['='] (by decide) rfl <|
    step [] [' '] ['\'', '<', '\''] (by decide) rfl <| step [] [] [']'] (by decide) rfl <|
    @Respaced.ended [] [] [' '] (by decide) rfl rfl

theorem parse_airySource : ∃ chain, Chain.parse tightSource = .ok chain ∧
    Respaced [] tightSource.toList tightSource.toList ∧
      ∃ chain', Chain.parse airySource = .ok chain' ∧ chain'.unplaced = chain.unplaced ∧
        chain'.targetIndex = chain.targetIndex := by
  have accepted : (Chain.parse tightSource).toBool = true := by decide +kernel
  cases parsed : Chain.parse tightSource with
  | error error =>
      rw [parsed] at accepted
      cases accepted
  | ok chain =>
      obtain ⟨whole, others⟩ := parse_respaced parsed
      exact ⟨chain, rfl, whole, others airySource respaced_airySource⟩

end TreeSelector.Grammar
