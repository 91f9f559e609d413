import TreeSelector.Proofs.Grammar.Respacing

/-!
# Reading two sources alike

Two readers are twins at two sources if they either both fail there or both succeed, with values
and remainders that are related as described.  Each way to build readers has its rule.  Where
the sources differ in blanks only, readers of tokens are twins of themselves, and repetitions
take the same number of pieces from both.
-/

namespace TreeSelector.Grammar

open Token (IsLexical signs plainSigns sticks)

namespace Reader

variable {α β : Type}

/-- At whatever offsets the sources stand, reading either fails in both, or succeeds in both
with values and remainders as described. -/
def Twins (reader reader' : Reader α) (source source' : List Char)
    (post : α → α → List Char → List Char → Prop) : Prop :=
  ∀ offset offset',
    ((reader ⟨offset, source⟩).result = none ∧ (reader' ⟨offset', source'⟩).result = none) ∨
      ∃ value value' behind behind', (reader ⟨offset, source⟩).result = some (value, behind) ∧
        (reader' ⟨offset', source'⟩).result = some (value', behind') ∧
        post value value' behind.rest behind'.rest

section Rules

variable {reader reader' : Reader α} {source source' : List Char}
  {post : α → α → List Char → List Char → Prop}

theorem Twins.mono {post' : α → α → List Char → List Char → Prop}
    (twins : Twins reader reader' source source' post)
    (weaker : ∀ value value' rest rest', post value value' rest rest' →
      post' value value' rest rest') : Twins reader reader' source source' post' := by
  intro offset offset'
  rcases twins offset offset' with none | ⟨value, value', behind, behind', found, found', holds⟩
  · exact .inl none
  · exact .inr ⟨value, value', behind, behind', found, found', weaker _ _ _ _ holds⟩

theorem Twins.fails (fails : reader.Fails source) (fails' : reader'.Fails source') :
    Twins reader reader' source source' post :=
  fun offset offset' => .inl ⟨fails offset, fails' offset'⟩

theorem Twins.pure {value value' : α} (holds : post value value' source source') :
    Twins (Pure.pure value) (Pure.pure value') source source' post :=
  fun offset offset' => .inr ⟨value, value', ⟨offset, source⟩, ⟨offset', source'⟩, rfl, rfl, holds⟩

theorem Twins.bind {next next' : α → Reader β} {final : β → β → List Char → List Char → Prop}
    (first : Twins reader reader' source source' post)
    (second : ∀ value value' rest rest', post value value' rest rest' →
      Twins (next value) (next' value') rest rest' final) :
    Twins (reader >>= next) (reader' >>= next') source source' final := by
  intro offset offset'
  rw [result_bind, result_bind]
  rcases first offset offset' with ⟨none, none'⟩ |
    ⟨value, value', ⟨offset₁, rest⟩, ⟨offset₂, rest'⟩, found, found', holds⟩
  · rw [none, none']
    exact .inl ⟨rfl, rfl⟩
  · rw [found, found']
    exact second value value' rest rest' holds offset₁ offset₂

theorem Twins.map {change change' : α → β} {final : β → β → List Char → List Char → Prop}
    (twins : Twins reader reader' source source' fun value value' =>
      final (change value) (change' value')) :
    Twins (change <$> reader) (change' <$> reader') source source' final :=
  twins.bind fun _ _ _ _ holds => .pure holds

theorem Twins.orElse {second second' : Reader α}
    (twins : Twins reader reader' source source' post)
    (others : Twins second second' source source' post) :
    Twins (reader.orElse second) (reader'.orElse second') source source' post := by
  intro offset offset'
  rw [result_orElse, result_orElse]
  rcases twins offset offset' with ⟨none, none'⟩ |
    ⟨value, value', behind, behind', found, found', holds⟩
  · rw [none, none']
    exact others offset offset'
  · rw [found, found']
    exact .inr ⟨value, value', behind, behind', rfl, rfl, holds⟩

theorem Twins.firstOf {readers : List (Reader α)}
    (all : ∀ reader ∈ readers, Twins reader reader source source' post) :
    Twins (Reader.firstOf readers) (Reader.firstOf readers) source source' post := by
  fun_induction Reader.firstOf readers with
  | case1 => exact .fails (fun _ => rfl) (fun _ => rfl)
  | case2 reader => exact all reader List.mem_cons_self
  | case3 reader readers some hypothesis =>
      obtain ⟨first, others⟩ := List.forall_mem_cons.mp all
      exact .orElse first (hypothesis others)

theorem Twins.rule {name : Rule} (twins : Twins reader reader' source source' post) :
    Twins (rule name reader) (rule name reader') source source' post := by
  intro offset offset'
  rw [result_rule, result_rule]
  exact twins offset offset'

/-- What is noted about the piece that is read makes no difference to the reading. -/
theorem Twins.noted {γ : Type} {wide wide' : Reader (α × γ)} {note : Cursor → α × Cursor → γ}
    (result : ∀ cursor, (wide cursor).result =
      (reader cursor).result.map fun found => ((found.1, note cursor found), found.2))
    (result' : ∀ cursor, (wide' cursor).result =
      (reader' cursor).result.map fun found => ((found.1, note cursor found), found.2))
    (twins : Twins reader reader' source source' post) :
    Twins wide wide' source source' fun found found' => post found.1 found'.1 := by
  intro offset offset'
  rw [result, result']
  rcases twins offset offset' with ⟨none, none'⟩ |
    ⟨value, value', behind, behind', found, found', holds⟩
  · rw [none, none']
    exact .inl ⟨rfl, rfl⟩
  · rw [found, found']
    exact .inr ⟨_, _, behind, behind', rfl, rfl, holds⟩

/-- A piece is read from both sources under the name of a rule, and reading goes on with the
spans. -/
theorem Twins.placed {name : Rule} {next next' : α × Span → Reader β}
    {final : β → β → List Char → List Char → Prop}
    (twins : Twins reader reader' source source' post)
    (second : ∀ value value' span span' rest rest', post value value' rest rest' →
      Twins (next (value, span)) (next' (value', span')) rest rest' final) :
    Twins (Reader.placed (Reader.rule name reader) >>= next)
      (Reader.placed (Reader.rule name reader') >>= next') source source' final :=
  (Twins.noted (result_placed _) (result_placed _) twins.rule).bind
    fun found found' => second found.1 found'.1 found.2 found'.2

theorem Twins.optional {final : Option α → Option α → List Char → List Char → Prop}
    (twins : Twins reader reader' source source' fun value value' =>
      final (some value) (some value'))
    (absent : final none none source source') :
    Twins (Reader.optional reader) (Reader.optional reader') source source' final :=
  .orElse twins.map (.pure absent)

theorem Twins.scan {scanner : Scanner} {leaves : List Char → List Char → Prop}
    (cuts : CutsBoth scanner source source' leaves) :
    Twins (Reader.scan scanner) (Reader.scan scanner) source source'
      fun lexeme lexeme' rest rest' => lexeme.text = lexeme'.text ∧ leaves rest rest' := by
  intro offset offset'
  rw [result_scan, result_scan]
  rcases cuts with ⟨none, none'⟩ | ⟨token, rest, rest', cut, cut', holds⟩
  · exact .inl ⟨by rw [none]; rfl, by rw [none']; rfl⟩
  · rw [cut, cut']
    exact .inr ⟨_, _, _, _, rfl, rfl, rfl, holds⟩

end Rules

section Tokens

variable {leftover source source' : List Char} {limit limit' : Nat}

/-- A lexeme is read from both sources, and the same one. -/
theorem Twins.token {name : Rule} {scanner : Scanner}
    (aligned : Aligned leftover limit limit' source source') (lexical : IsLexical scanner) :
    Twins (Reader.token name scanner) (Reader.token name scanner) source source'
      fun lexeme lexeme' rest rest' => lexeme.text = lexeme'.text ∧
        Remains leftover source.length source'.length rest rest' :=
  .rule (.scan (aligned.cut_lexical lexical))

/-- A sign is read from both sources, and reading goes on behind it. -/
theorem Twins.afterSign {spelling : String} {next next' : Lexeme → Reader β}
    {final : β → β → List Char → List Char → Prop}
    (aligned : Aligned leftover limit limit' source source') (plain : spelling ∈ plainSigns)
    (second : ∀ {rest rest'}, Remains leftover source.length source'.length rest rest' →
      ∀ lexeme lexeme', Twins (next lexeme) (next' lexeme') rest rest' final) :
    Twins (literal spelling >>= next) (literal spelling >>= next') source source' final :=
  Twins.bind (.scan (aligned.cut_lexical (Token.isLexical_exactly plain)))
    fun lexeme lexeme' _ _ holds => second holds.2 lexeme lexeme'

/-- Blanks are skipped in both sources, and reading goes on behind them. -/
theorem Twins.afterBlanks {next next' : Lexeme → Reader β}
    {final : β → β → List Char → List Char → Prop}
    (remains : Remains leftover limit limit' source source')
    (second : Aligned leftover limit limit' (strip source) (strip source') →
      ∀ lexeme lexeme', Twins (next lexeme) (next' lexeme') (strip source) (strip source') final) :
    Twins (blanks >>= next) (blanks >>= next') source source' final := by
  have skipped : Twins blanks blanks source source' fun _ _ rest rest' =>
      rest = strip source ∧ rest' = strip source' := by
    intro offset offset'
    exact .inr ⟨_, _, _, _, rfl, rfl, rfl, rfl⟩
  refine skipped.bind fun lexeme lexeme' rest rest' here => ?_
  rw [here.1, here.2]
  exact second remains.strip lexeme lexeme'

end Tokens

section Repetition

variable {leftover : List Char} {limit limit' : Nat} {reader reader' : Reader α}
  {alike : α → α → Prop}

/-- Wherever both sources are aligned, the readers read a piece of both, and some of each. -/
def TwinPieces (leftover : List Char) (limit limit' : Nat) (reader reader' : Reader α)
    (alike : α → α → Prop) : Prop :=
  ∀ {source source'}, Aligned leftover limit limit' source source' →
    Twins reader reader' source source' fun value value' rest rest' =>
      alike value value' ∧ Remains leftover source.length source'.length rest rest'

theorem TwinPieces.upTo (pieces : TwinPieces leftover limit limit' reader reader' alike)
    {most most' : Nat} {source source' : List Char}
    (remains : Remains leftover limit limit' source source')
    (enough : source.length < most) (enough' : source'.length < most') :
    Twins (Reader.upTo most (blanks *> reader)) (Reader.upTo most' (blanks *> reader'))
      source source' fun values values' rest rest' =>
        List.Forall₂ alike values values' ∧ Remains leftover limit limit' rest rest' := by
  -- every piece takes something, so neither of the bounds is ever reached
  induction most generalizing most' source source' with
  | zero => exact absurd enough (Nat.not_lt_zero _)
  | succ most hypothesis =>
      cases most' with
      | zero => exact absurd enough' (Nat.not_lt_zero _)
      | succ most' =>
          have piece : Twins (blanks *> reader) (blanks *> reader') source source'
              fun value value' rest rest' => alike value value' ∧
                Remains leftover source.length source'.length rest rest' := by
            refine .afterBlanks remains fun aligned _ _ => (pieces aligned).mono ?_
            exact fun _ _ _ _ holds => ⟨holds.1, holds.2.mono (length_strip_le source)
              (length_strip_le source')⟩
          refine .orElse (piece.bind fun value value' rest rest' holds => ?_)
            (.pure ⟨.nil, remains⟩)
          have shorter := holds.2.below
          have shorter' := holds.2.below'
          refine (hypothesis (holds.2.within remains) (by omega) (by omega)).bind ?_
          exact fun values values' rest rest' others =>
            .pure ⟨.cons holds.1 others.1, others.2⟩

/-- As many pieces are read from one source as from the other. -/
theorem TwinPieces.many (pieces : TwinPieces leftover limit limit' reader reader' alike)
    {source source' : List Char} (aligned : Aligned leftover limit limit' source source') :
    Twins (Reader.many reader) (Reader.many reader') source source' fun values values' rest rest' =>
      List.Forall₂ alike values values' ∧ Remains leftover limit limit' rest rest' := by
  have unfolded : Twins ((do
        let value ← reader
        let values ← Reader.upTo source.length (Reader.blanks *> reader)
        return value :: values).orElse (succeed []))
      ((do
        let value ← reader'
        let values ← Reader.upTo source'.length (Reader.blanks *> reader')
        return value :: values).orElse (succeed [])) source source'
      (fun values values' rest rest' =>
        List.Forall₂ alike values values' ∧ Remains leftover limit limit' rest rest') := by
    refine .orElse ((pieces aligned).bind fun value value' rest rest' holds => ?_)
      (.pure ⟨.nil, aligned.toRemains⟩)
    refine (pieces.upTo (holds.2.within aligned.toRemains) holds.2.below holds.2.below').bind ?_
    exact fun values values' rest rest' others => .pure ⟨.cons holds.1 others.1, others.2⟩
  exact fun offset offset' => unfolded offset offset'

end Repetition

end Reader

end TreeSelector.Grammar
