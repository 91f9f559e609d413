import TreeSelector.Proofs.Grammar.Steady

/-!
# Steady repetitions and tokens

A repetition is a run of pieces, each read where the one before it ends.  If its pieces are
steady then so is the whole run, and so is a run with one more piece, of which only a part has
been read.
-/

namespace TreeSelector.Grammar

open Token (Follows IsLexical lexeme)

namespace Reader

variable {α β ι : Type}

/-- From one place to another, pieces are read one after the other, with blanks in front of
each. -/
inductive Run (reader : Reader α) : Cursor → List α → Cursor → Prop
  | done (cursor : Cursor) : Run reader cursor [] cursor
  | piece {cursor start behind last : Cursor} {gap : Lexeme} {value : α} {values : List α}
      (skipped : (blanks cursor).result = some (gap, start))
      (read : (reader start).result = some (value, behind)) (onward : Run reader behind values last) :
      Run reader cursor (value :: values) last

section Runs

variable {reader : Reader α}

theorem run_upTo {limit : Nat} {cursor last : Cursor} {values : List α}
    (success : (upTo limit (blanks *> reader) cursor).result = some (values, last)) :
    Run reader cursor values last := by
  induction limit generalizing cursor values with
  | zero =>
      obtain ⟨rfl, rfl⟩ := Prod.mk.inj (Option.some.inj success)
      exact .done cursor
  | succ limit hypothesis =>
      rw [upTo, result_orElse] at success
      rcases Option.or_eq_some_iff.mp success with more | ⟨_, none⟩
      · obtain ⟨value, behind, first, onward⟩ := run_bind more
        obtain ⟨gap, start, skipped, read⟩ := run_bind first
        obtain ⟨values', last', others, made⟩ := run_bind onward
        obtain ⟨rfl, rfl⟩ := Prod.mk.inj (Option.some.inj made)
        exact .piece skipped read (hypothesis others)
      · obtain ⟨rfl, rfl⟩ := Prod.mk.inj (Option.some.inj none)
        exact .done cursor

/-- A failed attempt of a repetition is one of the piece that would have been the next. -/
theorem mem_offsets_upTo {limit : Nat} {cursor : Cursor} {offset : Nat}
    (traced : offset ∈ (upTo limit (blanks *> reader) cursor).trace.offsets) :
    ∃ values behind gap start, Run reader cursor values behind ∧
      (blanks behind).result = some (gap, start) ∧ offset ∈ (reader start).trace.offsets := by
  induction limit generalizing cursor with
  | zero => cases traced
  | succ limit hypothesis =>
      rcases mem_offsets_orElse traced with more | nowhere
      · rcases mem_offsets_bind more with first | ⟨value, behind, first, onward⟩
        · rcases mem_offsets_bind first with nowhere | ⟨gap, start, skipped, here⟩
          · cases nowhere
          · exact ⟨[], cursor, gap, start, .done cursor, skipped, here⟩
        · obtain ⟨gap, start, skipped, read⟩ := run_bind first
          rcases mem_offsets_bind onward with there | ⟨_, _, _, nowhere⟩
          · obtain ⟨values, behind', gap', start', run, skipped', here⟩ := hypothesis there
            exact ⟨_, behind', gap', start', .piece skipped read run, skipped', here⟩
          · cases nowhere
      · cases nowhere

theorem blanks_of_solid {cursor : Cursor} (solid : strip cursor.rest = cursor.rest) :
    ∃ gap, (blanks cursor).result = some (gap, cursor) := by
  have none : cursor.rest.takeWhile isBlank = [] := by
    have whole := List.takeWhile_append_dropWhile (p := isBlank) (l := cursor.rest)
    rw [show cursor.rest.dropWhile isBlank = cursor.rest from solid] at whole
    exact List.append_cancel_right (whole.trans (List.nil_append _).symm)
  refine ⟨⟨[], cursor.offset, cursor.offset⟩, ?_⟩
  obtain ⟨offset, source⟩ := cursor
  unfold blanks
  rw [result_scan]
  dsimp only at none solid ⊢
  rw [Option.map_some, none, show source.dropWhile isBlank = source from solid]
  rfl

/-- Behind blanks a repetition is a run with no more in front of it. -/
theorem result_many {cursor : Cursor} (solid : strip cursor.rest = cursor.rest) :
    (many reader cursor).result =
      (upTo (cursor.rest.length + 1) (blanks *> reader) cursor).result := by
  obtain ⟨gap, skipped⟩ := blanks_of_solid solid
  have first : ((blanks *> reader) cursor).result = (reader cursor).result :=
    (result_bind blanks (fun _ => reader) cursor).trans (by rw [skipped]; rfl)
  rw [many, upTo, result_orElse, result_orElse, result_bind, result_bind, first]

theorem mem_offsets_many {cursor : Cursor} (solid : strip cursor.rest = cursor.rest) {offset : Nat}
    (traced : offset ∈ (many reader cursor).trace.offsets) :
    ∃ values behind gap start, Run reader cursor values behind ∧
      (blanks behind).result = some (gap, start) ∧ offset ∈ (reader start).trace.offsets := by
  obtain ⟨gap, skipped⟩ := blanks_of_solid solid
  rcases mem_offsets_orElse traced with more | nowhere
  · rcases mem_offsets_bind more with first | ⟨value, behind, read, onward⟩
    · exact ⟨[], cursor, gap, cursor, .done cursor, skipped, first⟩
    · rcases mem_offsets_bind onward with there | ⟨_, _, _, nowhere⟩
      · obtain ⟨values, behind', gap', start', run, skipped', here⟩ := mem_offsets_upTo there
        exact ⟨_, behind', gap', start', .piece skipped read run, skipped', here⟩
      · cases nowhere
  · cases nowhere

theorem run_many {cursor last : Cursor} {values : List α} (solid : strip cursor.rest = cursor.rest)
    (success : (many reader cursor).result = some (values, last)) :
    Run reader cursor values last :=
  run_upTo ((result_many solid).symm.trans success)

theorem many_reads {source : List Char} {post : List α → List Char → Prop}
    (solid : strip source = source)
    (reads : ∀ most, source.length < most → (upTo most (blanks *> reader)).Reads source post) :
    (many reader).Reads source post := by
  intro offset
  rw [@result_many _ _ ⟨offset, source⟩ solid]
  exact reads (source.length + 1) (Nat.lt_succ_self _) offset

end Runs

section Repetition

variable {reader : Reader α} {twins : ι → Reader β} {deep : ι → Nat}
  {opens ends : Option Char → Prop} {alike : ι → α → β → Prop}

/-- No further piece is read where none begins. -/
theorem upTo_stops (closed : Closed twins opens) (i : ι) {source : List Char}
    (stops : ¬ opens (ahead source)) {post : List β → List Char → Prop} (holds : post [] source)
    (most : Nat) : (upTo most (blanks *> twins i)).Reads source post := by
  cases most with
  | zero => exact .pure holds
  | succ most =>
      have fails : (twins i).Fails (strip source) := closed i _ stops
      exact .right (Fails.bind (Fails.afterBlanks fun _ => fails)) (.pure holds)

/-- One piece is read where there is no other one behind it. -/
theorem upTo_single (closed : Closed twins opens) {i : ι} {text rest source : List Char}
    (reads : (twins i).Reads (strip text) fun _ rest' => strip rest' = strip rest)
    (stops : ¬ opens (ahead rest)) (same : strip source = strip text) {most : Nat}
    (positive : 0 < most) :
    (upTo most (blanks *> twins i)).Reads source fun _ rest' => strip rest' = strip rest := by
  obtain ⟨most, rfl⟩ := Nat.exists_eq_add_one.mpr positive
  have first : (blanks *> twins i).Reads source fun _ rest' => strip rest' = strip rest :=
    Reads.afterBlanks fun _ => by rwa [same]
  refine .left (first.bind fun value rest' skips => ?_)
  have onward : (upTo most (blanks *> twins i)).Reads rest' fun _ rest'' =>
      strip rest'' = strip rest :=
    upTo_stops closed i (by rwa [ahead, skips]) skips most
  exact onward.bind fun _ _ holds => .pure holds

/-- What further pieces there are begins like a piece, and so the one in front of them can end. -/
theorem ends_of_pieces (continues : ∀ found, opens found → ends found) {taken rest : List Char}
    (opening : ahead taken = none ∨ opens (ahead taken))
    (ending : ends (ahead rest)) : ends (ahead (taken ++ rest)) := by
  rw [ahead_append]
  cases shape : ahead taken with
  | none => exact ending
  | some char =>
      rw [shape] at opening
      exact continues _ (opening.resolve_left nofun)

/-- In front of whatever else is read as pieces, pieces alike are read. -/
def Repeats (twins : ι → Reader β) (alike : ι → α → β → Prop) (i : ι) (values : List α)
    (taken rest : List Char) : Prop :=
  ∀ post : List β → List Char → Prop,
    (∀ source most, Skips rest source → source.length < most →
      (upTo most (blanks *> twins i)).Reads source post) →
    ∀ source most, Skips (taken ++ rest) source → source.length < most →
      (upTo most (blanks *> twins i)).Reads source fun found rest' =>
        ∃ front back, found = front ++ back ∧ List.Forall₂ (alike i) values front ∧ post back rest'

theorem Repeats.nil (i : ι) (rest : List Char) : Repeats twins alike i [] [] rest :=
  fun _ onward source most skips enough => (onward source most skips enough).mono
    fun back _ holds => ⟨[], back, rfl, .nil, holds⟩

/-- With one more piece in front there is one more to read. -/
theorem Repeats.cons {i : ι} {value : α} {values : List α} {gap taken others rest : List Char}
    (blank : ∀ char ∈ gap, isBlank char = true) (begins : taken ≠ [])
    (solid : strip (taken ++ (others ++ rest)) = taken ++ (others ++ rest))
    (piece : (twins i).Reads (taken ++ (others ++ rest)) fun value' rest' =>
      alike i value value' ∧ Skips (others ++ rest) rest')
    (onward : Repeats twins alike i values others rest) :
    Repeats twins alike i (value :: values) (gap ++ (taken ++ others)) rest := by
  intro post behind source most skips enough
  have same : strip source = taken ++ (others ++ rest) := by
    rw [skips.strip, List.append_assoc, strip_blank_append blank, List.append_assoc, solid]
  have inside : (strip source).length ≤ source.length := length_strip_le source
  have positive := List.length_pos_iff.mpr begins
  rw [same, List.length_append] at inside
  cases most with
  | zero => exact absurd enough (Nat.not_lt_zero _)
  | succ most =>
      have first : (blanks *> twins i).Reads source fun value' rest' =>
          alike i value value' ∧ Skips (others ++ rest) rest' :=
        Reads.afterBlanks fun _ => by rwa [same]
      refine .left (first.bind fun value' rest' holds => ?_)
      have shorter := holds.2.length_le
      refine (onward post behind rest' most holds.2 (by omega)).bind ?_
      rintro found rest'' ⟨front, back, rfl, others, last⟩
      exact .pure ⟨value' :: front, back, rfl, .cons holds.1 others, last⟩

/-- A run of pieces is read again, with other pieces behind it. -/
theorem Run.again (steady : Steady reader twins deep opens ends alike) (some : ¬ opens none)
    (continues : ∀ found, opens found → ends found) {cursor last : Cursor} {values : List α}
    (run : Run reader cursor values last) :
    ∃ taken, cursor.Takes taken last ∧ (ahead taken = none ∨ opens (ahead taken)) ∧
      ∀ i rest, (taken ≠ [] → Follows last.rest rest ∧ ends (ahead rest)) →
        (taken ++ rest).length < deep i → Repeats twins alike i values taken rest := by
  induction run with
  | done cursor => exact ⟨[], .refl cursor, .inl rfl, fun i rest _ _ => .nil i rest⟩
  | @piece cursor start behind last gap value values skipped read _ hypothesis =>
      obtain ⟨blank, takesGap, stripped⟩ := run_blanks skipped
      obtain ⟨taken, takes, opening, twin⟩ := steady.again (by rw [stripped, strip_strip]) read
      obtain ⟨others, takesOthers, opening', again⟩ := hypothesis
      have begins : taken ≠ [] := by
        rintro rfl
        exact some opening
      have solid : strip (taken ++ behind.rest) = taken ++ behind.rest := by
        rw [← takes.rest, stripped, strip_strip]
      refine ⟨gap.text ++ (taken ++ others), takesGap.trans (takes.trans takesOthers), ?_, ?_⟩
      · rw [ahead_blank_append blank, ahead_append]
        cases shape : ahead taken with
        | none => exact absurd (shape ▸ opening) some
        | some char => exact .inr (by rwa [shape] at opening)
      · intro i rest resumes deeper
        obtain ⟨follows, ending⟩ := resumes (by simp [begins])
        have there : Resumes taken behind.rest (others ++ rest) :=
          ⟨fun _ => takesOthers.rest ▸ follows.append others, fun none => absurd none begins⟩
        simp only [List.append_assoc, List.length_append] at deeper
        refine .cons blank begins (strip_append_of_solid solid begins _) ?_ ?_
        · refine twin i (others ++ rest) there (ends_of_pieces continues opening' ending) ?_
          simp only [List.length_append]
          omega
        · refine again i rest (fun _ => ⟨follows, ending⟩) ?_
          rw [List.length_append]
          omega

/-- A run is read again by itself. -/
theorem Run.alone (steady : Steady reader twins deep opens ends alike)
    (closed : Closed twins opens) (some : ¬ opens none)
    (continues : ∀ found, opens found → ends found) (ending : ends none) {cursor last : Cursor}
    {values : List α} (solid : strip cursor.rest = cursor.rest)
    (run : Run reader cursor values last) :
    ∃ taken, cursor.Takes taken last ∧ strip taken = taken ∧ ∀ i, taken.length < deep i →
      (many (twins i)).Reads taken fun found rest =>
        List.Forall₂ (alike i) values found ∧ rest = [] := by
  obtain ⟨taken, takes, _, again⟩ := run.again steady some continues
  have solid' := strip_of_solid (takes.rest ▸ solid)
  refine ⟨taken, takes, solid', fun i deeper => many_reads solid' fun most enough => ?_⟩
  have stops : ∀ source most, Skips [] source → source.length < most →
      (upTo most (blanks *> twins i)).Reads source fun found rest => found = [] ∧ rest = [] :=
    fun source most skips _ => upTo_stops closed i (skips.ahead ▸ some) ⟨rfl, skips.of_nil⟩ most
  have reads := again i [] (fun _ => ⟨nofun, ending⟩) (by rwa [List.append_nil]) _ stops taken
    most (by rw [List.append_nil]; exact .refl taken) enough
  refine reads.mono fun found rest ⟨front, back, same, alike, nothing, ended⟩ => ?_
  rw [same, nothing, List.append_nil]
  exact ⟨alike, ended⟩

/-- Behind a run that was read before, whatever completes one more piece completes the run. -/
theorem Completable.piece (steady : Steady reader twins deep opens ends alike)
    (closed : Closed twins opens) (some : ¬ opens none)
    (continues : ∀ found, opens found → ends found) {cursor behind : Cursor} {values : List α}
    (run : Run reader cursor values behind) {gap begun rest : List Char}
    (blank : ∀ char ∈ gap, isBlank char = true)
    (split : behind.rest = gap ++ (begun ++ rest))
    (completable : Completable twins deep opens ends begun) :
    ∃ taken, cursor.Takes taken behind ∧
      Completable (fun i => many (twins i)) deep (fun found => found = none ∨ opens found)
        (fun found => ends found ∧ ¬ opens found) (taken ++ (gap ++ begun)) := by
  obtain ⟨taken, takes, opening, again⟩ := run.again steady some continues
  obtain ⟨more, opening', reads⟩ := completable
  refine ⟨taken, takes, more, ?_, fun i rest' ending bound => ?_⟩
  · have either : ahead (begun ++ ' ' :: more) = none ∨ opens (ahead (begun ++ ' ' :: more)) :=
      .inr opening'
    rw [List.append_assoc, ahead_append]
    cases shape : ahead taken with
    | none => rwa [List.append_assoc, ahead_blank_append blank]
    | some char => rwa [shape] at opening
  · simp only [List.append_assoc] at bound ⊢
    have start : ahead (gap ++ (begun ++ ' ' :: (more ++ ' ' :: rest'))) =
        ahead (begun ++ ' ' :: more) := by
      rw [ahead_blank_append blank, ← List.cons_append, ← List.append_assoc, ahead_append]
      cases shape : ahead (begun ++ ' ' :: more) with
      | none => exact absurd (shape ▸ opening') some
      | some char => rfl
    have follows : Follows behind.rest (gap ++ (begun ++ ' ' :: (more ++ ' ' :: rest'))) := by
      rw [split]
      exact ((follows_space _ _).append begun).append gap
    simp only [List.length_append, List.length_cons] at bound
    have piece := reads i rest' ending.1 (by simp only [List.length_append, List.length_cons]; omega)
    refine many_reads (strip_strip _) fun most enough => ?_
    have row := again i _ (fun _ => ⟨follows, start ▸ continues _ opening'⟩)
      (by simp only [List.length_append, List.length_cons]; omega) _
      (fun source most skips enough => upTo_single closed piece ending.2
        (skips.strip.trans (strip_blank_append blank _)) (Nat.zero_lt_of_lt enough))
      _ most (skips_strip _) enough
    exact row.mono fun _ _ ⟨_, _, _, _, holds⟩ => holds

/-- As many pieces are read as there are, if what comes behind begins in another way. -/
theorem Steady.many (steady : Steady reader twins deep opens ends alike)
    (closed : Closed twins opens) (some : ¬ opens none)
    (continues : ∀ found, opens found → ends found) :
    Steady (many reader) (fun i => Reader.many (twins i)) deep
      (fun found => found = none ∨ opens found) (fun found => ends found ∧ ¬ opens found)
      fun i => List.Forall₂ (alike i) where
  again := by
    intro cursor values last solid success
    obtain ⟨taken, takes, opening, again⟩ :=
      (run_many solid success).again steady some continues
    refine ⟨taken, takes, opening, fun i rest resumes ending bound => ?_⟩
    have solid' : strip (taken ++ rest) = taken ++ rest := by
      by_cases none : taken = []
      · rw [none]
        exact resumes.solid none
      · exact strip_append_of_solid (takes.rest ▸ solid) none rest
    refine many_reads solid' fun most enough => ?_
    have stops : ∀ source most, Skips rest source → source.length < most →
        (upTo most (blanks *> twins i)).Reads source fun found rest' =>
          found = [] ∧ Skips rest rest' :=
      fun source most skips _ =>
        upTo_stops closed i (skips.ahead ▸ ending.2) ⟨rfl, skips⟩ most
    have row := again i rest (fun begins => ⟨resumes.follows begins, ending.1⟩) bound _ stops _
      most (.refl _) enough
    refine row.mono fun found rest' ⟨front, back, same, alike', nothing, skips⟩ => ?_
    rw [same, nothing, List.append_nil]
    exact ⟨alike', skips⟩
  viable := by
    intro cursor solid offset traced
    obtain ⟨values, behind, gap, start, run, skipped, here⟩ := mem_offsets_many solid traced
    obtain ⟨blank, takesGap, stripped⟩ := run_blanks skipped
    obtain ⟨begun, rest, split, place, completable⟩ :=
      steady.viable (by rw [stripped, strip_strip]) offset here
    obtain ⟨taken, takes, completed⟩ := completable.piece steady closed some continues run
      blank (split ▸ takesGap.rest)
    obtain ⟨whole, there⟩ := (takes.trans takesGap).extend split place
    rw [List.append_assoc taken] at whole there
    exact ⟨_, rest, whole, there, completed⟩
  sample := by
    refine ⟨[], .inl rfl, fun i rest ending _ => ?_⟩
    have nothing : strip ([] ++ ' ' :: ([] ++ ' ' :: rest)) = strip rest := by simp
    rw [nothing]
    refine many_reads (strip_strip rest) fun most _ => ?_
    exact upTo_stops closed i (by rw [ahead_strip]; exact ending.2) (strip_strip rest) most

end Repetition

section Tokens

variable {scanner : Scanner} {deep : ι → Nat} {opens ends : Option Char → Prop}

/-- What the scanner cuts off begins as `opens` says, and it is cut off again in front of what
begins as `ends` says. -/
structure Cuts (scanner : Scanner) (opens ends : Option Char → Prop) : Prop where
  split : ∀ {source taken rest}, scanner source = some (taken, rest) →
    source = taken ++ rest ∧ opens taken.head?
  again : ∀ {taken rest rest'}, scanner (taken ++ rest) = some (taken, rest) →
    Resumes taken rest rest' → ends (ahead rest') → scanner (taken ++ rest') = some (taken, rest')

/-- A lexical scanner cuts off a lexeme, and does so again if blanks come behind it or what was
behind it still is. -/
theorem cuts_of_lexical (lexical : IsLexical scanner)
    (begins : ∀ {source taken rest}, scanner source = some (taken, rest) → opens taken.head?) :
    Cuts scanner opens fun _ => True := by
  obtain ⟨keeps, equation⟩ := lexical
  refine ⟨fun cut => ⟨?_, begins cut⟩, fun cut resumes _ => ?_⟩
  · rw [equation] at cut
    exact (Token.lexeme_eq_some (Option.filter_eq_some_iff.mp cut).1).1
  · rw [equation] at cut ⊢
    obtain ⟨found, kept⟩ := Option.filter_eq_some_iff.mp cut
    obtain ⟨_, char, part, rfl, _⟩ := Token.lexeme_eq_some found
    have follows := resumes.follows (List.cons_ne_nil char part)
    rw [Token.lexeme_steady follows found, Option.filter_some, if_pos kept]

/-- A token is steady as far as its scanner is. -/
theorem Steady.scan (cuts : Cuts scanner opens ends) {sample : List Char}
    (solid : strip sample = sample) (cut : scanner sample = some (sample, [])) :
    Steady (scan scanner) (fun _ : ι => Reader.scan scanner) deep opens ends
      fun _ lexeme lexeme' => lexeme.text = lexeme'.text where
  again := by
    intro cursor lexeme behind whole success
    rw [result_scan] at success
    obtain ⟨⟨taken, rest⟩, cut, same⟩ := Option.map_eq_some_iff.mp success
    obtain ⟨rfl, rfl⟩ := Prod.mk.inj same
    obtain ⟨split, opening⟩ := cuts.split cut
    rw [split] at cut whole
    refine ⟨taken, ⟨split, rfl⟩, ahead_of_solid whole ▸ opening, fun i rest' resumes ending _ => ?_⟩
    exact .scan (cuts.again cut resumes ending) fun _ => ⟨rfl, .refl rest'⟩
  viable := by
    intro cursor _ offset traced
    unfold Reader.scan at traced
    cases found : scanner cursor.rest with
    | none => rw [found] at traced; cases traced
    | some cut => rw [found] at traced; cases traced
  sample := by
    have whole : sample = sample ++ [] := (List.append_nil sample).symm
    have opening := (cuts.split cut).2
    rw [← ahead_eq_head solid] at opening
    refine ⟨sample, by rwa [List.nil_append, ahead_space], fun i rest ending _ => ?_⟩
    rw [whole] at cut solid
    obtain ⟨onward, resumed, skips, resumes⟩ :=
      exists_strip_append solid fun _ => follows_space [] rest
    rw [List.nil_append, strip_space, resumed]
    rw [List.append_nil] at cut
    refine .scan (cuts.again (by rwa [List.append_nil]) resumes ?_) fun _ => ?_
    · rwa [← skips.ahead, ahead_space]
    · rw [skips.strip, strip_space]

end Tokens

end Reader

end TreeSelector.Grammar
