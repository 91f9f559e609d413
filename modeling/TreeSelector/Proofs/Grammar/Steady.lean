import TreeSelector.Proofs.Grammar.Respacing

/-!
# Reading again what was read before

A reader is steady if what it does depends on the text it has come past and on little else:
what it has taken is taken again whatever comes behind, and wherever an attempt of it has
failed, the text in front of that place can be completed to one that is taken.  Each way to
build readers has its rule.
-/

namespace TreeSelector.Grammar

open Token (Follows)

/-- The offsets at which a rule failed. -/
def Trace.offsets : Trace → List Nat
  | silent => []
  | both first second => first.offsets ++ second.offsets
  | failed _ offset inner => offset :: inner.offsets

/-- One gets from a place to another one by taking some text. -/
structure Cursor.Takes (cursor : Cursor) (taken : List Char) (behind : Cursor) : Prop where
  rest : cursor.rest = taken ++ behind.rest
  offset : behind.offset = cursor.offset + Text.byteLength taken

/-- The second remainder lacks some of the blanks that the first one begins with. -/
def Skips (rest rest' : List Char) : Prop :=
  ∃ gap : List Char, (∀ char ∈ gap, Reader.isBlank char = true) ∧ rest = gap ++ rest'

/-- What can come behind a piece in the place of what came there first.  Behind a piece that is
empty there are no blanks, as they come before it. -/
structure Resumes (taken left rest : List Char) : Prop where
  follows : taken ≠ [] → Follows left rest
  solid : taken = [] → strip rest = rest

/-- The first character behind the blanks. -/
def ahead (rest : List Char) : Option Char := (strip rest).head?

section Places

variable {cursor behind last : Cursor} {taken taken' rest rest' rest'' : List Char}

theorem Cursor.Takes.refl (cursor : Cursor) : cursor.Takes [] cursor := ⟨rfl, rfl⟩

theorem Cursor.Takes.trans (first : cursor.Takes taken behind)
    (second : behind.Takes taken' last) : cursor.Takes (taken ++ taken') last where
  rest := by rw [first.rest, second.rest, List.append_assoc]
  offset := by rw [second.offset, first.offset, Text.byteLength_append, Nat.add_assoc]

/-- A place behind the second one is also one behind the first. -/
theorem Cursor.Takes.extend {begun : List Char} {offset : Nat} (takes : cursor.Takes taken behind)
    (split : behind.rest = begun ++ rest)
    (place : offset = behind.offset + Text.byteLength begun) :
    cursor.rest = taken ++ begun ++ rest ∧
      offset = cursor.offset + Text.byteLength (taken ++ begun) := by
  constructor
  · rw [takes.rest, split, List.append_assoc]
  · rw [place, takes.offset, Text.byteLength_append, Nat.add_assoc]

theorem Skips.refl (rest : List Char) : Skips rest rest := ⟨[], nofun, rfl⟩

theorem Skips.strip (skips : Skips rest rest') : strip rest' = Grammar.strip rest := by
  obtain ⟨gap, blank, rfl⟩ := skips
  exact (strip_blank_append blank rest').symm

theorem skips_strip (rest : List Char) : Skips rest (strip rest) :=
  ⟨rest.takeWhile Reader.isBlank, fun _ member => List.mem_takeWhile_imp member,
    List.takeWhile_append_dropWhile.symm⟩

theorem Skips.trans (first : Skips rest rest') (second : Skips rest' rest'') :
    Skips rest rest'' := by
  obtain ⟨gap, blank, rfl⟩ := first
  obtain ⟨gap', blank', rfl⟩ := second
  refine ⟨gap ++ gap', fun char member => ?_, (List.append_assoc _ _ _).symm⟩
  rcases List.mem_append.mp member with here | there
  · exact blank char here
  · exact blank' char there

theorem Skips.ahead (skips : Skips rest rest') : ahead rest = ahead rest' := by
  rw [Grammar.ahead, Grammar.ahead, skips.strip]

theorem Skips.length_le (skips : Skips rest rest') : rest'.length ≤ rest.length := by
  obtain ⟨gap, _, rfl⟩ := skips
  rw [List.length_append]
  exact Nat.le_add_left _ _

theorem Skips.of_nil (skips : Skips [] rest) : rest = [] := by
  obtain ⟨gap, _, same⟩ := skips
  exact (List.append_eq_nil_iff.mp same.symm).2

@[simp]
theorem ahead_strip (rest : List Char) : ahead (strip rest) = ahead rest := by
  rw [ahead, strip_strip, ahead]

theorem ahead_blank_append {gap : List Char} (blank : ∀ char ∈ gap, Reader.isBlank char = true)
    (rest : List Char) : ahead (gap ++ rest) = ahead rest := by
  rw [ahead, strip_blank_append blank, ahead]

@[simp]
theorem strip_space (rest : List Char) : strip (' ' :: rest) = strip rest :=
  List.dropWhile_cons_of_pos rfl

@[simp]
theorem ahead_space (rest : List Char) : ahead (' ' :: rest) = ahead rest := by
  rw [ahead, strip_space, ahead]

/-- A text that some remainder without leading blanks begins with has none itself. -/
theorem strip_append_of_solid (solid : strip (taken ++ rest) = taken ++ rest) (some : taken ≠ [])
    (rest' : List Char) : strip (taken ++ rest') = taken ++ rest' := by
  obtain ⟨char, part, rfl⟩ := List.exists_cons_of_ne_nil some
  refine strip_cons (Bool.eq_false_iff.mpr fun blank => ?_) _
  have shorter := length_strip_le (part ++ rest)
  rw [List.cons_append, strip, List.dropWhile_cons_of_pos blank] at solid
  have same := congrArg List.length solid
  rw [List.length_cons] at same
  exact absurd same (by unfold strip at shorter; omega)

theorem strip_of_solid (solid : strip (taken ++ rest) = taken ++ rest) :
    strip taken = taken := by
  by_cases none : taken = []
  · rw [none]
    rfl
  · have alone := strip_append_of_solid solid none []
    rwa [List.append_nil] at alone

/-- Blanks in front of such a text are those in front of what comes behind it if it is empty. -/
theorem exists_strip_append (solid : strip (taken ++ rest) = taken ++ rest)
    (follows : taken ≠ [] → Follows rest rest') :
    ∃ onward, strip (taken ++ rest') = taken ++ onward ∧ Skips rest' onward ∧
      Resumes taken rest onward := by
  by_cases none : taken = []
  · refine ⟨strip rest', by rw [none]; rfl, skips_strip rest', fun some => absurd none some, ?_⟩
    exact fun _ => strip_strip rest'
  · refine ⟨rest', strip_append_of_solid solid none rest', .refl rest', follows, ?_⟩
    exact fun nothing => absurd nothing none

/-- What is ahead of a text is in it, unless it is blank. -/
theorem ahead_append (text rest : List Char) :
    ahead (text ++ rest) = (ahead text).or (ahead rest) := by
  unfold ahead strip
  rw [List.dropWhile_append]
  cases text.dropWhile Reader.isBlank <;> simp

theorem ahead_eq_head (solid : strip rest = rest) : ahead rest = rest.head? := by
  rw [ahead, solid]

theorem ahead_of_solid (solid : strip (taken ++ rest) = taken ++ rest) :
    ahead taken = taken.head? :=
  ahead_eq_head (strip_of_solid solid)

theorem follows_space (rest rest' : List Char) : Follows rest (' ' :: rest') := by
  intro char found
  obtain rfl := Option.some.inj found
  exact .inl rfl

theorem Token.Follows.append (follows : Follows rest rest') (front : List Char) :
    Follows (front ++ rest) (front ++ rest') := by
  cases front with
  | nil => exact follows
  | cons char front => exact fun _ found => .inr found

/-- Behind the first of two pieces come blanks and the second one.  If the first one is empty, there
are no blanks. -/
theorem Resumes.first {gap left : List Char}
    (solid : strip (taken ++ (gap ++ (taken' ++ left))) = taken ++ (gap ++ (taken' ++ left)))
    (solid' : strip (taken' ++ left) = taken' ++ left)
    (blank : ∀ char ∈ gap, Reader.isBlank char = true)
    (resumes : Resumes (taken ++ (gap ++ taken')) left rest) :
    Resumes taken (gap ++ (taken' ++ left)) (gap ++ (taken' ++ rest)) where
  follows := fun here => ((resumes.follows (by simp [here])).append taken').append gap
  solid := by
    rintro rfl
    rw [List.nil_append, strip_blank_append blank, solid'] at solid
    obtain rfl : gap = [] := List.self_eq_append_left.mp solid
    by_cases here : taken' = []
    · rw [here]
      exact resumes.solid (by rw [here]; rfl)
    · exact strip_append_of_solid solid' here rest

end Places

namespace Reader

variable {α β ι : Type}

/-- With something behind a blank the text is read to its end by each of the readers, if the
source is not longer than the reader can do with, and if what comes behind is as described. -/
def Completable (twins : ι → Reader β) (deep : ι → Nat) (opens ends : Option Char → Prop)
    (begun : List Char) : Prop :=
  ∃ more, opens (ahead (begun ++ ' ' :: more)) ∧ ∀ i rest, ends (ahead rest) →
    (begun ++ ' ' :: (more ++ ' ' :: rest)).length < deep i →
    (twins i).Reads (strip (begun ++ ' ' :: (more ++ ' ' :: rest))) fun _ rest' =>
      strip rest' = strip rest

/-- What the reader has taken, which begins as `opens` says, is taken by its twins too, for a
value that is alike, if what comes behind begins as `ends` says.  Wherever an attempt of the
reader has failed, the text up to there can be completed, and so can the empty one. -/
structure Steady (reader : Reader α) (twins : ι → Reader β) (deep : ι → Nat)
    (opens ends : Option Char → Prop) (alike : ι → α → β → Prop) : Prop where
  again : ∀ {cursor value behind}, strip cursor.rest = cursor.rest →
    (reader cursor).result = some (value, behind) →
    ∃ taken, cursor.Takes taken behind ∧ opens (ahead taken) ∧ ∀ i rest,
      Resumes taken behind.rest rest → ends (ahead rest) → (taken ++ rest).length < deep i →
      (twins i).Reads (taken ++ rest) fun value' rest' =>
        alike i value value' ∧ Skips rest rest'
  viable : ∀ {cursor}, strip cursor.rest = cursor.rest →
    ∀ offset ∈ (reader cursor).trace.offsets, ∃ begun rest, cursor.rest = begun ++ rest ∧
      offset = cursor.offset + Text.byteLength begun ∧ Completable twins deep opens ends begun
  sample : Completable twins deep opens ends []

section Traces

theorem mem_offsets_bind {first : Reader α} {next : α → Reader β} {cursor : Cursor} {offset : Nat}
    (traced : offset ∈ ((first >>= next) cursor).trace.offsets) :
    offset ∈ (first cursor).trace.offsets ∨ ∃ value behind,
      (first cursor).result = some (value, behind) ∧
        offset ∈ (next value behind).trace.offsets := by
  change offset ∈ (andThen first next cursor).trace.offsets at traced
  unfold andThen at traced
  rcases read : first cursor with ⟨none | ⟨value, behind⟩, trace⟩
  · rw [read] at traced
    exact .inl traced
  · rw [read] at traced
    rcases List.mem_append.mp traced with here | there
    · exact .inl here
    · exact .inr ⟨value, behind, rfl, there⟩

theorem run_bind {first : Reader α} {next : α → Reader β} {cursor last : Cursor} {result : β}
    (success : ((first >>= next) cursor).result = some (result, last)) :
    ∃ value behind, (first cursor).result = some (value, behind) ∧
      (next value behind).result = some (result, last) := by
  rw [result_bind] at success
  obtain ⟨⟨value, behind⟩, found, onward⟩ := Option.bind_eq_some_iff.mp success
  exact ⟨value, behind, found, onward⟩

/-- Behind blanks reading goes on with what is not blank, and nothing is traced. -/
theorem run_blanks {cursor behind : Cursor} {gap : Lexeme}
    (success : (blanks cursor).result = some (gap, behind)) :
    (∀ char ∈ gap.text, isBlank char = true) ∧ cursor.Takes gap.text behind ∧
      behind.rest = strip cursor.rest := by
  obtain ⟨rfl, rfl⟩ := Prod.mk.inj (Option.some.inj success)
  exact ⟨fun _ member => List.mem_takeWhile_imp member,
    ⟨List.takeWhile_append_dropWhile.symm, rfl⟩, rfl⟩

end Traces

section Sequences

variable {α' β' : Type} {reader : Reader α} {twins : ι → Reader α'} {next : α → Reader β}
  {nexts : ι → α' → Reader β'} {deep : ι → Nat} {deep' : ι × α' → Nat}
  {opens ends opens' ends' : Option Char → Prop} {alike : ι → α → α' → Prop}
  {final : ι → β → β' → Prop}

/-- How a text begins that is made of two, the first of which may be empty. -/
def OpensEither (opens opens' : Option Char → Prop) (found : Option Char) : Prop :=
  (opens found ∧ found ≠ none) ∨ (opens none ∧ opens' found)

/-- A piece that begins as `opens` says may stand where `ends` is asked for.  If it can be empty,
so may whatever can come behind it. -/
structure Adjoins (opens ends' ends : Option Char → Prop) : Prop where
  meets : ∀ char, opens (some char) → ends (some char)
  passes : opens none → ∀ found, ends' found → ends found

/-- Where nothing is asked for, everything may stand. -/
theorem Adjoins.anywhere : Adjoins opens ends' fun _ => True where
  meets := fun _ _ => trivial
  passes := fun _ _ _ => trivial

/-- A piece that may be left out can stand before all that can stand in its own place. -/
theorem Adjoins.of_optional (meets : ∀ found, opens found → ends found)
    (passes : ∀ found, ends' found → ends found) :
    Adjoins (fun found => found = none ∨ opens found) ends' ends where
  meets := by
    rintro char (nothing | begins)
    · cases nothing
    · exact meets _ begins
  passes := fun _ => passes

theorem Adjoins.of_begins (some : ¬ opens none) (meets : ∀ found, opens found → ends found) :
    Adjoins opens ends' ends where
  meets := fun char => meets char
  passes := fun nothing => absurd nothing some

theorem Adjoins.of_char {char : Char} (stands : ends (some char)) :
    Adjoins (· = some char) ends' ends := by
  refine .of_begins nofun ?_
  rintro _ rfl
  exact stands

theorem Adjoins.ahead {text rest : List Char} (adjoins : Adjoins opens' ends' ends)
    (opening : opens' (ahead text)) (ending : ends' (ahead rest)) :
    ends (ahead (text ++ rest)) := by
  rw [ahead_append]
  cases shape : Grammar.ahead text with
  | none => exact adjoins.passes (shape ▸ opening) _ ending
  | some char => exact adjoins.meets char (shape ▸ opening)

theorem OpensEither.of_begins (begins : ¬ opens none) {found : Option Char}
    (opening : OpensEither opens opens' found) : opens found := by
  rcases opening with ⟨opening, _⟩ | ⟨nothing, _⟩
  · exact opening
  · exact absurd nothing begins

theorem OpensEither.of_optional {found : Option Char}
    (opening : OpensEither (fun found => found = none ∨ opens found) opens' found) :
    opens found ∨ opens' found := by
  obtain ⟨nothing | begins, some⟩ | ⟨_, opening⟩ := opening
  · exact absurd nothing some
  · exact .inl begins
  · exact .inr opening

theorem opensEither_append {text text' : List Char} (opening : opens (ahead text))
    (opening' : opens' (ahead text')) : OpensEither opens opens' (ahead (text ++ text')) := by
  rw [ahead_append]
  cases shape : ahead text with
  | none => exact .inr ⟨shape ▸ opening, opening'⟩
  | some char => exact .inl ⟨by rwa [shape] at opening, nofun⟩

/-- The second piece has enough depth for what the first one has left of the source. -/
theorem lt_of_shrinks {taken rest : List Char} {least most : Nat} (opening : opens (ahead taken))
    (shrinks : least ≤ most ∨ ¬ opens none ∧ least ≤ most + 1)
    (bound : taken.length + rest.length < least) : rest.length < most := by
  rcases shrinks with deeper | ⟨some, deeper⟩
  · omega
  · have begins : taken ≠ [] := by
      rintro rfl
      exact some opening
    have positive := List.length_pos_iff.mpr begins
    omega

/-- Once the first piece is complete, any second one completes both. -/
theorem Completable.seq {begun : List Char} (first : Completable twins deep opens ends begun)
    (second : Completable (fun i : ι × α' => nexts i.1 i.2) deep' opens' ends' [])
    (adjoins : Adjoins opens' ends' ends)
    (shrinks : ∀ i, deep i.1 ≤ deep' i ∨ ¬ opens none ∧ deep i.1 ≤ deep' i + 1) :
    Completable (fun i => do
        let value ← twins i
        let _ ← Reader.blanks
        nexts i value) deep (OpensEither opens opens') ends' begun := by
  obtain ⟨more, opening, reads⟩ := first
  obtain ⟨more', opening', reads'⟩ := second
  refine ⟨more ++ ' ' :: more', ?_, fun i rest ending bound => ?_⟩
  · rw [← List.cons_append, ← List.append_assoc]
    exact opensEither_append opening opening'
  · have meeting : ends (ahead (' ' :: more' ++ ' ' :: rest)) :=
      adjoins.ahead opening' (by rwa [ahead_space])
    rw [List.cons_append, ahead_space] at meeting
    simp only [List.append_assoc, List.cons_append] at bound ⊢
    refine (reads i _ meeting bound).bind fun value' rest' skips => ?_
    simp only [List.length_append, List.length_cons] at bound
    refine .afterBlanks fun _ => ?_
    have shorter : deep i ≤ deep' (i, value') + 1 := by
      rcases shrinks (i, value') with deeper | ⟨_, deeper⟩
      · exact Nat.le_succ_of_le deeper
      · exact deeper
    rw [skips, ← strip_space]
    refine reads' (i, value') rest ending ?_
    simp only [List.nil_append, List.length_append, List.length_cons]
    omega

/-- Behind a first piece that was taken before, whatever completes the second one completes
both. -/
theorem Completable.behind {taken left gap begun rest : List Char} {value : α}
    (solid : strip (taken ++ left) = taken ++ left) (opening : opens (ahead taken))
    (again : ∀ i rest, Resumes taken left rest → ends (ahead rest) →
      (taken ++ rest).length < deep i →
      (twins i).Reads (taken ++ rest) fun value' rest' => alike i value value' ∧ Skips rest rest')
    (blank : ∀ char ∈ gap, isBlank char = true) (split : left = gap ++ (begun ++ rest))
    (second : Completable (fun i : ι × α' => nexts i.1 i.2) deep' opens' ends' begun)
    (adjoins : Adjoins opens' ends' ends)
    (shrinks : ∀ i, deep i.1 ≤ deep' i ∨ ¬ opens none ∧ deep i.1 ≤ deep' i + 1) :
    Completable (fun i => do
        let value ← twins i
        let _ ← Reader.blanks
        nexts i value) deep (OpensEither opens opens') ends' (taken ++ (gap ++ begun)) := by
  obtain ⟨more, opening', reads⟩ := second
  refine ⟨more, ?_, fun i rest' ending bound => ?_⟩
  · rw [List.append_assoc, List.append_assoc]
    exact opensEither_append opening (by rwa [ahead_blank_append blank])
  · have follows := ((follows_space rest (more ++ ' ' :: rest')).append begun).append gap
    obtain ⟨onward, resumed, skips, resumes⟩ :=
      exists_strip_append solid (fun _ => split ▸ follows)
    have meeting : ends (ahead ((begun ++ ' ' :: more) ++ ' ' :: rest')) :=
      adjoins.ahead opening' (by rwa [ahead_space])
    have shorter := skips.length_le
    simp only [List.append_assoc, List.cons_append] at meeting bound ⊢
    rw [resumed]
    have reading := again i onward resumes (by rwa [← skips.ahead, ahead_blank_append blank])
    simp only [List.length_append, List.length_cons] at shorter bound reading
    refine (reading (by omega)).bind fun value' rest'' holds => .afterBlanks fun _ => ?_
    rw [holds.2.strip, skips.strip, strip_blank_append blank]
    refine reads (i, value') rest' ending (lt_of_shrinks opening (shrinks (i, value')) ?_)
    simp only [List.length_append, List.length_cons]
    omega

/-- Two pieces are read one after the other, with blanks between them, and the second one has
enough depth for what the first one leaves. -/
theorem Steady.andThen [Nonempty α] (first : Steady reader twins deep opens ends alike)
    (second : ∀ value, Steady (next value) (fun i : ι × α' => nexts i.1 i.2) deep' opens' ends'
      fun i found found' => alike i.1 value i.2 → final i.1 found found')
    (adjoins : Adjoins opens' ends' ends)
    (shrinks : ∀ i, deep i.1 ≤ deep' i ∨ ¬ opens none ∧ deep i.1 ≤ deep' i + 1) :
    Steady (do
        let value ← reader
        let _ ← Reader.blanks
        next value) (fun i => do
        let value ← twins i
        let _ ← Reader.blanks
        nexts i value) deep (OpensEither opens opens') ends' final where
  again := by
    intro cursor result last solid success
    obtain ⟨value, behind, read, onward⟩ := run_bind success
    obtain ⟨gap, behind', skipped, read'⟩ := run_bind onward
    obtain ⟨blank, takesGap, stripped⟩ := run_blanks skipped
    obtain ⟨taken, takes, opening, twin⟩ := first.again solid read
    obtain ⟨taken', takes', opening', twin'⟩ :=
      (second value).again (by rw [stripped, strip_strip]) read'
    have solid' : strip (taken' ++ last.rest) = taken' ++ last.rest := by
      rw [← takes'.rest, stripped, strip_strip]
    refine ⟨taken ++ (gap.text ++ taken'), takes.trans (takesGap.trans takes'), ?_, ?_⟩
    · exact opensEither_append opening (by rwa [ahead_blank_append blank])
    intro i rest resumes ending bound
    have split : behind.rest = gap.text ++ (taken' ++ last.rest) := takes'.rest ▸ takesGap.rest
    have there : Resumes taken behind.rest (gap.text ++ (taken' ++ rest)) := by
      rw [takes.rest, split] at solid
      rw [split]
      exact .first solid solid' blank resumes
    have meeting : ends (ahead (gap.text ++ (taken' ++ rest))) := by
      rw [ahead_blank_append blank]
      exact adjoins.ahead opening' ending
    obtain ⟨onward, resumed, skips, resumes'⟩ :=
      exists_strip_append solid' fun here => resumes.follows (by simp [here])
    have shorter := skips.length_le
    simp only [List.append_assoc, List.length_append] at bound ⊢
    refine (twin i _ there meeting (by simpa using bound)).bind fun value' rest' holds =>
      .afterBlanks fun _ => ?_
    rw [holds.2.strip, strip_blank_append blank, resumed]
    have deeper : (taken' ++ onward).length < deep' (i, value') := by
      refine lt_of_shrinks opening (shrinks (i, value')) ?_
      rw [List.length_append]
      dsimp only
      omega
    have finish := twin' (i, value') onward resumes' (by rwa [← skips.ahead]) deeper
    exact finish.mono fun _ _ last => ⟨last.1 holds.1, skips.trans last.2⟩
  viable := by
    intro cursor solid offset traced
    rcases mem_offsets_bind traced with early | ⟨value, behind, read, traced⟩
    · obtain ⟨begun, rest, split, place, completable⟩ := first.viable solid offset early
      obtain ⟨value⟩ := ‹Nonempty α›
      exact ⟨begun, rest, split, place, completable.seq (second value).sample adjoins shrinks⟩
    · rcases mem_offsets_bind traced with nowhere | ⟨gap, behind', skipped, late⟩
      · cases nowhere
      · obtain ⟨blank, takesGap, stripped⟩ := run_blanks skipped
        obtain ⟨taken, takes, opening, twin⟩ := first.again solid read
        obtain ⟨begun, rest, split, place, completable⟩ :=
          (second value).viable (by rw [stripped, strip_strip]) offset late
        obtain ⟨whole, there⟩ := (takes.trans takesGap).extend split place
        rw [takes.rest] at solid
        rw [List.append_assoc taken] at whole there
        exact ⟨_, rest, whole, there, .behind solid opening twin blank (split ▸ takesGap.rest)
          completable adjoins shrinks⟩
  sample := by
    obtain ⟨value⟩ := ‹Nonempty α›
    exact first.sample.seq (second value).sample adjoins shrinks

/-- Two pieces are read one after the other, in the same depth. -/
theorem Steady.seq [Nonempty α] (first : Steady reader twins deep opens ends alike)
    (second : ∀ value, Steady (next value) (fun i : ι × α' => nexts i.1 i.2)
      (fun i => deep i.1) opens' ends' fun i found found' =>
        alike i.1 value i.2 → final i.1 found found')
    (adjoins : Adjoins opens' ends' ends) :
    Steady (do
        let value ← reader
        let _ ← Reader.blanks
        next value) (fun i => do
        let value ← twins i
        let _ ← Reader.blanks
        nexts i value) deep (OpensEither opens opens') ends' final :=
  first.andThen second adjoins fun _ => .inl le_rfl

theorem Completable.result {value : ι → α' → β'} {begun : List Char}
    (completable : Completable twins deep opens ends begun) :
    Completable (fun i => do
        let found ← twins i
        return value i found) deep opens ends begun := by
  obtain ⟨more, opening, reads⟩ := completable
  refine ⟨more, opening, fun i rest ending bound => ?_⟩
  exact (reads i rest ending bound).bind fun _ _ skips => .pure skips

/-- A result is made of the piece, and nothing else is read. -/
theorem Steady.result {value : α → β} {values : ι → α' → β'}
    (steady : Steady reader twins deep opens ends alike)
    (same : ∀ i found found', alike i found found' → final i (value found) (values i found')) :
    Steady (do
        let found ← reader
        return value found) (fun i => do
        let found ← twins i
        return values i found) deep opens ends final where
  again := by
    intro cursor result last solid success
    obtain ⟨found, behind, read, onward⟩ := run_bind success
    obtain ⟨rfl, rfl⟩ := Prod.mk.inj (Option.some.inj onward)
    obtain ⟨taken, takes, opening, twin⟩ := steady.again solid read
    refine ⟨taken, takes, opening, fun i rest resumes ending bound => ?_⟩
    refine (twin i rest resumes ending bound).bind fun found' rest' holds => .pure ?_
    exact ⟨same i found found' holds.1, holds.2⟩
  viable := by
    intro cursor solid offset traced
    rcases mem_offsets_bind traced with early | ⟨found, behind, read, late⟩
    · obtain ⟨begun, rest, split, place, completable⟩ := steady.viable solid offset early
      exact ⟨begun, rest, split, place, completable.result⟩
    · cases late
  sample := steady.sample.result

end Sequences

section Choices

variable {reader other : Reader α} {twins others : ι → Reader β} {deep : ι → Nat}
  {opens ends opens' : Option Char → Prop} {alike : ι → α → β → Prop}

/-- The readers refuse whatever begins in another way. -/
def Closed (twins : ι → Reader β) (opens : Option Char → Prop) : Prop :=
  ∀ i source, ¬ opens source.head? → (twins i).Fails source

theorem Completable.mono {κ : Type} {twins' : κ → Reader β} {deep' : κ → Nat}
    {ends' : Option Char → Prop} {begun : List Char}
    (completable : Completable twins deep opens ends begun)
    (opening : ∀ found, opens found → opens' found) (ending : ∀ found, ends' found → ends found)
    (covers : ∀ j, 0 < deep' j → ∃ i, twins i = twins' j ∧ deep' j ≤ deep i) :
    Completable twins' deep' opens' ends' begun := by
  obtain ⟨more, opened, reads⟩ := completable
  refine ⟨more, opening _ opened, fun j rest ended bound => ?_⟩
  obtain ⟨i, same, deeper⟩ := covers j (Nat.zero_lt_of_lt bound)
  rw [← same]
  exact reads i rest (ending _ ended) (bound.trans_le deeper)

/-- The same for less: fewer twins, and sources that begin and end in more special ways. -/
theorem Steady.recast {κ : Type} {twins' : κ → Reader β} {deep' : κ → Nat}
    {ends' : Option Char → Prop} {alike' : κ → α → β → Prop}
    (steady : Steady reader twins deep opens ends alike)
    (opening : ∀ found, opens found → opens' found) (ending : ∀ found, ends' found → ends found)
    (covers : ∀ j, 0 < deep' j → ∃ i, twins i = twins' j ∧ deep' j ≤ deep i ∧
      ∀ value value', alike i value value' → alike' j value value') :
    Steady reader twins' deep' opens' ends' alike' where
  again := by
    intro cursor value behind solid success
    obtain ⟨taken, takes, opened, twin⟩ := steady.again solid success
    refine ⟨taken, takes, opening _ opened, fun j rest resumes ended bound => ?_⟩
    obtain ⟨i, same, deeper, weaker⟩ := covers j (Nat.zero_lt_of_lt bound)
    have reads := twin i rest resumes (ending _ ended) (bound.trans_le deeper)
    rw [← same]
    exact reads.mono fun _ _ holds => ⟨weaker _ _ holds.1, holds.2⟩
  viable := by
    intro cursor solid offset traced
    obtain ⟨begun, rest, split, place, completable⟩ := steady.viable solid offset traced
    refine ⟨begun, rest, split, place, completable.mono opening ending fun j positive => ?_⟩
    obtain ⟨i, same, deeper, _⟩ := covers j positive
    exact ⟨i, same, deeper⟩
  sample := steady.sample.mono opening ending fun j positive => by
    obtain ⟨i, same, deeper, _⟩ := covers j positive
    exact ⟨i, same, deeper⟩

/-- The twins may come under other indices. -/
theorem Steady.reindex {κ : Type} (steady : Steady reader twins deep opens ends alike)
    (index : κ → ι) : Steady reader (fun j => twins (index j)) (fun j => deep (index j)) opens ends
      fun j => alike (index j) :=
  steady.recast (fun _ => id) (fun _ => id) fun j _ => ⟨index j, rfl, le_rfl, fun _ _ => id⟩

/-- The same with less known of how the piece begins and more of what comes behind it. -/
theorem Steady.narrow {ends' : Option Char → Prop}
    (steady : Steady reader twins deep opens ends alike)
    (opening : ∀ found, opens found → opens' found) (ending : ∀ found, ends' found → ends found) :
    Steady reader twins deep opens' ends' alike :=
  steady.recast opening ending fun i _ => ⟨i, rfl, le_rfl, fun _ _ => id⟩

/-- What is steady in some depth is steady in less. -/
theorem Steady.shallower {deep' : ι → Nat} (steady : Steady reader twins deep opens ends alike)
    (deeper : ∀ i, deep' i ≤ deep i) : Steady reader twins deep' opens ends alike :=
  steady.recast (fun _ => id) (fun _ => id) fun i _ => ⟨i, rfl, deeper i, fun _ _ => id⟩

theorem Steady.weaken {alike' : ι → α → β → Prop}
    (steady : Steady reader twins deep opens ends alike)
    (weaker : ∀ i value value', alike i value value' → alike' i value value') :
    Steady reader twins deep opens ends alike' :=
  steady.recast (fun _ => id) (fun _ => id) fun i _ => ⟨i, rfl, le_rfl, weaker i⟩

theorem Steady.fail (sample : Completable twins deep opens ends []) :
    Steady (fail : Reader α) twins deep opens ends alike where
  again := nofun
  viable := fun _ _ traced => by cases traced
  sample := sample

theorem mem_offsets_orElse {cursor : Cursor} {offset : Nat}
    (traced : offset ∈ (reader.orElse other cursor).trace.offsets) :
    offset ∈ (reader cursor).trace.offsets ∨ offset ∈ (other cursor).trace.offsets := by
  unfold orElse at traced
  rcases read : reader cursor with ⟨none | found, trace⟩
  · rw [read] at traced
    exact List.mem_append.mp traced
  · rw [read] at traced
    exact .inl traced

theorem Completable.left {begun : List Char} (completable : Completable twins deep opens ends begun)
    (wider : ∀ found, opens found → opens' found) :
    Completable (fun i => (twins i).orElse (others i)) deep opens' ends begun := by
  obtain ⟨more, opening, reads⟩ := completable
  exact ⟨more, wider _ opening, fun i rest ending bound => (reads i rest ending bound).left⟩

/-- One of two pieces is read, and the first character tells which. -/
theorem Steady.orElse (first : Steady reader twins deep opens ends alike)
    (second : Steady other others deep opens' ends alike) (closed : Closed twins opens)
    (apart : ∀ found, opens' found → ¬ opens found) (some : ¬ opens' none) :
    Steady (reader.orElse other) (fun i => (twins i).orElse (others i)) deep
      (fun found => opens found ∨ opens' found) ends alike where
  again := by
    intro cursor value behind solid success
    rw [result_orElse] at success
    rcases Option.or_eq_some_iff.mp success with read | ⟨_, read⟩
    · obtain ⟨taken, takes, opening, twin⟩ := first.again solid read
      refine ⟨taken, takes, .inl opening, fun i rest resumes ending bound => ?_⟩
      exact (twin i rest resumes ending bound).left
    · obtain ⟨taken, takes, opening, twin⟩ := second.again solid read
      refine ⟨taken, takes, .inr opening, fun i rest resumes ending bound => ?_⟩
      refine .right (closed i _ ?_) (twin i rest resumes ending bound)
      have begins : taken ≠ [] := by
        rintro rfl
        exact some opening
      rw [takes.rest] at solid
      rw [← ahead_eq_head (strip_append_of_solid solid begins rest), ahead_append]
      cases shape : ahead taken with
      | none => exact absurd (shape ▸ opening) some
      | some char => exact apart _ (by rwa [shape] at opening)
  viable := by
    intro cursor solid offset traced
    rcases mem_offsets_orElse traced with early | late
    · obtain ⟨begun, rest, split, place, completable⟩ := first.viable solid offset early
      exact ⟨begun, rest, split, place, completable.left fun _ => .inl⟩
    · obtain ⟨begun, rest, split, place, more, opening, reads⟩ := second.viable solid offset late
      refine ⟨begun, rest, split, place, more, .inr opening, fun i rest ending bound => ?_⟩
      refine .right (closed i _ ?_) (reads i rest ending bound)
      rw [← ahead_eq_head (strip_strip _), ahead_strip, ← List.cons_append, ← List.append_assoc,
        ahead_append]
      cases shape : ahead (begun ++ ' ' :: more) with
      | none => exact absurd (shape ▸ opening) some
      | some char => exact apart _ (by rwa [shape] at opening)
  sample := first.sample.left fun _ => .inl

/-- A piece may be left out, if what comes behind it begins in another way. -/
theorem Steady.optional (steady : Steady reader twins deep opens ends alike)
    (closed : Closed twins opens) :
    Steady (Reader.optional reader) (fun i => Reader.optional (twins i)) deep
      (fun found => found = none ∨ opens found) (fun found => ends found ∧ ¬ opens found)
      fun i => Option.Rel (alike i) where
  again := by
    intro cursor found behind solid success
    rw [Reader.optional, result_orElse] at success
    rcases Option.or_eq_some_iff.mp success with present | ⟨_, absent⟩
    · obtain ⟨value, behind, read, onward⟩ := run_bind present
      obtain ⟨rfl, rfl⟩ := Prod.mk.inj (Option.some.inj onward)
      obtain ⟨taken, takes, opening, twin⟩ := steady.again solid read
      refine ⟨taken, takes, .inr opening, fun i rest resumes ending bound => .present ?_⟩
      exact (twin i rest resumes ending.1 bound).mono fun _ _ holds => ⟨.some holds.1, holds.2⟩
    · obtain ⟨rfl, rfl⟩ := Prod.mk.inj (Option.some.inj absent)
      refine ⟨[], .refl cursor, .inl rfl, fun i rest resumes ending _ => ?_⟩
      refine .absent (closed i rest ?_) ⟨.none, .refl rest⟩
      rw [← ahead_eq_head (resumes.solid rfl)]
      exact ending.2
  viable := by
    intro cursor solid offset traced
    rcases mem_offsets_orElse traced with early | late
    · rcases mem_offsets_bind early with early | ⟨value, behind, _, late⟩
      · obtain ⟨begun, rest, split, place, more, opening, reads⟩ :=
          steady.viable solid offset early
        refine ⟨begun, rest, split, place, more, .inr opening, fun i rest ending bound => ?_⟩
        exact .present (reads i rest ending.1 bound)
      · cases late
    · cases late
  sample := by
    refine ⟨[], .inl rfl, fun i rest ending _ => ?_⟩
    have nothing : strip ([] ++ ' ' :: ([] ++ ' ' :: rest)) = strip rest := by simp
    rw [nothing]
    refine .absent (closed i _ ?_) (strip_strip rest)
    rw [← ahead_eq_head (strip_strip rest), ahead_strip]
    exact ending.2

/-- Two pieces are read one after the other, the first of which is not empty. -/
theorem Steady.append {α' β' : Type} [Nonempty α] {twins : ι → Reader α'} {next : α → Reader β}
    {nexts : ι → α' → Reader β'} {ends ends' : Option Char → Prop}
    {alike : ι → α → α' → Prop} {final : ι → β → β' → Prop}
    (first : Steady reader twins deep opens ends alike) (begins : ¬ opens none)
    (second : ∀ value, Steady (next value) (fun i : ι × α' => nexts i.1 i.2)
      (fun i => deep i.1) opens' ends' fun i found found' =>
        alike i.1 value i.2 → final i.1 found found')
    (adjoins : Adjoins opens' ends' ends) :
    Steady (do
        let value ← reader
        let _ ← Reader.blanks
        next value) (fun i => do
        let value ← twins i
        let _ ← Reader.blanks
        nexts i value) deep opens ends' final :=
  (first.seq second adjoins).narrow (fun _ opening => opening.of_begins begins) fun _ => id

end Choices

section Notes

variable {reader : Reader α} {twins : ι → Reader β} {deep : ι → Nat}
  {opens ends : Option Char → Prop} {alike : ι → α → β → Prop}

/-- A rule adds to the trace where it was attempted. -/
theorem offset_of_rule {name : Rule} {cursor : Cursor} {offset : Nat}
    (traced : offset ∈ (Reader.rule name reader cursor).trace.offsets) :
    offset = cursor.offset ∨ offset ∈ (reader cursor).trace.offsets := by
  unfold Reader.rule at traced
  rcases read : reader cursor with ⟨none | found, trace⟩
  · rw [read] at traced
    exact List.mem_cons.mp traced
  · rw [read] at traced
    exact .inr traced

theorem Steady.rule (steady : Steady reader twins deep opens ends alike) (name : Rule) :
    Steady (rule name reader) (fun i => Reader.rule name (twins i)) deep opens ends alike where
  again := by
    intro cursor value behind solid success
    rw [result_rule] at success
    obtain ⟨taken, takes, opening, twin⟩ := steady.again solid success
    refine ⟨taken, takes, opening, fun i rest resumes ending bound => ?_⟩
    exact (twin i rest resumes ending bound).rule
  viable := by
    intro cursor solid offset traced
    rcases offset_of_rule traced with rfl | inner
    · obtain ⟨more, opening, reads⟩ := steady.sample
      refine ⟨[], cursor.rest, rfl, rfl, more, opening, fun i rest ending bound => ?_⟩
      exact (reads i rest ending bound).rule
    · obtain ⟨begun, rest, split, place, more, opening, reads⟩ := steady.viable solid offset inner
      refine ⟨begun, rest, split, place, more, opening, fun i rest ending bound => ?_⟩
      exact (reads i rest ending bound).rule
  sample := by
    obtain ⟨more, opening, reads⟩ := steady.sample
    exact ⟨more, opening, fun i rest ending bound => (reads i rest ending bound).rule⟩

/-- Something is noted about the piece that is read. -/
theorem Steady.noted {γ : Type} {wide : Reader (α × γ)} {wides : ι → Reader (β × γ)}
    {note : Cursor → α × Cursor → γ} {note' : Cursor → β × Cursor → γ}
    (steady : Steady reader twins deep opens ends alike)
    (result : ∀ cursor, (wide cursor).result =
      (reader cursor).result.map fun found => ((found.1, note cursor found), found.2))
    (trace : ∀ cursor, (wide cursor).trace = (reader cursor).trace)
    (result' : ∀ i cursor, (wides i cursor).result =
      (twins i cursor).result.map fun found => ((found.1, note' cursor found), found.2)) :
    Steady wide wides deep opens ends fun i found found' => alike i found.1 found'.1 := by
  have reads' : ∀ {i source} {post : β → List Char → Prop}, (twins i).Reads source post →
      (wides i).Reads source fun found rest => post found.1 rest := by
    intro i source post reads offset
    obtain ⟨value, behind, success, holds⟩ := reads offset
    refine ⟨(value, note' ⟨offset, source⟩ (value, behind)), behind, ?_, holds⟩
    rw [result', success]
    rfl
  have completed : ∀ {begun}, Completable twins deep opens ends begun →
      Completable wides deep opens ends begun := by
    intro begun ⟨more, opening, reads⟩
    exact ⟨more, opening, fun i rest ending bound => reads' (reads i rest ending bound)⟩
  refine ⟨?_, ?_, completed steady.sample⟩
  · intro cursor found behind solid success
    rw [result] at success
    obtain ⟨⟨value, behind'⟩, read, same⟩ := Option.map_eq_some_iff.mp success
    obtain ⟨rfl, rfl⟩ := Prod.mk.inj same
    obtain ⟨taken, takes, opening, twin⟩ := steady.again solid read
    refine ⟨taken, takes, opening, fun i rest resumes ending bound => ?_⟩
    exact reads' (twin i rest resumes ending bound)
  · intro cursor solid offset traced
    rw [trace] at traced
    obtain ⟨begun, rest, split, place, completable⟩ := steady.viable solid offset traced
    exact ⟨begun, rest, split, place, completed completable⟩

theorem Steady.placed (steady : Steady reader twins deep opens ends alike) :
    Steady (placed reader) (fun i => Reader.placed (twins i)) deep opens ends
      fun i found found' => alike i found.1 found'.1 := by
  refine steady.noted (result_placed reader) (fun cursor => ?_) fun i => result_placed (twins i)
  unfold Reader.placed
  rcases reader cursor with ⟨none | found, trace⟩ <;> rfl

end Notes

end Reader

end TreeSelector.Grammar
