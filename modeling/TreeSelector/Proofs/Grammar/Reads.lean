import Mathlib.Data.List.Forall2
import TreeSelector.Grammar.Reader

/-!
# What readers do

A reader either succeeds with a value and leaves a remainder, or fails.  `Reads` says
that reading a source succeeds and describes value and remainder, `Fails` that it does
not succeed, and `Yields` describes the values a reader can have.  Each way to build
readers has a rule for each of the three; traces and offsets play no part in them.
-/

namespace TreeSelector.Grammar

/-- A source without the blanks it begins with. -/
def strip (source : List Char) : List Char := source.dropWhile Reader.isBlank

@[simp]
theorem strip_strip (source : List Char) : strip (strip source) = strip source := by
  induction source with
  | nil => rfl
  | cons char source hypothesis =>
      unfold strip at hypothesis ⊢
      by_cases blank : Reader.isBlank char
      · rw [List.dropWhile_cons_of_pos blank, hypothesis]
      · rw [List.dropWhile_cons_of_neg blank, List.dropWhile_cons_of_neg blank]

theorem strip_cons {char : Char} (solid : Reader.isBlank char = false) (rest : List Char) :
    strip (char :: rest) = char :: rest :=
  List.dropWhile_cons_of_neg (Bool.eq_false_iff.mp solid)

theorem strip_blank_append {gap : List Char} (blank : ∀ char ∈ gap, Reader.isBlank char = true)
    (rest : List Char) : strip (gap ++ rest) = strip rest := by
  unfold strip
  rw [List.dropWhile_append_of_pos blank]

namespace Reader

variable {α β : Type}

/-- Reading a source succeeds, at whatever offset it stands, with a value and a remainder
as described. -/
def Reads (reader : Reader α) (source : List Char) (post : α → List Char → Prop) : Prop :=
  ∀ offset, ∃ value behind,
    (reader ⟨offset, source⟩).result = some (value, behind) ∧ post value behind.rest

/-- Reading a source fails, at whatever offset it stands. -/
def Fails (reader : Reader α) (source : List Char) : Prop :=
  ∀ offset, (reader ⟨offset, source⟩).result = none

/-- Every value that is read has the property. -/
def Yields (reader : Reader α) (property : α → Prop) : Prop :=
  ∀ cursor value behind, (reader cursor).result = some (value, behind) → property value

section Results

theorem result_bind (first : Reader α) (next : α → Reader β) (cursor : Cursor) :
    ((first >>= next) cursor).result =
      (first cursor).result.bind fun found => (next found.1 found.2).result := by
  change (andThen first next cursor).result = _
  unfold andThen
  rcases first cursor with ⟨none | found, trace⟩ <;> rfl

theorem result_orElse (first second : Reader α) (cursor : Cursor) :
    (first.orElse second cursor).result =
      (first cursor).result.or (second cursor).result := by
  unfold orElse
  rcases first cursor with ⟨none | found, trace⟩ <;> rfl

theorem result_rule (name : Rule) (reader : Reader α) (cursor : Cursor) :
    (rule name reader cursor).result = (reader cursor).result := by
  unfold rule
  rcases reader cursor with ⟨none | found, trace⟩ <;> rfl

theorem result_placed (reader : Reader α) (cursor : Cursor) :
    (placed reader cursor).result = (reader cursor).result.map fun found =>
      ((found.1, ⟨cursor.offset, found.2.offset⟩), found.2) := by
  unfold placed
  rcases reader cursor with ⟨none | found, trace⟩ <;> rfl

theorem result_scan (scanner : Scanner) (cursor : Cursor) :
    (scan scanner cursor).result = (scanner cursor.rest).map fun cut =>
      (⟨cut.1, cursor.offset, cursor.offset + Text.byteLength cut.1⟩,
        ⟨cursor.offset + Text.byteLength cut.1, cut.2⟩) := by
  unfold scan
  cases scanner cursor.rest <;> rfl

end Results

section Success

variable {reader : Reader α} {source : List Char} {post : α → List Char → Prop}

theorem Reads.mono {post' : α → List Char → Prop} (reads : reader.Reads source post)
    (weaker : ∀ value rest, post value rest → post' value rest) :
    reader.Reads source post' := by
  intro offset
  obtain ⟨value, behind, success, holds⟩ := reads offset
  exact ⟨value, behind, success, weaker _ _ holds⟩

theorem Reads.pure {value : α} (holds : post value source) :
    Reads (Pure.pure value) source post :=
  fun offset => ⟨value, ⟨offset, source⟩, rfl, holds⟩

theorem Reads.bind {next : α → Reader β} {final : β → List Char → Prop}
    (first : reader.Reads source post)
    (second : ∀ value rest, post value rest → (next value).Reads rest final) :
    (reader >>= next).Reads source final := by
  intro offset
  obtain ⟨value, ⟨offset', rest⟩, success, holds⟩ := first offset
  obtain ⟨value', behind, success', holds'⟩ := second value rest holds offset'
  refine ⟨value', behind, ?_, holds'⟩
  rw [result_bind, success]
  exact success'

theorem Reads.map {change : α → β} {final : β → List Char → Prop}
    (reads : reader.Reads source fun value rest => final (change value) rest) :
    (change <$> reader).Reads source final :=
  reads.bind fun _ _ holds => .pure holds

theorem Reads.seqRight {next : Reader β} {final : β → List Char → Prop}
    (first : reader.Reads source post)
    (second : ∀ value rest, post value rest → next.Reads rest final) :
    (reader *> next).Reads source final :=
  Reads.bind first second

theorem Reads.left {second : Reader α} (reads : reader.Reads source post) :
    (reader.orElse second).Reads source post := by
  intro offset
  obtain ⟨value, behind, success, holds⟩ := reads offset
  exact ⟨value, behind, by rw [result_orElse, success]; rfl, holds⟩

theorem Reads.right {first : Reader α} (fails : first.Fails source)
    (reads : reader.Reads source post) : (first.orElse reader).Reads source post := by
  intro offset
  obtain ⟨value, behind, success, holds⟩ := reads offset
  exact ⟨value, behind, by rw [result_orElse, fails offset, success]; rfl, holds⟩

theorem Reads.rule {name : Rule} (reads : reader.Reads source post) :
    (rule name reader).Reads source post := by
  intro offset
  rw [result_rule]
  exact reads offset

/-- A piece is read under the name of a rule, and reading goes on with its span. -/
theorem Reads.placed {name : Rule} {next : α × Span → Reader β} {final : β → List Char → Prop}
    (reads : reader.Reads source post)
    (second : ∀ value span rest, post value rest → (next (value, span)).Reads rest final) :
    (Reader.placed (Reader.rule name reader) >>= next).Reads source final := by
  refine Reads.bind (fun offset => ?_ : (Reader.placed (Reader.rule name reader)).Reads source
    fun found rest => post found.1 rest) fun found => second found.1 found.2
  obtain ⟨value, behind, success, holds⟩ := reads offset
  refine ⟨(value, ⟨offset, behind.offset⟩), behind, ?_, holds⟩
  rw [result_placed, result_rule, success]
  rfl

theorem Reads.present {final : Option α → List Char → Prop}
    (reads : reader.Reads source fun value rest => final (some value) rest) :
    (optional reader).Reads source final :=
  reads.map.left

theorem Reads.scan {scanner : Scanner} {taken rest : List Char}
    {final : Lexeme → List Char → Prop} (cuts : scanner source = some (taken, rest))
    (holds : ∀ span, final ⟨taken, span⟩ rest) : (scan scanner).Reads source final := by
  intro offset
  refine ⟨⟨taken, offset, offset + Text.byteLength taken⟩,
    ⟨offset + Text.byteLength taken, rest⟩, ?_, holds _⟩
  rw [result_scan, cuts]
  rfl

theorem Reads.token {name : Rule} {scanner : Scanner} {taken rest : List Char}
    {final : Lexeme → List Char → Prop} (cuts : scanner source = some (taken, rest))
    (holds : ∀ span, final ⟨taken, span⟩ rest) : (token name scanner).Reads source final :=
  (Reads.scan cuts holds).rule

theorem Reads.literal {text : String} {rest : List Char} {final : Lexeme → List Char → Prop}
    (holds : ∀ span, final ⟨text.toList, span⟩ rest) :
    (literal text).Reads (text.toList ++ rest) final := by
  refine .scan ?_ holds
  rw [Text.dropLeading?_eq_some_iff.mpr rfl]
  rfl

/-- A literal of one character is read, and reading goes on behind it. -/
theorem Reads.afterSign {text : String} {char : Char} {rest : List Char}
    {next : Lexeme → Reader β} {final : β → List Char → Prop} (spelled : text.toList = [char])
    (reads : ∀ lexeme, (next lexeme).Reads rest final) :
    (Reader.literal text >>= next).Reads (char :: rest) final := by
  have sign : (Reader.literal text).Reads (text.toList ++ rest) fun _ rest' => rest' = rest :=
    .literal fun _ => rfl
  rw [spelled] at sign
  exact sign.bind fun lexeme _ here => here ▸ reads lexeme

theorem Reads.blanks {final : Lexeme → List Char → Prop}
    (holds : ∀ lexeme, final lexeme (strip source)) : blanks.Reads source final :=
  .scan rfl fun span => holds ⟨source.takeWhile isBlank, span⟩

/-- Blanks are skipped, and reading goes on behind them. -/
theorem Reads.afterBlanks {next : Lexeme → Reader β} {final : β → List Char → Prop}
    (reads : ∀ lexeme, (next lexeme).Reads (strip source) final) :
    (Reader.blanks >>= next).Reads source final :=
  (Reads.blanks fun _ => rfl : Reader.blanks.Reads source fun _ rest => rest = strip source).bind
    fun lexeme _ here => here ▸ reads lexeme

end Success

section Failure

variable {reader : Reader α} {source : List Char}

theorem Fails.bind {next : α → Reader β} (fails : reader.Fails source) :
    (reader >>= next).Fails source := by
  intro offset
  rw [result_bind, fails offset]
  rfl

theorem Fails.map {change : α → β} (fails : reader.Fails source) :
    (change <$> reader).Fails source :=
  fails.bind

theorem Fails.after {next : α → Reader β} {post : α → List Char → Prop}
    (reads : reader.Reads source post)
    (fails : ∀ value rest, post value rest → (next value).Fails rest) :
    (reader >>= next).Fails source := by
  intro offset
  obtain ⟨value, ⟨offset', rest⟩, success, holds⟩ := reads offset
  rw [result_bind, success]
  exact fails value rest holds offset'

/-- Nothing is read behind the blanks. -/
theorem Fails.afterBlanks {next : Lexeme → Reader β}
    (fails : ∀ lexeme, (next lexeme).Fails (strip source)) :
    (Reader.blanks >>= next).Fails source :=
  .after (.blanks fun _ => rfl : Reader.blanks.Reads source fun _ rest => rest = strip source)
    fun lexeme _ here => here ▸ fails lexeme

theorem Fails.both {second : Reader α} (fails : reader.Fails source)
    (fails' : second.Fails source) : (reader.orElse second).Fails source := by
  intro offset
  rw [result_orElse, fails offset, fails' offset]
  rfl

theorem Fails.rule {name : Rule} (fails : reader.Fails source) :
    (rule name reader).Fails source := by
  intro offset
  rw [result_rule]
  exact fails offset

theorem Fails.placed (fails : reader.Fails source) : (placed reader).Fails source := by
  intro offset
  rw [result_placed, fails offset]
  rfl

theorem Fails.scan {scanner : Scanner} (refuses : scanner source = none) :
    (scan scanner).Fails source := by
  intro offset
  rw [result_scan, refuses]
  rfl

theorem Fails.token {name : Rule} {scanner : Scanner} (refuses : scanner source = none) :
    (token name scanner).Fails source :=
  (Fails.scan refuses).rule

theorem Fails.literal {text : String} (refuses : Text.dropLeading? text.toList source = none) :
    (literal text).Fails source := by
  refine .scan ?_
  rw [refuses]
  rfl

/-- A literal of one character is not read where another one stands, or none. -/
theorem Fails.sign {text : String} {char : Char} (spelled : text.toList = [char])
    (other : ∀ found ∈ source.head?, found ≠ char) : (Reader.literal text).Fails source := by
  refine .literal ?_
  rw [spelled]
  cases source with
  | nil => rfl
  | cons found source => rw [Text.dropLeading?, if_neg (Ne.symm (other found rfl))]

theorem Reads.absent {final : Option α → List Char → Prop} (fails : reader.Fails source)
    (holds : final none source) : (optional reader).Reads source final :=
  Reads.right fails.map (.pure holds)

end Failure

section Repetition

variable {reader : Reader α} {items : List β} {text : β → List Char} {good : β → α → Prop}
  {rest : List Char}

/-- Up to as many pieces as are allowed are read off their texts. -/
theorem Reads.upTo {limit : Nat} {source : List Char} (enough : items.length ≤ limit)
    (same : strip source = strip (items.flatMap text ++ rest))
    (stops : reader.Fails (strip rest))
    (reads : ∀ item after, item :: after <:+ items →
      reader.Reads (strip (text item ++ (after.flatMap text ++ rest))) fun value rest' =>
        good item value ∧ strip rest' = strip (after.flatMap text ++ rest)) :
    (Reader.upTo limit (Reader.blanks *> reader)).Reads source fun values rest' =>
      List.Forall₂ good items values ∧ strip rest' = strip rest := by
  -- blanks may be left in front of each piece, so only the stripped source is known
  induction items generalizing limit source with
  | nil =>
      have done : Reads (Pure.pure []) source fun values rest' =>
          List.Forall₂ good [] values ∧ strip rest' = strip rest := .pure ⟨.nil, same⟩
      cases limit with
      | zero => exact done
      | succ limit =>
          have blank : Reader.blanks.Reads source fun _ rest' => rest' = strip rest :=
            .blanks fun _ => same
          have fails : (Reader.blanks *> reader).Fails source :=
            .after blank fun _ _ here => here ▸ stops
          exact .right fails.bind done
  | cons item after hypothesis =>
      cases limit with
      | zero => exact absurd enough (Nat.not_succ_le_zero _)
      | succ limit =>
          have blank : Reader.blanks.Reads source fun _ rest' =>
              rest' = strip (text item ++ (after.flatMap text ++ rest)) :=
            .blanks fun _ => by rw [same, List.flatMap_cons, List.append_assoc]
          have first : (Reader.blanks *> reader).Reads source fun value rest' =>
              good item value ∧ strip rest' = strip (after.flatMap text ++ rest) :=
            blank.seqRight fun _ _ here => here ▸ reads item after (List.suffix_refl _)
          refine Reads.left (first.bind fun value rest' holds => ?_)
          have others := hypothesis (Nat.le_of_succ_le_succ enough) holds.2 fun other more within =>
            reads other more (within.trans (List.suffix_cons item after))
          exact others.bind fun values rest'' holds' =>
            .pure ⟨.cons holds.1 holds'.1, holds'.2⟩

theorem strip_append {front : List Char} (solid : strip front ≠ []) (back : List Char) :
    strip (front ++ back) = strip front ++ back := by
  unfold strip at solid ⊢
  rw [List.dropWhile_append, if_neg (by simpa using solid)]

theorem length_le_length_flatMap (solid : ∀ item ∈ items, strip (text item) ≠ []) :
    items.length ≤ (items.flatMap text).length := by
  induction items with
  | nil => exact Nat.le_refl 0
  | cons item items hypothesis =>
      have some : text item ≠ [] := by
        intro none
        exact solid item List.mem_cons_self (by rw [none]; rfl)
      have positive := List.length_pos_iff.mpr some
      have others := hypothesis fun other member => solid other (List.mem_cons_of_mem _ member)
      rw [List.flatMap_cons, List.length_append, List.length_cons]
      omega

/-- As many pieces as there are are read off their texts, none of which is blank. -/
theorem Reads.many (solid : ∀ item ∈ items, strip (text item) ≠ [])
    (stops : reader.Fails (strip rest))
    (reads : ∀ item after, item :: after <:+ items →
      reader.Reads (strip (text item ++ (after.flatMap text ++ rest))) fun value rest' =>
        good item value ∧ strip rest' = strip (after.flatMap text ++ rest)) :
    (Reader.many reader).Reads (strip (items.flatMap text ++ rest)) fun values rest' =>
      List.Forall₂ good items values ∧ strip rest' = strip rest := by
  have unfolded : ∀ limit, limit = (strip (items.flatMap text ++ rest)).length →
      Reads ((do
        let value ← reader
        let values ← Reader.upTo limit (Reader.blanks *> reader)
        return value :: values).orElse (succeed [])) (strip (items.flatMap text ++ rest))
        (fun values rest' => List.Forall₂ good items values ∧ strip rest' = strip rest) := by
    intro limit bound
    cases items with
    | nil => exact .right (Fails.bind stops) (.pure ⟨.nil, strip_strip rest⟩)
    | cons item after =>
        have texts : (item :: after).flatMap text ++ rest =
            text item ++ (after.flatMap text ++ rest) := by
          rw [List.flatMap_cons, List.append_assoc]
        rw [texts] at bound ⊢
        have enough : after.length ≤ limit := by
          have others := length_le_length_flatMap fun other member =>
            solid other (List.mem_cons_of_mem item member)
          rw [bound, strip_append (solid item List.mem_cons_self), List.length_append,
            List.length_append]
          omega
        refine .left ((reads item after (List.suffix_refl _)).bind fun value rest' holds => ?_)
        have others := Reads.upTo enough holds.2 stops fun other more within =>
          reads other more (within.trans (List.suffix_cons item after))
        exact others.bind fun values rest'' holds' =>
          .pure ⟨.cons holds.1 holds'.1, holds'.2⟩
  exact fun offset => unfolded _ rfl offset

end Repetition

section Values

variable {reader : Reader α} {property : α → Prop}

theorem Yields.pure {value : α} (holds : property value) :
    Yields (Pure.pure value) property := by
  intro cursor value' behind success
  obtain ⟨rfl, rfl⟩ := Prod.mk.inj (Option.some.inj success)
  exact holds

theorem Yields.fail : Yields (fail : Reader α) property := fun _ _ _ success => nomatch success

theorem Yields.bind {next : α → Reader β} {final : β → Prop} (first : reader.Yields property)
    (second : ∀ value, property value → (next value).Yields final) :
    (reader >>= next).Yields final := by
  intro cursor value behind success
  rw [result_bind] at success
  obtain ⟨⟨value', behind'⟩, found, onward⟩ := Option.bind_eq_some_iff.mp success
  exact second value' (first cursor value' behind' found) behind' value behind onward

theorem Yields.map {change : α → β} {final : β → Prop}
    (yields : reader.Yields fun value => final (change value)) :
    (change <$> reader).Yields final :=
  yields.bind fun _ holds => .pure holds

theorem Yields.any (reader : Reader α) : reader.Yields fun _ => True :=
  fun _ _ _ _ => trivial

theorem Yields.seqRight (first : Reader β) (yields : reader.Yields property) :
    (first *> reader).Yields property :=
  Yields.bind (.any first) fun _ _ => yields

theorem Yields.orElse {second : Reader α} (yields : reader.Yields property)
    (yields' : second.Yields property) : (reader.orElse second).Yields property := by
  intro cursor value behind success
  rw [result_orElse] at success
  rcases Option.or_eq_some_iff.mp success with found | ⟨_, found⟩
  · exact yields cursor value behind found
  · exact yields' cursor value behind found

theorem Yields.rule {name : Rule} (yields : reader.Yields property) :
    (rule name reader).Yields property := by
  intro cursor value behind success
  rw [result_rule] at success
  exact yields cursor value behind success

theorem Yields.placed (yields : reader.Yields property) :
    (placed reader).Yields fun found => property found.1 := by
  intro cursor value behind success
  rw [result_placed] at success
  obtain ⟨⟨value', behind'⟩, found, same⟩ := Option.map_eq_some_iff.mp success
  obtain ⟨rfl, rfl⟩ := Prod.mk.inj same
  exact yields cursor value' behind' found

theorem Yields.token {name : Rule} {scanner : Scanner} {shape : List Char → Prop}
    (cuts : ∀ source taken rest, scanner source = some (taken, rest) → shape taken) :
    (token name scanner).Yields fun lexeme => shape lexeme.text := by
  refine Yields.rule fun cursor value behind success => ?_
  rw [result_scan] at success
  obtain ⟨⟨taken, rest⟩, cut, same⟩ := Option.map_eq_some_iff.mp success
  obtain ⟨rfl, rfl⟩ := Prod.mk.inj same
  exact cuts cursor.rest taken rest cut

theorem Yields.optional (yields : reader.Yields property) :
    (Reader.optional reader).Yields fun found => ∀ value ∈ found, property value := by
  refine .orElse (.map ?_) (.pure (by simp))
  intro cursor value behind success value' same
  obtain rfl := Option.some.inj same
  exact yields cursor value behind success

theorem Yields.upTo (yields : reader.Yields property) (limit : Nat) :
    (Reader.upTo limit reader).Yields fun values => ∀ value ∈ values, property value := by
  induction limit with
  | zero => exact .pure (by simp)
  | succ limit hypothesis =>
      refine .orElse (yields.bind fun value holds => ?_) (.pure (by simp))
      refine hypothesis.bind fun values others => .pure ?_
      exact List.forall_mem_cons.mpr ⟨holds, others⟩

theorem Yields.many (yields : reader.Yields property) :
    (Reader.many reader).Yields fun values => ∀ value ∈ values, property value := by
  intro cursor
  have unfolded : Yields ((do
      let value ← reader
      let values ← Reader.upTo cursor.rest.length (Reader.blanks *> reader)
      return value :: values).orElse (succeed []))
      (fun values => ∀ value ∈ values, property value) := by
    refine .orElse (yields.bind fun value holds => ?_) (.pure (by simp))
    refine ((yields.seqRight Reader.blanks).upTo _).bind fun values others => .pure ?_
    exact List.forall_mem_cons.mpr ⟨holds, others⟩
  exact unfolded cursor

end Values

end Reader

end TreeSelector.Grammar
