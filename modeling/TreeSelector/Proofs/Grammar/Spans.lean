import TreeSelector.Proofs.Grammar.SteadySelectors

/-!
# What stands under a span

A span covers the text between two bytes of a source that are not inside a character.  Reading
goes on through the source, so what was read covers the text from the place where it began to the
place behind it, and an error marks a text of which it says what is wrong.
-/

namespace TreeSelector

/-- The text is what the source has under the span. -/
def Span.Covers (span : Span) (source text : List Char) : Prop :=
  ∃ before after, source = before ++ (text ++ after) ∧ span.start = Text.byteLength before ∧
    span.stop = span.start + Text.byteLength text

namespace SelectorError

/-- What an error quotes from under its span. -/
def quoted? : SelectorError → Option String
  | invalidEscape sequence _ => some sequence
  | invalidWindow window _ _ => some window
  | unknownName name _ | unknownFunction name _ => some name
  | _ => none

/-- The error has some text of the source under its span, and what it quotes is that text. -/
def Marks (error : SelectorError) (source : List Char) : Prop :=
  ∃ text, error.span.Covers source text ∧ text ≠ [] ∧
    ∀ quoted ∈ error.quoted?, text = quoted.toList

end SelectorError

section Rows

variable {α β : Type} {span : α → Span} {good : α → Prop} {low mid mid' high : Nat}
  {nodes nodes' : List α}

/-- Pieces of syntax stand one behind the other between two places. -/
structure Abreast (span : α → Span) (low high : Nat) (nodes : List α) : Prop where
  inside : ∀ node ∈ nodes, low ≤ (span node).start ∧ (span node).stop ≤ high
  ordered : nodes.Pairwise fun node node' => (span node).stop ≤ (span node').start

/-- Pieces of syntax that are all as described stand one behind the other. -/
structure Row (good : α → Prop) (span : α → Span) (low high : Nat) (nodes : List α) : Prop
    extends Abreast span low high nodes where
  all : ∀ node ∈ nodes, good node

theorem Row.nil : Row good span low high [] := ⟨⟨nofun, .nil⟩, nofun⟩

theorem Row.single {node : α} (holds : good node) (first : low ≤ (span node).start)
    (last : (span node).stop ≤ high) : Row good span low high [node] :=
  ⟨⟨by simp [first, last], List.pairwise_singleton _ _⟩, by simpa using holds⟩

theorem Row.widen (row : Row good span mid mid' nodes) (first : low ≤ mid) (last : mid' ≤ high) :
    Row good span low high nodes where
  inside := fun node listed =>
    ⟨first.trans (row.inside node listed).1, (row.inside node listed).2.trans last⟩
  ordered := row.ordered
  all := row.all

/-- Two rows make one if the second one begins behind the first. -/
theorem Row.append (row : Row good span low mid nodes) (row' : Row good span mid high nodes')
    (first : low ≤ mid) (last : mid ≤ high) : Row good span low high (nodes ++ nodes') where
  inside := fun node listed => (List.mem_append.mp listed).elim
    ((row.widen le_rfl last).inside node) ((row'.widen first le_rfl).inside node)
  ordered := List.pairwise_append.mpr ⟨row.ordered, row'.ordered, fun node listed node' listed' =>
    (row.inside node listed).2.trans (row'.inside node' listed').1⟩
  all := fun node listed => (List.mem_append.mp listed).elim (row.all node) (row'.all node)

end Rows

namespace Grammar

open Reader

section Places

variable {source : List Char} {cursor behind last : Cursor} {text : List Char}

/-- One gets from the first place to the second by reading on. -/
def Cursor.Leads (cursor behind : Cursor) : Prop := ∃ taken, cursor.Takes taken behind

theorem Cursor.Leads.refl (cursor : Cursor) : cursor.Leads cursor := ⟨[], .refl cursor⟩

theorem Cursor.Leads.trans (first : cursor.Leads behind) (second : behind.Leads last) :
    cursor.Leads last := by
  obtain ⟨taken, takes⟩ := first
  obtain ⟨taken', takes'⟩ := second
  exact ⟨taken ++ taken', takes.trans takes'⟩

theorem Cursor.Leads.offset_le (leads : cursor.Leads behind) : cursor.offset ≤ behind.offset := by
  obtain ⟨taken, takes⟩ := leads
  rw [takes.offset]
  exact Nat.le_add_right _ _

theorem Cursor.Leads.offset_le_byteLength (leads : (Cursor.start source).Leads cursor) :
    cursor.offset ≤ Text.byteLength source := by
  obtain ⟨taken, takes⟩ := leads
  have whole : source = taken ++ cursor.rest := takes.rest
  have place : cursor.offset = 0 + Text.byteLength taken := takes.offset
  rw [place, whole, Text.byteLength_append, Nat.zero_add]
  exact Nat.le_add_right _ _

theorem Cursor.Takes.leads (takes : cursor.Takes text behind) : cursor.Leads behind := ⟨text, takes⟩

/-- What is taken from a place of the source is under the span that ends behind it. -/
theorem Cursor.Takes.covers (within : (Cursor.start source).Leads cursor)
    (takes : cursor.Takes text behind) :
    Span.Covers ⟨cursor.offset, behind.offset⟩ source text := by
  obtain ⟨before, front⟩ := within
  refine ⟨before, behind.rest, ?_, ?_, takes.offset⟩
  · rw [← takes.rest]
    exact front.rest
  · exact front.offset.trans (Nat.zero_add _)

end Places

section Values

variable {α β : Type} {source : List Char} {holds holds' : α → Prop} {final : β → Prop}

/-- There is a value, which is as described, or an error that marks some text of the source. -/
def Checked.Sound (source : List Char) (holds : α → Prop) : Checked α → Prop
  | .ok value => holds value
  | .error error => error.Marks source

theorem Checked.Sound.mono {checked : Checked α} (sound : checked.Sound source holds)
    (weaker : ∀ value, holds value → holds' value) : checked.Sound source holds' := by
  cases checked with
  | error error => exact sound
  | ok value => exact weaker value sound

theorem Checked.Sound.bind {checked : Checked α} {next : α → Checked β}
    (first : checked.Sound source holds)
    (second : ∀ value, holds value → (next value).Sound source final) :
    (checked >>= next).Sound source final := by
  cases checked with
  | error error => exact first
  | ok value => exact second value first

theorem Checked.Alike.of_ok {forget : α → β} {value : α} {checked : Checked α}
    (alike : Checked.Alike forget (.ok value) checked) :
    ∃ again, checked = .ok again ∧ forget again = forget value := by
  cases alike with
  | ok same => exact ⟨_, rfl, same.symm⟩

/-- Pieces that were read one behind the other, each of which is as described for the places
where it begins and ends. -/
inductive Pieces (source : List Char) (fits : Nat → Nat → α → Prop) :
    Nat → List (Checked α) → Nat → Prop
  | done {low high : Nat} (order : low ≤ high) : Pieces source fits low [] high
  | piece {low start stop high : Nat} {piece : Checked α} {pieces : List (Checked α)}
      (before : low ≤ start) (order : start ≤ stop) (sound : piece.Sound source (fits start stop))
      (onward : Pieces source fits stop pieces high) :
      Pieces source fits low (piece :: pieces) high

variable {fits : Nat → Nat → α → Prop} {low high : Nat} {pieces : List (Checked α)}

theorem Pieces.order (all : Pieces source fits low pieces high) : low ≤ high := by
  induction all with
  | done order => exact order
  | piece before order _ _ hypothesis => exact before.trans (order.trans hypothesis)

theorem Pieces.widen {first last : Nat} (all : Pieces source fits low pieces high)
    (before : first ≤ low) (after : high ≤ last) : Pieces source fits first pieces last := by
  induction all generalizing first with
  | done order => exact .done (before.trans (order.trans after))
  | piece before' order sound _ hypothesis =>
      exact .piece (before.trans before') order sound (hypothesis le_rfl after)

/-- All the pieces together have their nodes in one row. -/
theorem Pieces.all {good : β → Prop} {span : β → Span} {nodes : α → List β}
    (all : Pieces source (fun start stop value => Row good span start stop (nodes value)) low
      pieces high) :
    (Checked.all pieces).Sound source fun values =>
      Row good span low high (values.flatMap nodes) := by
  induction all with
  | done => exact Row.nil
  | @piece low start stop high _ _ before order sound onward hypothesis =>
      refine sound.bind fun value row => hypothesis.bind fun values others => ?_
      change Row good span low _ ((value :: values).flatMap nodes)
      rw [List.flatMap_cons]
      exact (row.widen before le_rfl).append others (before.trans order) onward.order

end Values

namespace Reader

section Giving

variable {α β : Type} {source : List Char} {reader : Reader α} {cursor : Cursor}
  {post : α → Cursor → Prop}

/-- What the reader gives at a place, if anything, is as described, and so is the place behind. -/
def Gives (reader : Reader α) (cursor : Cursor) (post : α → Cursor → Prop) : Prop :=
  ∀ value behind, (reader cursor).result = some (value, behind) → post value behind

theorem Gives.mono {post' : α → Cursor → Prop} (gives : reader.Gives cursor post)
    (weaker : ∀ value behind, post value behind → post' value behind) :
    reader.Gives cursor post' :=
  fun value behind success => weaker value behind (gives value behind success)

theorem Gives.pure {value : α} (holds : post value cursor) :
    (Pure.pure value : Reader α).Gives cursor post := by
  intro value' behind success
  obtain ⟨rfl, rfl⟩ := Prod.mk.inj (Option.some.inj success)
  exact holds

theorem Gives.bind {next : α → Reader β} {final : β → Cursor → Prop}
    (first : reader.Gives cursor fun value behind => (next value).Gives behind final) :
    (reader >>= next).Gives cursor final := by
  intro result last success
  obtain ⟨value, behind, read, onward⟩ := run_bind success
  exact first value behind read result last onward

theorem Gives.orElse {other : Reader α} (first : reader.Gives cursor post)
    (second : other.Gives cursor post) : (reader.orElse other).Gives cursor post := by
  intro value behind success
  rw [result_orElse] at success
  rcases Option.or_eq_some_iff.mp success with read | ⟨_, read⟩
  · exact first value behind read
  · exact second value behind read

theorem Gives.optional {post : Option α → Cursor → Prop}
    (present : reader.Gives cursor fun value behind => post (some value) behind)
    (absent : post none cursor) : (Reader.optional reader).Gives cursor post :=
  .orElse (.bind (present.mono fun _ _ => .pure)) (.pure absent)

theorem Gives.rule {name : Rule} (gives : reader.Gives cursor post) :
    (Reader.rule name reader).Gives cursor post := by
  intro value behind success
  rw [result_rule] at success
  exact gives value behind success

theorem Gives.placed {post : α × Span → Cursor → Prop}
    (gives : reader.Gives cursor fun value behind =>
      post (value, ⟨cursor.offset, behind.offset⟩) behind) :
    (Reader.placed reader).Gives cursor post := by
  intro found last success
  rw [result_placed] at success
  obtain ⟨⟨value, behind⟩, read, same⟩ := Option.map_eq_some_iff.mp success
  obtain ⟨rfl, rfl⟩ := Prod.mk.inj same
  exact gives value behind read

theorem Gives.blanks {post : Lexeme → Cursor → Prop}
    (onward : ∀ gap behind, cursor.Leads behind → strip behind.rest = behind.rest →
      post gap behind) : Reader.blanks.Gives cursor post := by
  intro gap behind success
  obtain ⟨_, takes, stripped⟩ := run_blanks success
  exact onward gap behind takes.leads (by rw [stripped, strip_strip])

theorem Gives.scan {scanner : Scanner} {post : Lexeme → Cursor → Prop}
    (splits : ∀ {source taken rest}, scanner source = some (taken, rest) → source = taken ++ rest)
    (onward : ∀ text behind, cursor.Takes text behind →
      post ⟨text, cursor.offset, behind.offset⟩ behind) : (Reader.scan scanner).Gives cursor post := by
  intro lexeme behind success
  rw [result_scan] at success
  obtain ⟨⟨text, rest⟩, cut, same⟩ := Option.map_eq_some_iff.mp success
  obtain ⟨rfl, rfl⟩ := Prod.mk.inj same
  exact onward text ⟨_, rest⟩ ⟨splits cut, rfl⟩

theorem Gives.sign {text : String} {post : Lexeme → Cursor → Prop}
    (onward : ∀ lexeme behind, cursor.Takes text.toList behind → post lexeme behind) :
    (literal text).Gives cursor post := by
  intro lexeme behind success
  rw [literal, result_scan] at success
  obtain ⟨⟨taken, rest⟩, cut, same⟩ := Option.map_eq_some_iff.mp success
  obtain ⟨rfl, rfl⟩ := Prod.mk.inj same
  obtain ⟨rfl, split⟩ := Token.exactly_eq_some cut
  exact onward _ _ ⟨split, rfl⟩

theorem Gives.spelled {post : α × Lexeme → Cursor → Prop}
    (gives : reader.Gives cursor fun value behind => ∃ text, cursor.Takes text behind ∧
      post (value, ⟨text, cursor.offset, behind.offset⟩) behind) :
    (spelled reader).Gives cursor post := by
  intro found last success
  rw [result_spelled] at success
  obtain ⟨⟨value, behind⟩, read, same⟩ := Option.map_eq_some_iff.mp success
  obtain ⟨rfl, rfl⟩ := Prod.mk.inj same
  obtain ⟨text, takes, holds⟩ := gives value behind read
  have taken : cursor.rest.take (cursor.rest.length - behind.rest.length) = text := by
    rw [takes.rest, List.length_append, Nat.add_sub_cancel, List.take_left]
  rwa [taken]

theorem Gives.many {post : List α → Cursor → Prop} (solid : strip cursor.rest = cursor.rest)
    (onward : ∀ values last, Run reader cursor values last → post values last) :
    (Reader.many reader).Gives cursor post :=
  fun values last success => onward values last (run_many solid success)

/-- Wherever in the source there is no blank, the reader reads on, and what it gives is as
described for the places where it begins and ends. -/
def Tells (source : List Char) (reader : Reader α) (holds : Nat → Nat → α → Prop) : Prop :=
  ∀ cursor, (Cursor.start source).Leads cursor → strip cursor.rest = cursor.rest →
    reader.Gives cursor fun value behind =>
      cursor.Leads behind ∧ holds cursor.offset behind.offset value

variable {fits : Nat → Nat → β → Prop} {checked : α → Checked β}

/-- A run of pieces that are as described reads on through them. -/
theorem Run.pieces (tells : reader.Tells source fun start stop value =>
      (checked value).Sound source (fits start stop)) {last : Cursor} {values : List α}
    (run : Run reader cursor values last) (within : (Cursor.start source).Leads cursor) :
    cursor.Leads last ∧
      Pieces source fits cursor.offset (values.map checked) last.offset := by
  induction run with
  | done cursor => exact ⟨.refl cursor, .done le_rfl⟩
  | piece skipped read _ hypothesis =>
      obtain ⟨_, gap, stripped⟩ := run_blanks skipped
      obtain ⟨leads, sound⟩ := tells _ (within.trans gap.leads) (by rw [stripped, strip_strip])
        _ _ read
      obtain ⟨onward, pieces⟩ := hypothesis (within.trans (gap.leads.trans leads))
      exact ⟨gap.leads.trans (leads.trans onward),
        .piece gap.leads.offset_le leads.offset_le sound pieces⟩

/-- A run can be taken apart in front of its last piece. -/
theorem Run.concat {last : Cursor} {values : List α} {value : α}
    (run : Run reader cursor (values ++ [value]) last) :
    ∃ mid gap start, Run reader cursor values mid ∧
      (Reader.blanks mid).result = some (gap, start) ∧
        (reader start).result = some (value, last) := by
  induction values generalizing cursor with
  | nil =>
      cases run with
      | piece skipped read onward =>
          cases onward
          exact ⟨_, _, _, .done _, skipped, read⟩
  | cons first values hypothesis =>
      cases run with
      | piece skipped read onward =>
          obtain ⟨mid, gap, start, front, skipped', read'⟩ := hypothesis onward
          exact ⟨mid, gap, start, .piece skipped read front, skipped', read'⟩

end Giving

section Rereading

variable {α : Type} {twins : Nat → Reader (Checked α)}

/-- Read by itself, the text gives a value as described, and nothing is left. -/
def Rereads (twins : Nat → Reader (Checked α)) (text : List Char) (same : α → Prop) : Prop :=
  ∃ value behind, (twins (text.length + 1) (Cursor.start text)).result = some (.ok value, behind) ∧
    behind.rest = [] ∧ same value

theorem rereads_of_reads {text : List Char} {same : α → Prop}
    (reads : (twins (text.length + 1)).Reads text fun checked rest =>
      rest = [] ∧ ∃ value, checked = .ok value ∧ same value) : Rereads twins text same := by
  obtain ⟨checked, behind, success, none, value, rfl, holds⟩ := reads 0
  exact ⟨value, behind, success, none, holds⟩

/-- What a steady reader has taken gives the same value by itself. -/
theorem Steady.rereads {β : Type} {reader : Reader (Checked α)} {forget : α → β}
    {opens ends : Option Char → Prop}
    (steady : Steady reader twins id opens ends fun _ => Checked.Alike forget) (ending : ends none)
    {cursor behind : Cursor} {value : α} (solid : strip cursor.rest = cursor.rest)
    (read : (reader cursor).result = some (.ok value, behind)) :
    ∃ text, cursor.Takes text behind ∧ opens (ahead text) ∧
      Rereads twins text fun again => forget again = forget value := by
  obtain ⟨text, takes, opening, again⟩ := steady.again solid read
  refine ⟨text, takes, opening, rereads_of_reads ?_⟩
  have reads := again (text.length + 1) [] ⟨nofun, fun _ => rfl⟩ ending
    (by rw [List.append_nil]; exact Nat.lt_succ_self _)
  rw [List.append_nil] at reads
  refine reads.mono fun checked rest holds => ⟨holds.2.of_nil, ?_⟩
  exact holds.1.of_ok

end Rereading

end Reader

end Grammar

end TreeSelector
