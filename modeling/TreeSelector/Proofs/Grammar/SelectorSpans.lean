import TreeSelector.Proofs.Grammar.OperandSpans

/-!
# Spans of comparisons, segments and selectors

The text under the span of a comparison or of a segment, read by itself, gives the same piece of
syntax again.  The operands of a comparison stand side by side inside its span, and so do the
comparisons of a segment and the segments of a selector.  A source that is refused for what it
says, not for its form, has an error that marks some of its text.
-/

namespace TreeSelector

open Grammar Reader

/-- The text under the span of the comparison reads as the comparison, and its operands are
faithful too and stand side by side inside the span. -/
structure Comparison.Faithful (source : List Char) (comparison : Comparison) : Prop where
  written : ∃ text, comparison.span.Covers source text ∧ text ≠ [] ∧
    Rereads Grammar.comparison text fun again => again.unplaced = .compare comparison.unplaced
  left : comparison.left.Faithful source
  right : comparison.right.Faithful source
  abreast : Abreast Operand.span comparison.span.start comparison.span.stop
    [comparison.left, comparison.right]

/-- The text under the span of the segment reads as the segment, and its comparisons are faithful
too and stand side by side inside the span. -/
structure Segment.Faithful (source : List Char) (segment : Segment) : Prop where
  written : ∃ text, segment.span.Covers source text ∧ text ≠ [] ∧
    Rereads Grammar.segment text fun again => again.unplaced = segment.unplaced
  comparisons : ∀ comparison ∈ segment.predicate.comparisons, comparison.Faithful source
  abreast : Abreast Comparison.span segment.span.start segment.span.stop
    segment.predicate.comparisons

/-- The segments of the chain are faithful and stand side by side in the source, where they are
written the other way round. -/
structure Chain.Faithful (source : List Char) (chain : Chain) : Prop where
  segments : ∀ segment ∈ chain.segments, segment.Faithful source
  abreast : Abreast Segment.span 0 (Text.byteLength source) chain.segments.reverse

namespace Grammar

variable {source : List Char}

section Comparisons

/-- The comparisons of the predicate stand between two places. -/
def PredicateFits (source : List Char) (start stop : Nat) (checked : Checked Predicate) : Prop :=
  checked.Sound source fun predicate =>
    Row (Comparison.Faithful source) Comparison.span start stop predicate.comparisons

theorem PredicateFits.widen {start stop low high : Nat} {checked : Checked Predicate}
    (fits : PredicateFits source start stop checked) (first : low ≤ start) (last : stop ≤ high) :
    PredicateFits source low high checked :=
  fits.mono fun _ row => row.widen first last

/-- A pattern changes neither where a text stands nor what is read there by itself. -/
theorem withPattern_sound {relation : Relation} {right : Operand} (faithful : right.Faithful source) :
    (withPattern relation right).Sound source fun patterned =>
      patterned.Faithful source ∧ patterned.span = right.span := by
  cases right with
  | text value pattern span =>
      unfold withPattern
      dsimp only
      split
      · cases Pattern.compile? value with
        | none =>
            obtain ⟨text, covers, some⟩ := faithful.covers
            exact ⟨text, covers, some, nofun⟩
        | some pattern =>
            cases faithful with
            | intro covers some named again children abreast =>
                exact ⟨.intro covers some nofun again children abreast, rfl⟩
      · exact ⟨faithful, rfl⟩
  | _ => exact ⟨faithful, rfl⟩

/-- The comparison that was read of two operands, unless one of them is wrong. -/
def compared (left : Checked Operand) (relation : Relation) (right : Checked Operand)
    (span : Span) : Checked Predicate := do
  let left ← left
  let right ← right
  return .compare ⟨left, relation, ← withPattern relation right, span⟩

theorem comparison_gives (depth : Nat) {cursor : Cursor}
    (within : (Cursor.start source).Leads cursor) (solid : strip cursor.rest = cursor.rest) :
    (comparison depth).Gives cursor fun checked last => cursor.Leads last ∧
      ∃ left relation right mid, OperandFits source cursor.offset mid left ∧
        OperandFits source mid last.offset right ∧ cursor.offset ≤ mid ∧ mid ≤ last.offset ∧
        checked = compared left relation right ⟨cursor.offset, last.offset⟩ := by
  refine .bind (.placed (.rule (.bind ((operand_tells source depth cursor within solid).mono
    fun left behind holds => .bind (.blanks fun _ start gap _ => .bind (.rule (.scan ?_
      fun lexeme next takes => .bind (.blanks fun _ start' gap' solid' => ?_))))))))
  · exact fun cut => (relation_cuts.split cut).1
  · have before := holds.1.trans (gap.trans (takes.leads.trans gap'))
    have between := gap.trans (takes.leads.trans gap')
    refine .bind ((operand_tells source depth start' (within.trans before) solid').mono
      fun right last holds' => .pure (.pure ?_))
    refine ⟨before.trans holds'.1, left, _, right, start'.offset, ?_, holds'.2, before.offset_le,
      holds'.1.offset_le, rfl⟩
    exact holds.2.widen le_rfl between.offset_le

theorem compared_sound {left right : Checked Operand} {relation : Relation} {start mid stop : Nat}
    (fits : OperandFits source start mid left) (fits' : OperandFits source mid stop right)
    (before : start ≤ mid) (after : mid ≤ stop)
    (written : ∀ predicate, compared left relation right ⟨start, stop⟩ = .ok predicate →
      ∃ text, Span.Covers ⟨start, stop⟩ source text ∧ text ≠ [] ∧
        Rereads Grammar.comparison text fun again => again.unplaced = predicate.unplaced) :
    PredicateFits source start stop (compared left relation right ⟨start, stop⟩) := by
  cases left with
  | error error => exact fits
  | ok left =>
      cases right with
      | error error => exact fits'
      | ok right =>
          have whole : compared (.ok left) relation (.ok right) ⟨start, stop⟩ =
              withPattern relation right >>= fun patterned =>
                .ok (.compare ⟨left, relation, patterned, ⟨start, stop⟩⟩) := rfl
          have sound := @withPattern_sound source relation right (fits'.all right (by simp))
          rw [whole] at written ⊢
          cases made : withPattern relation right with
          | error error =>
              rw [made] at sound
              exact sound
          | ok patterned =>
              rw [made] at sound written
              have place := fits'.inside right (by simp)
              rw [← sound.2] at place
              have row := Row.append fits (.single sound.1 place.1 place.2) before after
              have all : Comparison.Faithful source ⟨left, relation, patterned, ⟨start, stop⟩⟩ :=
                ⟨written _ rfl, fits.all left (by simp), sound.1, row.toAbreast⟩
              exact .single all le_rfl le_rfl

/-- Whatever comparison is read stands where it was read. -/
theorem comparison_tells (source : List Char) (depth : Nat) :
    (comparison depth).Tells source (PredicateFits source) := by
  intro cursor within solid checked last success
  obtain ⟨leads, left, relation, right, mid, fits, fits', before, after, rfl⟩ :=
    comparison_gives depth within solid checked last success
  refine ⟨leads, compared_sound fits fits' before after fun predicate made => ?_⟩
  rw [made] at success
  obtain ⟨text, takes, opening, again⟩ :=
    (comparison_steady depth).rereads ⟨nofun, nofun⟩ solid success
  refine ⟨text, takes.covers within, ?_, again⟩
  rintro rfl
  exact not_beginsOperand_none opening

end Comparisons

section Predicates

theorem comparisons_combineFrom (pending : Option Predicate) (current : Predicate)
    (others : List (Junction × Predicate)) :
    (combineFrom pending current others).comparisons =
      (pending.map Predicate.comparisons).getD [] ++
        (current.comparisons ++ others.flatMap fun other => other.2.comparisons) := by
  fun_induction combineFrom pending current others with
  | case1 pending current =>
      cases pending <;> simp [Predicate.comparisons]
  | case2 pending current next others hypothesis =>
      rw [hypothesis]
      simp [Predicate.comparisons]
  | case3 pending current next others hypothesis =>
      rw [hypothesis]
      cases pending <;> simp [Predicate.comparisons]

/-- Whichever way predicates are combined, their comparisons stay in order. -/
theorem comparisons_combine (first : Predicate) (others : List (Junction × Predicate)) :
    (combine first others).comparisons =
      first.comparisons ++ others.flatMap fun other => other.2.comparisons :=
  comparisons_combineFrom none first others

variable {inner : Reader (Checked Predicate)}

theorem group_tells (tells : inner.Tells source (PredicateFits source)) :
    (group inner).Tells source (PredicateFits source) := by
  intro cursor within _
  refine .bind (.sign fun _ opening takes => .bind (.blanks fun _ start gap solid => ?_))
  have before := takes.leads.trans gap
  refine .bind ((tells start (within.trans before) solid).mono fun predicate behind holds => ?_)
  refine .bind (.blanks fun _ next gap' _ => .bind (.sign fun _ last takes' => .pure ?_))
  have after := gap'.trans takes'.leads
  exact ⟨before.trans (holds.1.trans after), holds.2.widen before.offset_le after.offset_le⟩

theorem junction_gives {cursor : Cursor} (solid : strip cursor.rest = cursor.rest) :
    junction.Gives cursor fun _ behind => cursor.Leads behind := by
  intro value behind success
  obtain ⟨_, takes, _⟩ := (@junction_steady Unit fun _ => 0).again solid success
  exact takes.leads

theorem predicateAround_tells (depth : Nat) (tells : inner.Tells source (PredicateFits source)) :
    (predicateAround depth inner).Tells source (PredicateFits source) := by
  have term : ((group inner).orElse (comparison depth)).Tells source (PredicateFits source) :=
    fun cursor within solid => .orElse (group_tells tells cursor within solid)
      (comparison_tells source depth cursor within solid)
  have joined : Tells source (do
      let junction ← junction
      let _ ← blanks
      let next ← (group inner).orElse (comparison depth)
      return (junction, next)) fun start stop joined =>
        Checked.Sound source (fun pair : Junction × Predicate =>
          Row (Comparison.Faithful source) Comparison.span start stop pair.2.comparisons)
          ((joined.1, ·) <$> joined.2) := by
    intro cursor within solid
    refine .bind ((junction_gives solid).mono fun junction behind leads => ?_)
    refine .bind (.blanks fun _ start gap solid' => ?_)
    have before := leads.trans gap
    refine .bind ((term start (within.trans before) solid').mono fun next last holds => .pure ?_)
    refine ⟨before.trans holds.1, ?_⟩
    exact holds.2.bind fun _ row => row.widen before.offset_le le_rfl
  intro cursor within solid
  refine .rule (.bind ((term cursor within solid).mono fun first behind holds => ?_))
  refine .bind (.blanks fun _ start gap solid' => .bind (.many solid' fun others last run => ?_))
  obtain ⟨leads, pieces⟩ := run.pieces joined (within.trans (holds.1.trans gap))
  refine .pure ⟨holds.1.trans (gap.trans leads), ?_⟩
  refine holds.2.bind fun first row => pieces.all.bind fun others rows => ?_
  have both := row.append (rows.widen gap.offset_le le_rfl) holds.1.offset_le
    (gap.trans leads).offset_le
  rw [← comparisons_combine] at both
  exact both

/-- The comparisons of a predicate stand side by side where it was read. -/
theorem predicate_tells (source : List Char) (depth nesting : Nat) :
    (predicate depth nesting).Tells source (PredicateFits source) := by
  induction nesting with
  | zero => exact nofun
  | succ nesting hypothesis => exact predicateAround_tells depth hypothesis

end Predicates

section Windows

theorem checkedWindow_sound {lexeme : Lexeme} (covers : lexeme.span.Covers source lexeme.text)
    (some : lexeme.text ≠ []) (bounds : Bounds) :
    (checkedWindow lexeme.content lexeme.span bounds).Sound source fun _ => True := by
  have marks : ∀ fault,
      (SelectorError.invalidWindow lexeme.content fault lexeme.span).Marks source := by
    refine fun fault => ⟨lexeme.text, covers, some, fun quoted same => ?_⟩
    obtain rfl := Option.some.inj same
    exact String.toList_ofList.symm
  unfold checkedWindow
  cases bounds.window? with
  | none => exact marks .boundTooLarge
  | some window =>
      dsimp only
      split
      · exact marks .boundsReversed
      · trivial

theorem window_gives {cursor : Cursor} (within : (Cursor.start source).Leads cursor) :
    window.Gives cursor fun checked behind => cursor.Leads behind ∧
      checked.Sound source fun _ => True := by
  refine .bind (.spelled (.rule (.bind (.sign fun _ opening takes => .bind
    (.blanks fun _ start gap solid => .bind ?_)))))
  intro bounds behind read
  obtain ⟨_, takes', _⟩ := (@bounds_steady Unit fun _ => 0).again solid read
  refine .bind (.blanks fun _ next gap' _ => .bind (.sign fun _ last takes'' => .pure ?_))
  obtain ⟨text, onward⟩ := gap.trans (takes'.leads.trans (gap'.trans takes''.leads))
  have whole := takes.trans onward
  refine ⟨_, whole, .pure ⟨whole.leads, ?_⟩⟩
  exact @checkedWindow_sound source ⟨_, _⟩ (whole.covers within) (by simp) bounds

end Windows

section Segments

/-- The segment stands between two places. -/
def SegmentFits (source : List Char) (start stop : Nat) (checked : Checked Segment) : Prop :=
  checked.Sound source fun segment =>
    Row (Segment.Faithful source) Segment.span start stop [segment]

/-- The segment that was read of a predicate and a window, unless one of them is wrong. -/
def assembled (target : Bool) (predicate : Checked Predicate) (window : Option (Checked Window))
    (span : Span) : Checked Segment := do
  let predicate ← predicate
  match window with
  | some window => return ⟨target, predicate, some (← window), span⟩
  | none => return ⟨target, predicate, none, span⟩

theorem segment_gives (depth : Nat) {cursor : Cursor}
    (within : (Cursor.start source).Leads cursor) (solid : strip cursor.rest = cursor.rest) :
    (segment depth).Gives cursor fun checked last => ∃ target predicate window,
      PredicateFits source cursor.offset last.offset predicate ∧
        (∀ written ∈ window, Checked.Sound source (fun _ : Window => True) written) ∧
        checked = assembled target predicate window ⟨cursor.offset, last.offset⟩ := by
  refine .bind (.placed (.rule (.bind ?_)))
  intro target behind marked
  obtain ⟨_, takes, _⟩ := (@target_steady Unit fun _ => 0).again solid marked
  refine .bind (.blanks fun _ next gap _ => .bind (.sign fun _ opened takes' => .bind
    (.blanks fun _ start gap' solid' => .bind ?_)))
  have before := takes.leads.trans (gap.trans (takes'.leads.trans gap'))
  refine (predicate_tells source depth depth start (within.trans before) solid').mono
    fun predicate behind' holds => ?_
  refine .bind (.blanks fun _ next' gap'' _ => .bind (.sign fun _ closed takes'' => .bind
    (.blanks fun _ last spare _ => .bind (.optional ?_ ?_))))
  · have inside := before.trans (holds.1.trans (gap''.trans (takes''.leads.trans spare)))
    refine (window_gives (within.trans inside)).mono fun window stopped holds' => .pure (.pure ?_)
    have after := gap''.trans (takes''.leads.trans (spare.trans holds'.1))
    refine ⟨_, predicate, some window, holds.2.widen before.offset_le after.offset_le, ?_, rfl⟩
    intro written same
    exact Option.some.inj same ▸ holds'.2
  · have after := gap''.trans (takes''.leads.trans spare)
    exact .pure (.pure ⟨_, predicate, none, holds.2.widen before.offset_le after.offset_le, nofun,
      rfl⟩)

theorem assembled_sound {target : Bool} {predicate : Checked Predicate}
    {window : Option (Checked Window)} {start stop : Nat}
    (fits : PredicateFits source start stop predicate)
    (bounded : ∀ written ∈ window, Checked.Sound source (fun _ : Window => True) written)
    (written : ∀ segment, assembled target predicate window ⟨start, stop⟩ = .ok segment →
      ∃ text, Span.Covers ⟨start, stop⟩ source text ∧ text ≠ [] ∧
        Rereads Grammar.segment text fun again => again.unplaced = segment.unplaced) :
    SegmentFits source start stop (assembled target predicate window ⟨start, stop⟩) := by
  cases predicate with
  | error error => exact fits
  | ok predicate =>
      cases window with
      | none => exact .single ⟨written _ rfl, fits.all, fits.toAbreast⟩ le_rfl le_rfl
      | some window =>
          cases window with
          | error error => exact bounded _ rfl
          | ok window => exact .single ⟨written _ rfl, fits.all, fits.toAbreast⟩ le_rfl le_rfl

/-- Whatever segment is read stands where it was read. -/
theorem segment_tells (source : List Char) (depth : Nat) :
    (segment depth).Tells source (SegmentFits source) := by
  intro cursor within solid checked last success
  obtain ⟨_, takes, _⟩ := (segment_steady depth).again solid success
  obtain ⟨target, predicate, window, fits, bounded, rfl⟩ :=
    segment_gives depth within solid checked last success
  refine ⟨takes.leads, assembled_sound fits bounded fun segment made => ?_⟩
  rw [made] at success
  obtain ⟨text, takes, opening, again⟩ := (segment_steady depth).rereads nofun solid success
  refine ⟨text, takes.covers within, ?_, again⟩
  rintro rfl
  exact not_beginsSegment_none opening

/-- A segment behind its connector stands between two places. -/
def JoinedFits (source : List Char) (start stop : Nat) (joined : Connector × Segment) : Prop :=
  Row (Segment.Faithful source) Segment.span start stop [joined.2]

theorem joined_tells (source : List Char) (depth : Nat) : Tells source (do
      let connector ← connector
      let _ ← blanks
      let next ← segment depth
      return (connector, next)) fun start stop joined =>
        Checked.Sound source (JoinedFits source start stop) ((joined.1, ·) <$> joined.2) := by
  intro cursor within solid
  refine .bind fun connector behind read => .bind (.blanks fun _ start gap solid' => ?_)
  have before := (run_connector read).leads.trans gap
  refine .bind ((segment_tells source depth start (within.trans before) solid').mono
    fun next last holds => .pure ⟨before.trans holds.1, ?_⟩)
  exact holds.2.bind fun _ row => row.widen before.offset_le le_rfl

/-- The segments of a source stand side by side in it. -/
theorem writtenSelector_gives (source : List Char) (depth : Nat) :
    (writtenSelector depth).Gives (Cursor.start source) fun written _ =>
      ∃ mid, SegmentFits source 0 mid written.1 ∧
        Pieces source (JoinedFits source) mid
          (written.2.map fun joined => (joined.1, ·) <$> joined.2) (Text.byteLength source) := by
  refine .rule (.bind (.blanks fun _ cursor gap solid => .bind ((segment_tells source depth cursor
    gap solid).mono fun first behind holds => .bind (.blanks fun _ start gap' solid' => .bind
      (.many solid' fun others last run => .bind (.blanks fun _ next gap'' _ => .bind ?_))))))
  obtain ⟨leads, pieces⟩ :=
    run.pieces (joined_tells source depth) (gap.trans (holds.1.trans gap'))
  intro lexeme last' ended
  refine .pure ⟨behind.offset, ?_, ?_⟩
  · exact holds.2.mono fun _ row => row.widen (Nat.zero_le _) le_rfl
  · have within := gap.trans (holds.1.trans (gap'.trans leads))
    exact pieces.widen gap'.offset_le within.offset_le_byteLength

/-- A chain that is extended by segments behind it is faithful still. -/
theorem extendChecked_sound {targeted : Bool} {chain : Chain} {low : Nat}
    {others : List (Connector × Checked Segment)}
    (row : Row (Segment.Faithful source) Segment.span 0 low chain.segments.reverse)
    (pieces : Pieces source (JoinedFits source) low
      (others.map fun joined => (joined.1, ·) <$> joined.2) (Text.byteLength source)) :
    (extendChecked targeted chain others).Sound source (Chain.Faithful source) := by
  induction others generalizing targeted chain low with
  | nil =>
      have whole := row.widen le_rfl pieces.order
      exact ⟨fun segment listed => whole.all segment (List.mem_reverse.mpr listed), whole.toAbreast⟩
  | cons other others hypothesis =>
      obtain ⟨connector, segment⟩ := other
      cases pieces with
      | piece before order sound onward =>
          cases segment with
          | error error => exact sound
          | ok segment =>
              have fits : SegmentFits source _ _ (.ok segment) := sound
              refine fits.bind fun segment fits => ?_
              cases second : targeted && segment.target with
              | true =>
                  obtain ⟨text, covers, some, _⟩ := (fits.all segment (by simp)).written
                  exact ⟨text, covers, some, nofun⟩
              | false =>
                  refine hypothesis ?_ onward
                  rw [Chain.segments, List.reverse_cons]
                  exact row.append (fits.widen before le_rfl) (Nat.zero_le _) (before.trans order)

theorem checkedChain_sound {first : Checked Segment} {mid : Nat}
    {others : List (Connector × Checked Segment)} (fits : SegmentFits source 0 mid first)
    (pieces : Pieces source (JoinedFits source) mid
      (others.map fun joined => (joined.1, ·) <$> joined.2) (Text.byteLength source)) :
    (checkedChain first others).Sound source (Chain.Faithful source) := by
  refine fits.bind fun segment row => ?_
  cases segment.window with
  | some window =>
      obtain ⟨text, covers, some, _⟩ := (row.all segment (by simp)).written
      exact ⟨text, covers, some, nofun⟩
  | none => exact extendChecked_sound row pieces

/-- What the grammar accepts is a faithful chain, or its error marks some of the source. -/
theorem checkedChain_of_read {source : List Char} {written behind}
    (accepted : (Grammar.read source).result = some (written, behind)) :
    (checkedChain written.1 written.2).Sound source (Chain.Faithful source) := by
  obtain ⟨mid, fits, pieces⟩ := writtenSelector_gives source _ written behind accepted
  exact checkedChain_sound fits pieces

theorem refused_or_sound (source : String) : (Grammar.read source.toList).result = none ∨
    Checked.Sound source.toList (Chain.Faithful source.toList) (Chain.parse source) := by
  rw [parse_eq]
  cases accepted : (Grammar.read source.toList).result with
  | none => exact .inl rfl
  | some found => exact .inr (checkedChain_of_read accepted)

end Segments

end Grammar

namespace Chain

/-- A chain that was read has spans that are faithful to its source: what stands under them reads
as the piece of syntax they belong to, and pieces stand side by side in the bigger ones. -/
theorem faithful_of_parse {source : String} {chain : Chain}
    (parsed : Chain.parse source = .ok chain) : chain.Faithful source.toList := by
  rcases refused_or_sound source with refused | sound
  · rw [parse_eq, refused] at parsed
    cases parsed
  · rwa [parsed] at sound

/-- A source with pieces of all kinds, and with characters of more than one byte. -/
def nestedSource : String :=
  "[ vid = 'é' && (a . b( 'ü',0 ).c = 1 )] < @[text~='(?is)ß.*']\x7b1,\x7d"

theorem faithful_of_parse_nestedSource : ∃ chain, Chain.parse nestedSource = .ok chain ∧
    chain.Faithful nestedSource.toList := by
  have accepted : (Chain.parse nestedSource).toOption.isSome = true := by decide +kernel
  cases parsed : Chain.parse nestedSource with
  | error error =>
      rw [parsed] at accepted
      cases accepted
  | ok chain => exact ⟨chain, rfl, faithful_of_parse parsed⟩

end Chain

end TreeSelector
