import Mathlib.Data.List.Induction
import TreeSelector.Proofs.Grammar.Spans
import TreeSelector.Proofs.Text.Escapes

/-!
# Spans of operands

The text under the span of an operand, read by itself, gives the operand again.  An operand grows
from its first literal or name by one suffix after the other, and each time its span grows with
it, so the operands it is made of stand side by side inside its own span.
-/

namespace TreeSelector

open Grammar Reader

namespace Operand

/-- The operand as it is read where no relation asks for a pattern. -/
def bare : Operand → Operand
  | text value _ span => text value none span
  | other => other

/-- The operands that an operand is made of, in written order.  What is called is one of them. -/
def children : Operand → List Operand
  | member object _ _ => [object]
  | call function functionSpan arguments _ => reference function functionSpan :: arguments
  | invoke object method methodSpan arguments _ => member object method methodSpan :: arguments
  | _ => []

/-- The text under the span of the operand reads as the operand, a name is that text, and the same
goes for the children of the operand, which stand side by side inside the span. -/
inductive Faithful (source : List Char) : Operand → Prop
  | intro {operand : Operand} {text : List Char} (covers : operand.span.Covers source text)
      (some : text ≠ [])
      (named : ∀ name span, operand = .reference name span → text = name.spelling.toList)
      (again : Rereads Grammar.operand text fun again => again.unplaced = operand.bare.unplaced)
      (children : ∀ child ∈ operand.children, Faithful source child)
      (abreast : Abreast span operand.span.start operand.span.stop operand.children) :
      Faithful source operand

variable {source : List Char} {operand : Operand}

theorem Faithful.covers (faithful : operand.Faithful source) :
    ∃ text, operand.span.Covers source text ∧ text ≠ [] := by
  cases faithful with
  | intro covers some => exact ⟨_, covers, some⟩

end Operand

theorem Span.Covers.inner {source front text back : List Char} {span : Span}
    (covers : span.Covers source (front ++ (text ++ back))) :
    Span.Covers ⟨span.start + Text.byteLength front,
      span.start + Text.byteLength front + Text.byteLength text⟩ source text := by
  obtain ⟨before, after, rfl, start, _⟩ := covers
  refine ⟨before ++ front, back ++ after, by simp, ?_, rfl⟩
  rw [start, Text.byteLength_append]

namespace Grammar

variable {source : List Char}

section Literals

/-- A literal or a name that stands under a span. -/
structure Atomic (text : List Char) (span : Span) (operand : Operand) : Prop where
  span : operand.span = span
  children : operand.children = []
  bare : operand.bare = operand
  named : ∀ name place, operand = .reference name place → text = name.spelling.toList

theorem integerOf_sound {lexeme : Lexeme} (covers : lexeme.span.Covers source lexeme.text)
    (some : lexeme.text ≠ []) :
    (integerOf lexeme).Sound source (Atomic lexeme.text lexeme.span) := by
  unfold integerOf
  cases (Text.Radix.integer? 10 lexeme.text).bind Text.int32? with
  | none => exact ⟨_, covers, some, nofun⟩
  | some value => exact ⟨rfl, rfl, rfl, nofun⟩

/-- A bad escape is marked in the body of the literal. -/
theorem textOf_sound {lexeme : Lexeme} {rest rest' : List Char}
    (cut : Token.text rest = some (lexeme.text, rest'))
    (covers : lexeme.span.Covers source lexeme.text) :
    (textOf lexeme).Sound source (Atomic lexeme.text lexeme.span) := by
  obtain ⟨quote, quotes, cut⟩ := Token.string_of_text cut
  obtain ⟨body, shape, _⟩ := Token.string_eq_some cut
  have inside : lexeme.body = body := by
    unfold Lexeme.body
    rw [shape]
    simp
  unfold textOf
  rw [inside]
  cases read : Text.Escape.decode body with
  | ok value => exact ⟨rfl, rfl, rfl, nofun⟩
  | error bad =>
      obtain ⟨before, sequence, after, split, start, stop, reported, some⟩ :=
        Text.Escape.decodeFrom_error read
      have single : Text.byteLength (quote :: before) = 1 + Text.byteLength before := by
        rcases quotes with rfl | rfl <;> rfl
      have whole : lexeme.text = (quote :: before) ++ (sequence ++ (after ++ [quote])) := by
        rw [shape, split]
        simp
      have place := (whole ▸ covers).inner
      rw [single] at place
      refine ⟨sequence, ?_, some, fun quoted same => ?_⟩
      · have first : lexeme.span.start + 1 + bad.start =
            lexeme.span.start + (1 + Text.byteLength before) := by omega
        have last : lexeme.span.start + 1 + bad.stop =
            lexeme.span.start + (1 + Text.byteLength before) + Text.byteLength sequence := by omega
        dsimp only [SelectorError.span]
        rwa [first, last]
      · obtain rfl := Option.some.inj same
        rw [reported, String.toList_ofList]

theorem primary_describes : ReadsLexeme primary fun text make =>
    ∀ span, span.Covers source text → text ≠ [] →
      (make span).Sound source (Atomic text span) := by
  refine .orElse (.token Token.isLexical_null fun _ _ _ _ => ⟨rfl, rfl, rfl, nofun⟩) ?_
  refine .orElse (.token Token.isLexical_boolean fun _ _ _ _ => ⟨rfl, rfl, rfl, nofun⟩) ?_
  refine .orElse (.token Token.isLexical_integer fun _ _ covers some =>
    integerOf_sound covers some) ?_
  refine .orElse (.token Token.isLexical_text fun cut _ covers _ => textOf_sound cut covers) ?_
  refine .token Token.isLexical_identifier fun _ _ _ _ => ⟨rfl, rfl, rfl, ?_⟩
  intro name place same
  obtain ⟨rfl, _⟩ := Operand.reference.inj same
  rw [Name.spelling_ofSpelling, Lexeme.content, String.toList_ofList]

/-- A literal or a name is under the span from where it begins to where it ends. -/
theorem primary_gives {cursor : Cursor} (within : (Cursor.start source).Leads cursor) :
    primary.Gives cursor fun checked behind => ∃ text, cursor.Takes text behind ∧ text ≠ [] ∧
      checked.Sound source (Atomic text ⟨cursor.offset, behind.offset⟩) := by
  intro checked behind success
  obtain ⟨value?, described, equation⟩ := @primary_describes source
  rw [equation] at success
  obtain ⟨⟨text, rest⟩, cut, found⟩ := Option.bind_eq_some_iff.mp success
  obtain ⟨make, made, same⟩ := Option.map_eq_some_iff.mp found
  obtain ⟨rfl, rfl⟩ := Prod.mk.inj same
  obtain ⟨split, char, part, shape, _⟩ := Token.lexeme_eq_some cut
  have takes : cursor.Takes text (cursor.past text rest) := ⟨split, rfl⟩
  have some : text ≠ [] := by
    rw [shape]
    exact List.cons_ne_nil char part
  exact ⟨text, takes, some, described _ _ _ make cut made _ (takes.covers within) some⟩

end Literals

section Suffixes

/-- The operand stands between two places. -/
def OperandFits (source : List Char) (start stop : Nat) (checked : Checked Operand) : Prop :=
  checked.Sound source fun operand =>
    Row (Operand.Faithful source) Operand.span start stop [operand]

theorem OperandFits.widen {start stop low high : Nat} {checked : Checked Operand}
    (fits : OperandFits source start stop checked) (first : low ≤ start) (last : stop ≤ high) :
    OperandFits source low high checked :=
  fits.mono fun _ row => row.widen first last

/-- The suffix is placed where it was read, and its arguments stand side by side in it. -/
def Suffix.Fits (source : List Char) (start stop : Nat) : Suffix → Prop
  | .member _ span => span = ⟨start, stop⟩
  | .call arguments span => span = ⟨start, stop⟩ ∧
      arguments.Sound source (Row (Operand.Faithful source) Operand.span start stop)

theorem memberSuffix_tells : memberSuffix.Tells source (Suffix.Fits source) := by
  intro cursor _ _
  refine .bind (.placed (.rule (.bind (.sign fun _ dot takes => .bind (.blanks fun _ _ gap _ => ?_)))))
  refine .rule (.scan (fun cut => ?_) fun _ _ takes' => .pure ⟨?_, rfl⟩)
  · exact (Token.isName_of_name cut).2.1
  · exact takes.leads.trans (gap.trans takes'.leads)

variable {argument : Reader (Checked Operand)}

/-- Operands with commas between them stand side by side. -/
theorem commaSeparated_tells (tells : argument.Tells source (OperandFits source)) :
    (commaSeparated argument).Tells source fun start stop values =>
      (Checked.all values).Sound source
        (Row (Operand.Faithful source) Operand.span start stop) := by
  have further : Tells source (do
      let _ ← literal ","
      let _ ← blanks
      argument) (OperandFits source) := by
    intro cursor within _
    refine .bind (.sign fun _ comma takes => .bind (.blanks fun _ start gap solid => ?_))
    have before := takes.leads.trans gap
    refine (tells start (within.trans before) solid).mono fun checked behind holds => ?_
    exact ⟨before.trans holds.1, holds.2.widen before.offset_le le_rfl⟩
  intro cursor within solid
  refine .bind ((tells cursor within solid).mono fun first behind holds => ?_)
  refine .bind (.blanks fun _ start gap solid' => .bind (.many solid' fun others last run => ?_))
  obtain ⟨leads, pieces⟩ := Run.pieces further run (within.trans (holds.1.trans gap))
  rw [List.map_id'] at pieces
  refine .pure ⟨holds.1.trans (gap.trans leads), ?_⟩
  have whole : Pieces source (fun start stop operand =>
      Row (Operand.Faithful source) Operand.span start stop [operand]) cursor.offset
      (first :: others) last.offset :=
    .piece le_rfl holds.1.offset_le holds.2 (pieces.widen gap.offset_le le_rfl)
  refine whole.all.mono fun values row => ?_
  rwa [List.flatMap_singleton'] at row

theorem callSuffix_tells (tells : argument.Tells source (OperandFits source)) :
    (callSuffix argument).Tells source (Suffix.Fits source) := by
  intro cursor within _
  refine .bind (.placed (.rule (.bind (.sign fun _ opening takes => .bind
    (.blanks fun _ start gap solid => .bind ?_)))))
  have before := takes.leads.trans gap
  have given := commaSeparated_tells tells start (within.trans before) solid
  refine .optional (given.mono fun values behind holds => ?_) ?_
  · refine .bind (.blanks fun _ _ gap' _ => .bind (.sign fun _ last takes' => .pure (.pure ?_)))
    have after := gap'.trans takes'.leads
    refine ⟨before.trans (holds.1.trans after), rfl, holds.2.mono fun _ row => ?_⟩
    exact row.widen before.offset_le after.offset_le
  · refine .bind (.blanks fun _ _ gap' _ => .bind (.sign fun _ last takes' => .pure (.pure ?_)))
    exact ⟨before.trans (gap'.trans takes'.leads), rfl, Row.nil⟩

theorem suffix_tells (tells : argument.Tells source (OperandFits source)) :
    (memberSuffix.orElse (callSuffix argument)).Tells source (Suffix.Fits source) :=
  fun cursor within solid =>
    .orElse (memberSuffix_tells cursor within solid) (callSuffix_tells tells cursor within solid)

/-- What stands under a span reads as the operand. -/
def Operand.Written (source : List Char) (span : Span) (operand : Operand) : Prop :=
  ∃ text, span.Covers source text ∧ text ≠ [] ∧
    Rereads Grammar.operand text fun again => again.unplaced = operand.unplaced

/-- An operand with a suffix behind it stands under the span from where the operand begins to where
the suffix ends. -/
theorem applyTo_sound {object : Operand} {suffix : Suffix} {low mid start stop : Nat}
    (faithful : object.Faithful source) (place : object.span = ⟨low, mid⟩) (before : low ≤ mid)
    (gap : mid ≤ start) (order : start ≤ stop) (fits : suffix.Fits source start stop)
    (written : ∀ operand, suffix.applyTo object = .ok operand →
      Operand.Written source ⟨low, stop⟩ operand) :
    (suffix.applyTo object).Sound source fun operand =>
      operand.Faithful source ∧ operand.span = ⟨low, stop⟩ := by
  have through : ∀ {span : Span}, span = ⟨start, stop⟩ →
      object.span.through span = ⟨low, stop⟩ := by
    rintro _ rfl
    rw [place]
    rfl
  have callee : ∀ {part : Operand}, part.Faithful source → part.span = object.span →
      Row (Operand.Faithful source) Operand.span low start [part] := fun holds same =>
    .single holds (by rw [same, place]) (by rw [same, place]; exact gap)
  cases suffix with
  | member property span =>
      obtain ⟨text, covers, some, again⟩ := written _ rfl
      have row := (callee faithful rfl).widen le_rfl order
      have whole := through fits
      exact ⟨.intro (whole ▸ covers) some nofun again row.all (whole ▸ row.toAbreast), whole⟩
  | call arguments span =>
      cases arguments with
      | error error => exact fits.2
      | ok arguments =>
          have whole := through fits.1
          have children : ∀ {callee : Operand}, callee.Faithful source → callee.span = object.span →
              Row (Operand.Faithful source) Operand.span low stop (callee :: arguments) :=
            fun holds same => (callee holds same).append fits.2 (before.trans gap) order
          cases object with
          | reference name nameSpan =>
              obtain ⟨text, covers, some, again⟩ := written _ rfl
              have row := children faithful rfl
              exact ⟨.intro (whole ▸ covers) some nofun again row.all (whole ▸ row.toAbreast), whole⟩
          | member owner method methodSpan =>
              obtain ⟨text, covers, some, again⟩ := written _ rfl
              have row := children faithful rfl
              exact ⟨.intro (whole ▸ covers) some nofun again row.all (whole ▸ row.toAbreast), whole⟩
          | _ =>
              obtain ⟨text, covers, some⟩ := faithful.covers
              exact ⟨text, covers, some, nofun⟩

end Suffixes

section Growth

variable {depth : Nat} {cursor behind start last : Cursor} {gap : Lexeme} {object operand : Operand}
  {suffixes : List Suffix}

/-- Where an operand ends: behind its last suffix, or behind its first literal or name and not
behind the blanks in front of a suffix that it does not have. -/
def operandEnd (suffixes : List Suffix) (behind last : Cursor) : Cursor :=
  if suffixes.isEmpty then behind else last

theorem operandEnd_concat (suffixes : List Suffix) (suffix : Suffix) (behind last : Cursor) :
    operandEnd (suffixes ++ [suffix]) behind last = last := by
  unfold operandEnd
  rw [if_neg (by simp)]

theorem offset_operandEnd (suffixes : List Suffix) (leads : behind.Leads last) :
    behind.offset ≤ (operandEnd suffixes behind last).offset ∧
      (operandEnd suffixes behind last).offset ≤ last.offset := by
  unfold operandEnd
  split
  · exact ⟨le_rfl, leads.offset_le⟩
  · exact ⟨leads.offset_le, le_rfl⟩

/-- The suffixes of an operand are read again by themselves. -/
theorem suffixes_alone (solid : strip start.rest = start.rest)
    (run : Run (memberSuffix.orElse (callSuffix (Grammar.operand depth))) start suffixes last) :
    ∃ row, start.Takes row last ∧ strip row = row ∧ ∀ depth', row.length ≤ depth' →
      (many (memberSuffix.orElse (callSuffix (Grammar.operand depth')))).Reads row
        fun found rest => List.Forall₂ Suffix.Alike suffixes found ∧ rest = [] := by
  obtain ⟨row, takes, solid', alone⟩ := run.alone
    (suffix_steady (operand_steady depth) operand_closed) (suffix_closed Grammar.operand) (by simp)
    (fun _ _ => trivial) trivial solid
  exact ⟨row, takes, solid', fun depth' deep => alone depth' (Nat.lt_succ_of_le deep)⟩

/-- The first literal or name of an operand reads, with what is left of the source up to some
place behind it, as the operand made by the suffixes in there. -/
theorem primary_rereads (solid : strip cursor.rest = cursor.rest)
    (read : (primary cursor).result = some (.ok object, behind)) :
    ∃ front, cursor.Takes front behind ∧ front ≠ [] ∧ ∀ more rest, behind.rest = more ++ rest →
      (many (memberSuffix.orElse (callSuffix (Grammar.operand (front ++ more).length)))).Reads
        (strip more) (fun found rest => List.Forall₂ Suffix.Alike suffixes found ∧ rest = []) →
      suffixes.foldlM Suffix.applyTo object = .ok operand →
      Rereads Grammar.operand (front ++ more) fun again => again.unplaced = operand.unplaced := by
  obtain ⟨front, takes, opening, again⟩ := (@primary_steady Nat id).again solid read
  have begins : front ≠ [] := by
    rintro rfl
    exact not_beginsOperand_none opening
  refine ⟨front, takes, begins, fun more rest split row made => rereads_of_reads (.rule ?_)⟩
  have follows : Token.Follows behind.rest more := by
    intro char found
    rw [split]
    exact .inr (List.mem_head?_append_of_mem_head? found)
  refine (again ((front ++ more).length + 1) more ⟨fun _ => follows, fun none => absurd none begins⟩
    trivial (Nat.lt_succ_self _)).bind fun checked rest' holds => .afterBlanks fun _ => ?_
  rw [holds.2.strip]
  refine row.bind fun found rest'' holds' => .pure ⟨holds'.2, ?_⟩
  have alike : Checked.Alike Operand.unplaced (suffixes.foldlM Suffix.applyTo object)
      (checked >>= fun object => found.foldlM Suffix.applyTo object) :=
    holds.1.bind fun _ _ same => foldlM_applyTo_alike holds'.1 same
  rw [made] at alike
  exact alike.of_ok

/-- What an operand was read from reads as it by itself, and so does what each of the operands was
read from that it has grown from. -/
theorem operand_rereads (solid : strip cursor.rest = cursor.rest)
    (read : (primary cursor).result = some (.ok object, behind))
    (skipped : (blanks behind).result = some (gap, start))
    (run : Run (memberSuffix.orElse (callSuffix (Grammar.operand depth))) start suffixes last)
    (made : suffixes.foldlM Suffix.applyTo object = .ok operand) :
    ∃ text, cursor.Takes text (operandEnd suffixes behind last) ∧ text ≠ [] ∧
      Rereads Grammar.operand text fun again => again.unplaced = operand.unplaced := by
  obtain ⟨blank, takesGap, stripped⟩ := run_blanks skipped
  obtain ⟨row, takesRow, solid', alone⟩ := suffixes_alone (by rw [stripped, strip_strip]) run
  obtain ⟨front, takes, begins, rereads⟩ :=
    @primary_rereads _ _ object operand suffixes solid read
  cases run with
  | done =>
      obtain rfl : row = [] := List.self_eq_append_left.mp takesRow.rest
      have reads := rereads [] behind.rest rfl (alone _ (Nat.zero_le _)) made
      rw [List.append_nil] at reads
      exact ⟨front, takes, begins, reads⟩
  | piece =>
      have whole := takesGap.trans takesRow
      refine ⟨front ++ (gap.text ++ row), takes.trans whole, by simp [begins], ?_⟩
      refine rereads _ last.rest whole.rest ?_ made
      rw [strip_blank_append blank, solid']
      refine alone _ ?_
      rw [List.length_append, List.length_append]
      omega

/-- A literal or a name is an operand without a suffix. -/
theorem primary_faithful (within : (Cursor.start source).Leads cursor)
    (solid : strip cursor.rest = cursor.rest)
    (read : (primary cursor).result = some (.ok object, behind))
    (skipped : (blanks behind).result = some (gap, start)) :
    object.Faithful source ∧ object.span = ⟨cursor.offset, behind.offset⟩ := by
  obtain ⟨front, takes, some, atomic⟩ := primary_gives within _ _ read
  have none : Run (memberSuffix.orElse (callSuffix (Grammar.operand 0))) start [] start :=
    .done start
  obtain ⟨text, takes', _, again⟩ := operand_rereads solid read skipped none rfl
  obtain rfl : front = text := List.append_cancel_right (takes.rest.symm.trans takes'.rest)
  refine ⟨.intro (atomic.span ▸ takes.covers within) some atomic.named ?_ ?_ ?_, atomic.span⟩
  · rwa [atomic.bare]
  · rw [atomic.children]
    exact nofun
  · rw [atomic.children]
    exact ⟨nofun, .nil⟩

/-- With each suffix the operand stands under a longer span, from where it begins on. -/
theorem foldlM_applyTo_sound (within : (Cursor.start source).Leads cursor)
    (solid : strip cursor.rest = cursor.rest)
    (read : (primary cursor).result = some (.ok object, behind))
    (skipped : (blanks behind).result = some (gap, start))
    (tells : (Grammar.operand depth).Tells source (OperandFits source))
    (run : Run (memberSuffix.orElse (callSuffix (Grammar.operand depth))) start suffixes last) :
    (suffixes.foldlM Suffix.applyTo object).Sound source fun operand =>
      operand.Faithful source ∧
        operand.span = ⟨cursor.offset, (operandEnd suffixes behind last).offset⟩ := by
  obtain ⟨_, takesGap, stripped⟩ := run_blanks skipped
  obtain ⟨_, takes, _⟩ := primary_gives within _ _ read
  -- the operand that the last suffix is behind is one that fewer suffixes have made
  induction suffixes using List.reverseRecOn generalizing last with
  | nil => exact primary_faithful within solid read skipped
  | append_singleton suffixes suffix hypothesis =>
      obtain ⟨mid, gap', next, front', skipped', read'⟩ := run.concat
      obtain ⟨_, takesGap', stripped'⟩ := run_blanks skipped'
      obtain ⟨_, takesRow, _⟩ := suffixes_alone (by rw [stripped, strip_strip]) front'
      have between := takesGap.leads.trans takesRow.leads
      obtain ⟨leads, fits⟩ := suffix_tells tells next
        (within.trans (takes.leads.trans (between.trans takesGap'.leads)))
        (by rw [stripped', strip_strip]) _ _ read'
      have grown := hypothesis front'
      cases made : suffixes.foldlM Suffix.applyTo object with
      | error error =>
          rw [made] at grown
          rw [List.foldlM_append, made]
          exact grown
      | ok object' =>
          rw [made] at grown
          have added : (suffixes ++ [suffix]).foldlM Suffix.applyTo object =
              suffix.applyTo object' := by
            rw [List.foldlM_append, made]
            exact bind_pure (suffix.applyTo object')
          have ends := offset_operandEnd suffixes between
          rw [added, operandEnd_concat]
          refine applyTo_sound grown.1 grown.2 (takes.leads.offset_le.trans ends.1)
            (ends.2.trans takesGap'.leads.offset_le) leads.offset_le fits fun operand whole => ?_
          obtain ⟨text, takesAll, some', again⟩ :=
            operand_rereads solid read skipped run (added.trans whole)
          rw [operandEnd_concat] at takesAll
          exact ⟨text, takesAll.covers within, some', again⟩

/-- Whatever operand is read stands where it was read. -/
theorem operand_tells (source : List Char) (depth : Nat) :
    (Grammar.operand depth).Tells source (OperandFits source) := by
  induction depth with
  | zero => exact nofun
  | succ depth hypothesis =>
      intro cursor within solid
      refine .rule (.bind fun checked behind read => .bind fun gap start skipped => ?_)
      obtain ⟨_, takesGap, stripped⟩ := run_blanks skipped
      obtain ⟨front, takes, _, atomic⟩ := primary_gives within _ _ read
      have solid' : strip start.rest = start.rest := by rw [stripped, strip_strip]
      refine .bind (.many solid' fun suffixes last run => .pure ?_)
      obtain ⟨_, takesRow, _⟩ := suffixes_alone solid' run
      have onward := takesGap.leads.trans takesRow.leads
      refine ⟨takes.leads.trans onward, ?_⟩
      cases checked with
      | error error => exact atomic
      | ok object =>
          refine (foldlM_applyTo_sound within solid read skipped hypothesis run).mono ?_
          intro operand holds
          refine .single holds.1 ?_ ?_
          · rw [holds.2]
          · rw [holds.2]
            exact (offset_operandEnd suffixes onward).2

end Growth

end Grammar

end TreeSelector
